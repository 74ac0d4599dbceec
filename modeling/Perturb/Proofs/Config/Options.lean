/-
  What acceptable options guarantee.

  Options are checked as untyped values and used as typed settings.  `InRange` is what the checks
  mean for the settings, and `settings_inRange` that they do mean it: settings read off options that
  were accepted lie in all ranges.

  The bridge is that fractions are read as themselves, so no option escapes its range.  A value that
  does not count as a number cannot pass a check, but it would not become a setting either.
-/
import Perturb.Proofs.Config.Ranges

namespace Perturb

/-! ## Values that count as fractions -/

namespace Value

variable {v w : Value Rat} {x y : Rat}

/-- A value that counts as a number is read as that number. -/
theorem reading?_of_number? (h : v.number? = some x) : v.reading? = some (.finite x) := by
  cases v with
  | real a => exact congrArg some (congrArg Extended.finite (Option.some.inj h))
  | int n => exact congrArg some (congrArg Extended.finite (Option.some.inj h))
  | bool b => exact congrArg some (congrArg Extended.finite (Option.some.inj h))
  | null => cases h
  | text s => cases h
  | list vs => cases h
  | map es => cases h

/-- It is neither a list nor a mapping. -/
theorem plain_of_number? (h : v.number? = some x) : v.Plain := by
  cases v with
  | list vs => cases h
  | map es => cases h
  | _ => trivial

/-- Nothing is read as no number. -/
theorem reading?_ne_nan {a : Extended} (h : v.reading? = some a) : a ≠ .nan := by
  rcases reading?_cases h with ⟨x, -, rfl⟩ | ⟨n, -, rfl⟩
  · exact Extended.noConfusion
  · exact Extended.noConfusion

theorem not_unordered : ¬ Unordered v w := by
  intro h
  cases h with
  | numbers hv hw h => exact h.elim (reading?_ne_nan hv) (reading?_ne_nan hw)
  | texts hv hw h => exact h

/-- Numbers in order, as values, are in order. -/
theorem lt_of_numbers (h : Lt v w) (hv : v.number? = some x) (hw : w.number? = some y) : x < y :=
  Extended.finite_lt.1
    ((related_readings (reading?_of_number? hv) (reading?_of_number? hw)).1 h)

theorem le_of_numbers (h : Le v w) (hv : v.number? = some x) (hw : w.number? = some y) : x ≤ y :=
  Extended.finite_le.1
    ((related_readings (reading?_of_number? hv) (reading?_of_number? hw)).1 h)

end Value

/-! ## Settings in range -/

/-- Settings whose values lie in the ranges options are checked for. -/
structure Settings.InRange (s : Settings Rat) : Prop where
  percentage : 0 < s.percentage ∧ s.percentage ≤ 1
  epsilon : 0 < s.epsilon
  limits : s.minValue ≤ s.maxValue
  margin : 0 ≤ s.margin
  objective : s.objective = "min-linf" ∨ s.objective = "max-conf"
  timeLimit : ∀ t ∈ s.timeLimit, 0 < t
  lowConfidence : 0 ≤ s.lowConfidence ∧ s.lowConfidence ≤ 1
  giveUpAfter : 0 ≤ s.giveUpAfter
  samplingRatio : 0 ≤ s.samplingRatio ∧ s.samplingRatio ≤ 1
  quantizationStep : 0 < s.quantizationStep
  maxPromotions : 0 < s.maxPromotions

namespace Options

variable {o : Options Rat} {s : Settings Rat}

theorem number_ok {key : OptionKey} {x : Rat} (h : o.number key = .ok x) :
    (o.get key).number? = some x := by
  unfold number at h
  cases hv : (o.get key).number? with
  | none =>
    rw [hv] at h
    cases h
  | some y =>
    rw [hv] at h
    exact congrArg some (Except.ok.inj h)

/-! ### Checks -/

theorem not_escapes (r : Range Rat) (v : Value Rat) : ¬ r.Escapes v := by
  cases r with
  | above bound => exact Value.not_unordered
  | least bound refusal => exact Value.not_unordered
  | most bound refusal => exact Value.not_unordered
  | free => exact not_false
  | word refusal words => exact not_false
  | share positive => exact not_false

theorem check_of_validate (hv : o.validate = .ok ()) {key : OptionKey} (hkey : key ∈ checked) :
    (o.range key).check key (o.get key) = .ok () := by
  rw [validate_eq] at hv
  exact Outcome.forM_ok_iff.1 hv key hkey

/-- A number that was accepted is in range. -/
theorem holds_of_validate (hv : o.validate = .ok ()) {key : OptionKey} {x : Rat}
    (hx : (o.get key).number? = some x) (hkey : key ∈ checked) :
    (o.range key).Holds (o.get key) :=
  ((Range.judges_check key (Value.plain_of_number? hx) (o.range key)).passed.1
    (check_of_validate hv hkey)).resolve_right (not_escapes _ _)

/-! ### Reading the settings -/

/-- The seed an option gives, if it gives one. -/
def seed? (o : Options Rat) : Outcome (Option Int) :=
  match o.get .seed with
  | .null => .ok none
  | v => match v.integer? with
    | some n => .ok (some n)
    | none => .error .wrongType

/-- The time limit an option gives, if it gives one. -/
def limit? (o : Options Rat) : Outcome (Option Rat) :=
  match o.get .lpTimeLimit with
  | .null => .ok none
  | _ => (o.number .lpTimeLimit).map some

/-- The settings with a seed and a time limit. -/
def settingsWith (o : Options Rat) (seed : Option Int) (timeLimit : Option Rat) :
    Outcome (Settings Rat) := do
  .ok {
    percentage := ← o.number .datasetPercentage
    lazy := (o.get .cegar).truthy
    optimise := (o.get .doOptimization).truthy
    epsilon := ← o.number .epsilon
    minValue := ← o.number .minValue
    maxValue := ← o.number .maxValue
    margin := ← o.number .labelConfidenceDiff
    objective := (o.get .objective).display
    timeLimit
    skipLowConfidence := (o.get .ignoreLowConfidence).truthy
    lowConfidence := ← o.number .lowConfidenceThreshold
    giveUpAfter := ← o.number .giveUpIterations
    samplingRatio := ← o.number .samplingRatio
    quantized := (o.get .quantizationSafety).truthy
    quantizationStep := ← o.number .quantizationStep
    integrality := (o.get .integrality).truthy
    maxPromotions := ← o.number .maxPromotions
    backend := (o.get .solver).display
    seed }

/-- Reading the settings is reading the two options that may be missing, then the others. -/
theorem settings_eq (o : Options Rat) : o.settings = (do
    let seed ← o.seed?
    let timeLimit ← o.limit?
    o.settingsWith seed timeLimit) := by
  unfold settings seed? limit?
  cases o.get .seed <;> cases o.get .lpTimeLimit <;> rfl

/-- Every numeric setting is the number of its option. -/
theorem settings_ok (h : o.settings = .ok s) :
    (o.number .datasetPercentage = .ok s.percentage ∧ o.number .epsilon = .ok s.epsilon ∧
      o.number .minValue = .ok s.minValue ∧ o.number .maxValue = .ok s.maxValue ∧
      o.number .labelConfidenceDiff = .ok s.margin ∧
      o.number .lowConfidenceThreshold = .ok s.lowConfidence ∧
      o.number .giveUpIterations = .ok s.giveUpAfter ∧
      o.number .samplingRatio = .ok s.samplingRatio ∧
      o.number .quantizationStep = .ok s.quantizationStep ∧
      o.number .maxPromotions = .ok s.maxPromotions) ∧
    s.objective = (o.get .objective).display ∧
    ∀ t ∈ s.timeLimit, (o.get .lpTimeLimit).number? = some t := by
  rw [settings_eq] at h
  obtain ⟨seed, -, h⟩ := Outcome.bind_ok_iff.1 h
  obtain ⟨limit, hlimit, h⟩ := Outcome.bind_ok_iff.1 h
  obtain ⟨a₁, h₁, h⟩ := Outcome.bind_ok_iff.1 h
  obtain ⟨a₂, h₂, h⟩ := Outcome.bind_ok_iff.1 h
  obtain ⟨a₃, h₃, h⟩ := Outcome.bind_ok_iff.1 h
  obtain ⟨a₄, h₄, h⟩ := Outcome.bind_ok_iff.1 h
  obtain ⟨a₅, h₅, h⟩ := Outcome.bind_ok_iff.1 h
  obtain ⟨a₆, h₆, h⟩ := Outcome.bind_ok_iff.1 h
  obtain ⟨a₇, h₇, h⟩ := Outcome.bind_ok_iff.1 h
  obtain ⟨a₈, h₈, h⟩ := Outcome.bind_ok_iff.1 h
  obtain ⟨a₉, h₉, h⟩ := Outcome.bind_ok_iff.1 h
  obtain ⟨a₁₀, h₁₀, h⟩ := Outcome.bind_ok_iff.1 h
  cases h
  refine ⟨⟨h₁, h₂, h₃, h₄, h₅, h₆, h₇, h₈, h₉, h₁₀⟩, rfl, fun t ht => ?_⟩
  cases ht
  unfold limit? at hlimit
  split at hlimit
  · cases hlimit
  · cases hnumber : o.number .lpTimeLimit with
    | error e =>
      rw [hnumber] at hlimit
      cases hlimit
    | ok t' =>
      rw [hnumber] at hlimit
      cases hlimit
      exact number_ok hnumber

/-- **Accepted options give settings in range.** -/
theorem settings_inRange (hv : o.validate = .ok ()) (h : o.settings = .ok s) : s.InRange := by
  obtain ⟨⟨hpercentage, hepsilon, hmin, hmax, hmargin, hconfidence, hgiveUp, hratio, hstep,
    hpromotions⟩, hobjective, htime⟩ := settings_ok h
  have hzero : Value.number? (.real 0 : Value Rat) = some 0 := rfl
  have hone : Value.number? (.real 1 : Value Rat) = some 1 := rfl
  have hnone : Value.number? (.int 0 : Value Rat) = some 0 := rfl
  constructor
  case percentage =>
    have hx := number_ok hpercentage
    obtain ⟨hlow, hhigh⟩ := holds_of_validate hv hx (by decide)
    exact ⟨Value.lt_of_numbers hlow hzero hx, Value.le_of_numbers hhigh hx hone⟩
  case epsilon =>
    have hx := number_ok hepsilon
    exact Value.lt_of_numbers (holds_of_validate hv hx (by decide)) hzero hx
  case limits =>
    have hx := number_ok hmin
    exact Value.le_of_numbers (holds_of_validate hv hx (by decide)) hx (number_ok hmax)
  case margin =>
    have hx := number_ok hmargin
    exact Value.le_of_numbers (holds_of_validate hv hx (by decide)) hzero hx
  case objective =>
    have hcheck := check_of_validate hv (show OptionKey.objective ∈ checked by decide)
    obtain ⟨-, word, hword, hvalue⟩ :=
      (Range.judges_require (Range.settles_oneOf _ _)).passed.1 hcheck
    rw [hobjective, hvalue]
    show word = _ ∨ word = _
    simpa using hword
  case timeLimit =>
    intro t ht
    have hx := htime t ht
    exact Value.lt_of_numbers (holds_of_validate hv hx (by decide)) hzero hx
  case lowConfidence =>
    have hx := number_ok hconfidence
    obtain ⟨hlow, hhigh⟩ := holds_of_validate hv hx (by decide)
    exact ⟨Value.le_of_numbers hlow hzero hx, Value.le_of_numbers hhigh hx hone⟩
  case giveUpAfter =>
    have hx := number_ok hgiveUp
    exact Value.le_of_numbers (holds_of_validate hv hx (by decide)) hnone hx
  case samplingRatio =>
    have hx := number_ok hratio
    obtain ⟨hlow, hhigh⟩ := holds_of_validate hv hx (by decide)
    exact ⟨Value.le_of_numbers hlow hzero hx, Value.le_of_numbers hhigh hx hone⟩
  case quantizationStep =>
    have hx := number_ok hstep
    exact Value.lt_of_numbers (holds_of_validate hv hx (by decide)) hzero hx
  case maxPromotions =>
    have hx := number_ok hpromotions
    exact Value.lt_of_numbers (holds_of_validate hv hx (by decide)) hnone hx

end Options

/-! ## The defaults -/

/-- What the defaults are read as. -/
def Settings.defaults : Settings Rat where
  percentage := 1
  lazy := true
  optimise := true
  epsilon := 20
  minValue := 0
  maxValue := 255
  margin := 0
  objective := "min-linf"
  timeLimit := some 480
  skipLowConfidence := false
  lowConfidence := 11 / 20
  giveUpAfter := 4
  samplingRatio := 1 / 10
  quantized := true
  quantizationStep := 1
  integrality := false
  maxPromotions := 700
  backend := "auto"
  seed := none

/-- The defaults pass their own checks. -/
theorem Options.validate_defaults : (defaults : Options Rat).validate = .ok () := rfl

theorem Options.settings_defaults : (defaults : Options Rat).settings = .ok Settings.defaults := by
  with_unfolding_all rfl

end Perturb
