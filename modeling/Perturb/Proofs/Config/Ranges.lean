/-
  Which options are accepted.

  Options are checked one by one, each against a range of its own (`Options.range`): above or at
  least a bound, at most another option, between zero and one, or one of some words.  Some checks
  ask whether the value is in its range and some whether it is out of it, and the two are not the
  same.

  1. **Mappings** — options changed by a mapping have their values from before or from its entries,
     so they stay plain, and truth values stay where they are expected (`Wellformed.overlay`).

  2. **One check** — a value passes exactly if it is in range, or if its range has one end only and
     the value or that end is read as no number: such a value is not out of range either.  What does
     not pass is refused by name, except that values of a wrong sort are a fault of type
     (`Range.judges_check`).

  3. **All options** — options pass if each of them does, and otherwise the first one that does not
     is reported (`validate_error`).  A mapping of plain values is accepted exactly if it is proper
     and every option passes (`update_verdict`).  So where no option escapes its range and no value
     is of a wrong sort, a mapping is refused as a configuration or leaves all options in range; and
     both exceptions do occur (`update_not_clean`).
-/
import Perturb.Proofs.Config.Comparison
import Perturb.Config.Options

namespace Perturb

namespace Options

variable {K : Type}

/-! ## Mappings -/

/-- Plain values, and truth values where they are expected. -/
structure Wellformed (o : Options K) : Prop where
  plain : ∀ key, (o.get key).Plain
  boolean : ∀ key : OptionKey, key.isBoolean = true → ∃ b, o.get key = .bool b

/-- The entries of a mapping name options, and give truth values to those that expect them. -/
def Proper (m : Mapping K) : Prop :=
  ∀ entry ∈ m, ∃ key, OptionKey.ofValue? entry.1 = some key ∧
    (key.isBoolean = true → ∃ b, entry.2 = .bool b)

section Mappings

variable {base : Options K} {m : Mapping K}

/-- An option changed by a mapping has its value from before, if no entry names it, or that of an
    entry. -/
theorem get_overlay (o : Options K) (m : Mapping K) (key : OptionKey) :
    ((o.overlay m).get key = o.get key ∧ ∀ entry ∈ m, OptionKey.ofValue? entry.1 ≠ some key) ∨
      ∃ entry ∈ m, OptionKey.ofValue? entry.1 = some key ∧ (o.overlay m).get key = entry.2 := by
  induction m generalizing o with
  | nil => exact Or.inl ⟨rfl, List.forall_mem_nil _⟩
  | cons entry m ih =>
    obtain ⟨k, value⟩ := entry
    rw [List.forall_mem_cons]
    cases hk : OptionKey.ofValue? k with
    | none =>
      have hskip : o.overlay ((k, value) :: m) = o.overlay m := by
        simp only [overlay, List.foldl_cons, hk]
      rw [hskip]
      refine (ih o).imp (fun ⟨hget, hno⟩ => ⟨hget, (fun h => by cases h), hno⟩) ?_
      exact fun ⟨entry, hentry, h⟩ => ⟨entry, List.mem_cons_of_mem _ hentry, h⟩
    | some k' =>
      have hset : o.overlay ((k, value) :: m) = (o.set k' value).overlay m := by
        simp only [overlay, List.foldl_cons, hk]
      rw [hset]
      rcases ih (o.set k' value) with ⟨hget, hno⟩ | ⟨entry, hentry, h⟩
      · by_cases hkey : key = k'
        · subst hkey
          exact Or.inr ⟨_, List.mem_cons_self .., hk, hget.trans (if_pos rfl)⟩
        · exact Or.inl ⟨hget.trans (if_neg hkey), fun h => hkey (Option.some.inj h).symm, hno⟩
      · exact Or.inr ⟨entry, List.mem_cons_of_mem _ hentry, h⟩

/-- Well-formed options stay so under a proper mapping of plain values. -/
theorem Wellformed.overlay (hbase : base.Wellformed) (hproper : Proper m)
    (hplain : ∀ entry ∈ m, entry.2.Plain) : (base.overlay m).Wellformed where
  plain key := by
    rcases get_overlay base m key with ⟨hget, -⟩ | ⟨entry, hentry, -, hget⟩
    · rw [hget]
      exact hbase.plain key
    · rw [hget]
      exact hplain entry hentry
  boolean key hkey := by
    rcases get_overlay base m key with ⟨hget, -⟩ | ⟨entry, hentry, hname, hget⟩
    · rw [hget]
      exact hbase.boolean key hkey
    · obtain ⟨key', hname', hbool⟩ := hproper entry hentry
      cases hname.symm.trans hname'
      rw [hget]
      exact hbool hkey

/-- The entry of a known key offends if a truth value is expected and something else given. -/
theorem notBoolean_iff {k v : Value K} {key : OptionKey} (hk : OptionKey.ofValue? k = some key) :
    notBoolean k v = true ↔ ¬ (key.isBoolean = true → ∃ b, v = .bool b) := by
  unfold notBoolean
  rw [hk]
  cases v <;> simp

/-- A mapping is proper if neither search for an offending entry finds one. -/
theorem proper_iff : Proper m ↔
    unknownKey? m = none ∧ (m.find? fun (k, v) => notBoolean k v) = none := by
  unfold unknownKey?
  rw [Option.map_eq_none_iff, List.find?_eq_none, List.find?_eq_none]
  constructor
  · intro h
    refine ⟨fun entry hentry => ?_, fun entry hentry => ?_⟩
    · obtain ⟨key, hkey, -⟩ := h entry hentry
      simp [hkey]
    · obtain ⟨key, hkey, hbool⟩ := h entry hentry
      exact mt (notBoolean_iff hkey).1 (not_not_intro hbool)
  · rintro ⟨hknown, hbool⟩ entry hentry
    cases hkey : OptionKey.ofValue? entry.1 with
    | none => exact absurd (by simp [hkey]) (hknown entry hentry)
    | some key => exact ⟨key, rfl, not_not.1 (mt (notBoolean_iff hkey).2 (hbool entry hentry))⟩

variable [Scalar K]

theorem wellformed_defaults : (defaults : Options K).Wellformed where
  plain key := by cases key <;> trivial
  boolean key h := by cases key <;> first | exact ⟨_, rfl⟩ | cases h

/-- A proper mapping is accepted if what comes out passes all checks. -/
theorem update_of_proper (h : Proper m) : base.update m = (do
    (base.overlay m).validate
    .ok (base.overlay m)) := by
  obtain ⟨hknown, hbool⟩ := proper_iff.1 h
  unfold update
  rw [hknown]
  dsimp only
  rw [hbool]

/-- Any other mapping is refused as a configuration. -/
theorem update_of_not_proper (base : Options K) (h : ¬ Proper m) :
    ∃ field text, base.update m = .error (.invalidOption field text) := by
  unfold update
  cases hknown : unknownKey? m with
  | some key => exact ⟨_, _, rfl⟩
  | none =>
    dsimp only
    cases hbool : m.find? fun (k, v) => notBoolean k v with
    | some entry => exact ⟨_, _, rfl⟩
    | none => exact absurd (proper_iff.2 ⟨hknown, hbool⟩) h

end Mappings

variable [Scalar K]

/-! ## Ranges -/

/-- What is asked of the value of an option. -/
inductive Range (K : Type) where
  /-- Nothing. -/
  | free
  /-- To be one of some words. -/
  | word (refusal : String) (words : List String)
  /-- To be above a bound. -/
  | above (bound : Value K)
  /-- To be at least a bound. -/
  | least (bound : Value K) (refusal : String)
  /-- To be at most a bound. -/
  | most (bound : Value K) (refusal : String)
  /-- To be at most one, and at least zero or positive. -/
  | share (positive : Bool)

/-- The range of an option, which for the least value depends on the largest one. -/
def range (o : Options K) : OptionKey → Range K
  | .datasetPercentage => .share true
  | .epsilon => .above (.real 0)
  | .minValue => .most (o.get .maxValue) "must not exceed max_value"
  | .labelConfidenceDiff => .least (.real 0) "must be non-negative"
  | .objective => .word "unknown objective '" ["min-linf", "max-conf"]
  | .lpTimeLimit => .above (.real 0)
  | .lowConfidenceThreshold => .share false
  | .giveUpIterations => .least (.int 0) "must be non-negative"
  | .samplingRatio => .share false
  | .quantizationStep => .above (.real 0)
  | .maxPromotions => .above (.int 0)
  | .workers => .least (.int 1) "must be at least 1"
  | .threads => .least (.int 1) "must be at least 1"
  | .solver => .word "unknown solver '" ["auto", "gurobi", "scipy"]
  | _ => .free

/-- The check of a value against a range. -/
def Range.check (key : OptionKey) (v : Value K) : Range K → Outcome Unit
  | .free => .ok ()
  | .word refusal words => require (.ok (oneOf words v)) key (refusal ++ v.display ++ "'")
  | .above bound => refuseIf (Value.atMost v bound) key "must be positive"
  | .least bound refusal => refuseIf (Value.less v bound) key refusal
  | .most bound refusal => refuseIf (Value.less bound v) key refusal
  | .share true =>
    require (do if ← Value.less (.real 0) v then Value.atMost v (.real 1) else .ok false) key
      "must be in (0, 1]"
  | .share false => require (inUnit v) key "must be in [0, 1]"

/-- The options that have a range, in the order they are checked. -/
def checked : List OptionKey :=
  [.datasetPercentage, .epsilon, .minValue, .labelConfidenceDiff, .objective, .lpTimeLimit,
    .lowConfidenceThreshold, .giveUpIterations, .samplingRatio, .quantizationStep, .maxPromotions,
    .workers, .threads, .solver]

theorem require_ok {test : Outcome Bool} {key : OptionKey} {text : String}
    (h : require test key text = .ok ()) : test = .ok true := by
  obtain ⟨b, hb, h⟩ := Outcome.bind_ok_iff.1 h
  cases b with
  | false => cases h
  | true => exact hb

/-- Options are checked one by one. -/
theorem validate_eq (o : Options K) :
    o.validate = checked.forM fun key => (o.range key).check key (o.get key) := by
  -- the loop ends with a round that does nothing
  have hlast : ∀ x : Outcome Unit, (x >>= fun _ => pure PUnit.unit) = x := by
    intro x
    cases x <;> rfl
  simp only [checked, List.forM, hlast]
  rfl

/-- Options that are not checked have no range. -/
theorem range_of_not_checked {o : Options K} {key : OptionKey} (h : key ∉ checked) :
    o.range key = .free := by
  cases key <;> first | rfl | exact absurd (by decide) h

variable [Scalar.Reading K]

namespace Range

/-- A value is in range. -/
def Holds (v : Value K) : Range K → Prop
  | .free => True
  | .word _ words => ∃ w ∈ words, v = .text w
  | .above bound => Value.Lt bound v
  | .least bound _ => Value.Le bound v
  | .most bound _ => Value.Le v bound
  | .share true => Value.Lt (.real 0) v ∧ Value.Le v (.real 1)
  | .share false => Value.Le (.real 0) v ∧ Value.Le v (.real 1)

/-- A range has one end only, and the value or that end is read as no number. -/
def Escapes (v : Value K) : Range K → Prop
  | .above bound => Value.Unordered v bound
  | .least bound _ => Value.Unordered v bound
  | .most bound _ => Value.Unordered bound v
  | _ => False

/-- A value is of a sort that compares with the ends of its range. -/
def Sorted (v : Value K) : Range K → Prop
  | .above bound => Value.Comparable v bound
  | .least bound _ => Value.Comparable v bound
  | .most bound _ => Value.Comparable bound v
  | .share _ => Value.Comparable (.real 0) v
  | _ => True

/-! ## One check -/

/-- A check passes in one case exactly; otherwise it refuses the option by name, or the values are
    of a wrong sort. -/
structure Judges (key : OptionKey) (check : Outcome Unit) (sorts passes : Prop) : Prop where
  passed : check = .ok () ↔ passes
  failed : ∀ e, check = .error e →
    (∃ text, e = .invalidOption key.name text) ∨ e = .wrongType ∧ ¬ sorts

section Checks

variable {key : OptionKey} {test : Outcome Bool} {text : String} {v : Value K}
  {sorts question passes passes' : Prop}

theorem Judges.congr {check : Outcome Unit} (h : Judges key check sorts passes)
    (hiff : passes ↔ passes') : Judges key check sorts passes' :=
  ⟨h.passed.trans hiff, h.failed⟩

/-- What a test that must succeed makes of a question. -/
theorem judges_require (h : Value.Settles test sorts question) :
    Judges key (require test key text) sorts (sorts ∧ question) := by
  refine ⟨⟨fun hok => h.eq_true_iff.1 (require_ok hok), fun hq => ?_⟩, fun e he => ?_⟩
  · rw [h.eq_true_iff.2 hq]
    rfl
  · cases htest : test with
    | error e' =>
      rw [htest] at he
      cases he
      exact Or.inr (h.of_error htest)
    | ok b =>
      rw [htest] at he
      cases b with
      | false => exact Or.inl ⟨text, (Except.error.inj he).symm⟩
      | true => cases he

/-- What a test that must fail makes of it. -/
theorem judges_refuseIf (h : Value.Settles test sorts question) :
    Judges key (refuseIf test key text) sorts (sorts ∧ ¬ question) := by
  have hrequire : refuseIf test key text = require (test.map fun b => !b) key text := by
    cases test with
    | error e => rfl
    | ok b => cases b <;> rfl
  rw [hrequire]
  exact judges_require h.opposite

/-- What is not out of range, where that is being in range or escaping. -/
theorem not_out_iff {inside outside escapes : Prop} (hinside : inside → sorts)
    (hescapes : escapes → sorts) (h : sorts → (¬ outside ↔ inside ∨ escapes)) :
    sorts ∧ ¬ outside ↔ inside ∨ escapes := by
  constructor
  · rintro ⟨hsorts, hout⟩
    exact (h hsorts).1 hout
  · intro hpass
    have hsorts : sorts := hpass.elim hinside hescapes
    exact ⟨hsorts, (h hsorts).2 hpass⟩

/-- Whether a value compares with one number, it compares with every other. -/
theorem comparable_real (x y : K) :
    Value.Comparable (.real x) v ↔ Value.Comparable v (.real y) := by
  constructor
  · intro h
    cases h with
    | numbers _ hv => exact .numbers hv rfl trivial
    | texts hx => cases hx
  · intro h
    cases h with
    | numbers hv => exact .numbers rfl hv trivial
    | texts _ hy => cases hy

/-- Being at most one is settled for whatever compares with zero. -/
theorem settles_atMost_one (hv : v.Plain) :
    Value.Settles (Value.atMost v (.real 1)) (Value.Comparable (.real 0) v)
      (Value.Le v (.real 1)) := by
  rw [comparable_real 0 1]
  exact Value.settles_atMost (.inl hv)

omit [Scalar.Reading K] in
/-- Being one of some words is settled for every value. -/
theorem settles_oneOf (words : List String) (v : Value K) :
    Value.Settles (.ok (oneOf words v)) True (∃ w ∈ words, v = .text w) where
  answer _ := by
    refine ⟨_, rfl, ?_⟩
    unfold oneOf
    simp only [List.any_eq_true, Value.same_text_iff]
  fault h := absurd trivial h

/-- **One check.**  A plain value passes exactly if it is in range or escapes it. -/
theorem judges_check (key : OptionKey) (hv : v.Plain) (r : Range K) :
    Judges key (r.check key v) (r.Sorted v) (r.Holds v ∨ r.Escapes v) := by
  cases r with
  | free => exact ⟨⟨fun _ => Or.inl trivial, fun _ => rfl⟩, fun e he => (by cases he)⟩
  | word refusal words =>
    refine (judges_require (settles_oneOf words v)).congr ?_
    exact (and_iff_right trivial).trans (or_iff_left not_false).symm
  | above bound =>
    refine (judges_refuseIf (Value.settles_atMost (.inl hv))).congr ?_
    exact not_out_iff (fun h => h.comparable.symm) (fun h => h.comparable) Value.not_le_iff
  | least bound refusal =>
    refine (judges_refuseIf (Value.settles_less (.inl hv))).congr ?_
    exact not_out_iff (fun h => h.comparable.symm) (fun h => h.comparable) Value.not_lt_iff
  | most bound refusal =>
    refine (judges_refuseIf (Value.settles_less (.inr hv))).congr ?_
    exact not_out_iff (fun h => h.comparable.symm) (fun h => h.comparable) Value.not_lt_iff
  | share positive =>
    -- the test asks for the range itself, so nothing escapes
    cases positive with
    | true =>
      have hlow := Value.settles_less (v := .real 0) (w := v) (.inl trivial)
      refine (judges_require (hlow.both (settles_atMost_one hv))).congr ?_
      exact (and_iff_right_of_imp fun h => h.1.comparable).trans (or_iff_left not_false).symm
    | false =>
      have hlow := Value.settles_atMost (v := .real 0) (w := v) (.inl trivial)
      refine (judges_require (hlow.both (settles_atMost_one hv))).congr ?_
      exact (and_iff_right_of_imp fun h => h.1.comparable).trans (or_iff_left not_false).symm

end Checks

end Range

/-! ## All options -/

/-- An option is what its documentation asks for. -/
def InRange (o : Options K) (key : OptionKey) : Prop :=
  (key.isBoolean = true → ∃ b, o.get key = .bool b) ∧ (o.range key).Holds (o.get key)

/-- An option is not in range, and not out of range either. -/
def Escapes (o : Options K) (key : OptionKey) : Prop := (o.range key).Escapes (o.get key)

/-- An option has a value of a wrong sort. -/
def Missorted (o : Options K) (key : OptionKey) : Prop := ¬ (o.range key).Sorted (o.get key)

/-- A mapping is refused as a configuration, or gives options that are all in range. -/
def Clean (base : Options K) (m : Mapping K) : Prop :=
  (∃ field text, base.update m = .error (.invalidOption field text)) ∨
    ∃ o, base.update m = .ok o ∧ ∀ key, o.InRange key

section All

variable {o : Options K}

/-- Each option of well-formed options is judged by whether it is in range or escapes it. -/
theorem judges_option (ho : o.Wellformed) (key : OptionKey) :
    Range.Judges key ((o.range key).check key (o.get key)) ((o.range key).Sorted (o.get key))
      (o.InRange key ∨ o.Escapes key) := by
  refine (Range.judges_check key (ho.plain key) (o.range key)).congr (or_congr_left ?_)
  exact (and_iff_right (ho.boolean key)).symm

/-- Options pass if each of them does. -/
theorem validate_ok_iff (ho : o.Wellformed) :
    o.validate = .ok () ↔ ∀ key, o.InRange key ∨ o.Escapes key := by
  rw [validate_eq, Outcome.forM_ok_iff]
  constructor
  · intro h key
    rw [← (judges_option ho key).passed]
    by_cases hkey : key ∈ checked
    · exact h key hkey
    · rw [range_of_not_checked hkey]
      rfl
  · exact fun h key _ => (judges_option ho key).passed.2 (h key)

/-- **The first offence is reported.**  Where options do not pass, it is for the first one that does
    not, which is refused by name or has a value of a wrong sort. -/
theorem validate_error (ho : o.Wellformed) {e : Fault} (h : o.validate = .error e) :
    ∃ done key rest, checked = done ++ key :: rest ∧
      (∀ k ∈ done, o.InRange k ∨ o.Escapes k) ∧ ¬ (o.InRange key ∨ o.Escapes key) ∧
      ((∃ text, e = .invalidOption key.name text) ∨ e = .wrongType ∧ o.Missorted key) := by
  rw [validate_eq, Outcome.forM_error_iff] at h
  obtain ⟨done, key, rest, hsplit, hdone, hkey⟩ := h
  refine ⟨done, key, rest, hsplit, fun k hk => (judges_option ho k).passed.1 (hdone k hk), ?_,
    (judges_option ho key).failed e hkey⟩
  intro hpass
  cases hkey.symm.trans ((judges_option ho key).passed.2 hpass)

end All

/-- **Which options are accepted.**  For well-formed options and any mapping of plain values:

    * the mapping is accepted exactly if it is proper and the options it leads to are all in range
      or escape their range;
    * if it is not accepted, it is refused as a configuration, or some option has a value of a wrong
      sort;
    * hence, unless an option escapes its range or has a value of a wrong sort, it is refused as a
      configuration or gives options that are all in range. -/
theorem update_verdict {base : Options K} (hbase : base.Wellformed) {m : Mapping K}
    (hm : ∀ entry ∈ m, entry.2.Plain) :
    (∀ o, base.update m = .ok o ↔
      o = base.overlay m ∧ Proper m ∧ ∀ key, o.InRange key ∨ o.Escapes key) ∧
    (∀ e, base.update m = .error e → (∃ field text, e = .invalidOption field text) ∨
      e = .wrongType ∧ ∃ key, (base.overlay m).Missorted key) ∧
    ((∀ key, ¬ (base.overlay m).Escapes key ∧ ¬ (base.overlay m).Missorted key) →
      base.Clean m) := by
  have haccepted : ∀ o, base.update m = .ok o ↔
      o = base.overlay m ∧ Proper m ∧ ∀ key, o.InRange key ∨ o.Escapes key := by
    intro o
    by_cases hproper : Proper m
    · rw [update_of_proper hproper, Outcome.bind_ok_iff, and_iff_right hproper]
      constructor
      · rintro ⟨⟨⟩, hvalid, hok⟩
        cases hok
        exact ⟨rfl, (validate_ok_iff (hbase.overlay hproper hm)).1 hvalid⟩
      · rintro ⟨rfl, hall⟩
        exact ⟨(), (validate_ok_iff (hbase.overlay hproper hm)).2 hall, rfl⟩
    · obtain ⟨field, text, hrefused⟩ := update_of_not_proper base hproper
      rw [hrefused]
      exact ⟨fun h => (by cases h), fun h => absurd h.2.1 hproper⟩
  have hrefused : ∀ e, base.update m = .error e → (∃ field text, e = .invalidOption field text) ∨
      e = .wrongType ∧ ∃ key, (base.overlay m).Missorted key := by
    intro e he
    by_cases hproper : Proper m
    · rw [update_of_proper hproper] at he
      cases hvalid : (base.overlay m).validate with
      | ok u =>
        rw [hvalid] at he
        cases he
      | error e' =>
        rw [hvalid] at he
        cases he
        obtain ⟨-, key, -, -, -, -, hfault⟩ := validate_error (hbase.overlay hproper hm) hvalid
        exact hfault.imp (fun ⟨text, h⟩ => ⟨_, text, h⟩) fun h => ⟨h.1, key, h.2⟩
    · obtain ⟨field, text, h⟩ := update_of_not_proper base hproper
      cases h.symm.trans he
      exact Or.inl ⟨field, text, rfl⟩
  refine ⟨haccepted, hrefused, fun hplain => ?_⟩
  cases hupdate : base.update m with
  | ok o =>
    obtain ⟨rfl, -, hall⟩ := (haccepted o).1 hupdate
    exact Or.inr ⟨_, hupdate, fun key => (hall key).resolve_right (hplain key).1⟩
  | error e =>
    rcases hrefused e hupdate with ⟨field, text, rfl⟩ | ⟨-, key, hkey⟩
    · exact Or.inl ⟨field, text, hupdate⟩
    · exact absurd hkey (hplain key).2

/-- A time limit that is infinite, and two workers. -/
def patient : Mapping Extended :=
  [(.text "lp_time_limit", .real (.infinite false)), (.text "workers", .int 2)]

/-- Nothing there escapes its range and no value is of a wrong sort, so the options that come out
    are all in range. -/
theorem update_verdict_patient :
    ∃ o : Options Extended, defaults.update patient = .ok o ∧ o.get .workers = .int 2 ∧
      ∀ key, o.InRange key := by
  have hplain : ∀ entry ∈ patient, entry.2.Plain := by
    simp [patient, Value.Plain]
  obtain ⟨-, -, hclean⟩ := update_verdict wellformed_defaults hplain
  have hok : (defaults : Options Extended).update patient = .ok (defaults.overlay patient) := by rfl
  have hordinary : ∀ key, ¬ (defaults.overlay patient).Escapes key ∧
      ¬ (defaults.overlay patient).Missorted key := by
    -- options without a range, options between zero and one, and options whose range has one end
    intro key
    cases key <;> first
      | exact ⟨not_false, not_not_intro trivial⟩
      | exact ⟨not_false, not_not_intro (.numbers rfl rfl trivial)⟩
      | exact ⟨mt (Value.related_readings rfl rfl).1 (by decide),
          not_not_intro (.numbers rfl rfl trivial)⟩
  rcases hclean hordinary with ⟨field, text, hrefused⟩ | ⟨o, ho, hall⟩
  · cases hok.symm.trans hrefused
  · refine ⟨o, ho, ?_, hall⟩
    cases hok.symm.trans ho
    rfl

/-- **Both exceptions are real.**  A radius that is no number is accepted, though it is not
    positive, and a radius that is missing is a fault of type and not of the configuration. -/
theorem update_not_clean :
    ¬ (defaults : Options Extended).Clean [(.text "epsilon", .real .nan)] ∧
      ¬ (defaults : Options Extended).Clean [(.text "epsilon", .null)] := by
  constructor
  · have hok : (defaults : Options Extended).update [(.text "epsilon", .real .nan)] =
        .ok (defaults.overlay [(.text "epsilon", .real .nan)]) := by rfl
    rintro (⟨field, text, hrefused⟩ | ⟨o, ho, hall⟩)
    · cases hok.symm.trans hrefused
    · cases hok.symm.trans ho
      have hpositive : Value.Lt (.real 0) (.real Extended.nan) := (hall .epsilon).2
      exact Extended.not_lt_nan ((Value.related_readings rfl rfl).1 hpositive)
  · have hfault : (defaults : Options Extended).update [(.text "epsilon", .null)] =
        .error .wrongType := by rfl
    rintro (⟨field, text, hrefused⟩ | ⟨o, ho, -⟩)
    · cases hfault.symm.trans hrefused
    · cases hfault.symm.trans ho

end Options

end Perturb
