/-
  Comparing untyped values.

  A plain value, one that is neither a list nor a mapping, may be read as an extended number, if it
  is a truth value, an integer or a number, or it may be a text.

  1. **Numbers** — values that are read as numbers compare as what is read, whatever their sorts
     (`readings_compare`).

  2. **Order** — values compare if both are read as numbers or both are texts (`Comparable`).  Then
     they are in order one way or the other (`Lt`, `Le`), except where one of them is read as no
     number (`Unordered`).

  3. **Tests** — `less` and `atMost` answer whether values that compare are in order, and are a fault
     of type elsewhere (`settles_less`, `settles_atMost`).
-/
import Perturb.Proofs.Number.Extended
import Perturb.Proofs.Outcome
import Perturb.Config.Value

namespace Perturb

namespace Value

variable {K : Type} [Scalar K]

/-- Neither a list nor a mapping. -/
def Plain : Value K → Prop
  | .list _ => False
  | .map _ => False
  | _ => True

/-! ## Sorts -/

section Sorts

variable {v w : Value K}

/-- Values that count as integers compare as the integers do. -/
theorem integers_compare {n m : Int} (hv : v.integer? = some n) (hw : w.integer? = some m) :
    below? v w = some (decide (n < m)) ∧ same v w = (n == m) := by
  cases v <;> cases hv <;> cases w <;> cases hw <;> exact ⟨rfl, rfl⟩

/-- A value that counts as an integer compares with a number as the integer does. -/
theorem integer_real_compare {n : Int} (hv : v.integer? = some n) (y : K) :
    below? v (.real y) = some (intBelow n y) ∧ same v (.real y) = intEquals n y := by
  cases v <;> cases hv <;> exact ⟨rfl, rfl⟩

theorem real_integer_compare {m : Int} (x : K) (hw : w.integer? = some m) :
    below? (.real x) w = some (belowInt x m) ∧ same (.real x) w = intEquals m x := by
  cases w <;> cases hw <;> exact ⟨rfl, rfl⟩

/-- A value that is the same as a text is that text. -/
theorem same_text_iff {s : String} : same v (.text s) = true ↔ v = .text s := by
  constructor
  · intro h
    cases v with
    | text t => exact congrArg Value.text (beq_iff_eq.1 h)
    | null => cases h
    | bool b => cases h
    | int n => cases h
    | real x => cases h
    | list vs => cases h
    | map es => cases h
  · rintro rfl
    exact beq_self_eq_true s

end Sorts

/-! ## Numbers -/

variable [Scalar.Reading K]

/-- The extended number a value is read as, if it counts as a number. -/
def reading? : Value K → Option Extended
  | .real x => some (Scalar.Reading.read x)
  | v => v.integer?.map fun n => .finite n

/-- A value that is read as a number is one, or counts as an integer. -/
theorem reading?_cases {v : Value K} {a : Extended} (h : v.reading? = some a) :
    (∃ x, v = .real x ∧ a = Scalar.Reading.read x) ∨
      ∃ n : Int, v.integer? = some n ∧ a = .finite n := by
  cases v with
  | real x => exact Or.inl ⟨x, rfl, (Option.some.inj h).symm⟩
  | int n => exact Or.inr ⟨n, rfl, (Option.some.inj h).symm⟩
  | bool b => exact Or.inr ⟨_, rfl, (Option.some.inj h).symm⟩
  | null => cases h
  | text s => cases h
  | list vs => cases h
  | map es => cases h

section Numbers

variable (n : Int) (x : K)

/-- An integer compares with a scalar as with what it is read as, an infinity going by its sign. -/
theorem intBelow_eq : intBelow n x = decide (.finite n < Scalar.Reading.read x) := by
  have hsign : 0 < x ↔ .finite 0 < Scalar.Reading.read x := by
    rw [Scalar.Reading.lt_iff, Scalar.Reading.read_zero]
  unfold intBelow
  rw [Scalar.Reading.toRat?_eq]
  cases hx : Scalar.Reading.read x with
  | finite q => exact decide_eq_decide.2 Extended.finite_lt.symm
  | infinite negative => exact decide_eq_decide.2 (hsign.trans (by rw [hx]; rfl))
  | nan => exact decide_eq_decide.2 (hsign.trans (by rw [hx]; rfl))

theorem belowInt_eq : belowInt x n = decide (Scalar.Reading.read x < .finite n) := by
  have hsign : x < 0 ↔ Scalar.Reading.read x < .finite 0 := by
    rw [Scalar.Reading.lt_iff, Scalar.Reading.read_zero]
  unfold belowInt
  rw [Scalar.Reading.toRat?_eq]
  cases hx : Scalar.Reading.read x with
  | finite q => exact decide_eq_decide.2 Extended.finite_lt.symm
  | infinite negative => exact decide_eq_decide.2 (hsign.trans (by rw [hx]; rfl))
  | nan => exact decide_eq_decide.2 (hsign.trans (by rw [hx]; rfl))

theorem intEquals_eq : intEquals n x = decide (Scalar.Reading.read x = .finite n) := by
  unfold intEquals
  rw [Scalar.Reading.toRat?_eq]
  cases Scalar.Reading.read x with
  | finite q => exact decide_eq_decide.2 (Extended.finite.injEq q n ▸ Iff.rfl)
  | infinite negative => rfl
  | nan => rfl

end Numbers

section Readings

variable {v w : Value K} {a b : Extended}

/-- **Values that are read as numbers** compare as what is read. -/
theorem readings_compare (hv : v.reading? = some a) (hw : w.reading? = some b) :
    below? v w = some (decide (a < b)) ∧ same v w = decide (a = b ∧ a ≠ .nan) := by
  rcases reading?_cases hv with ⟨x, rfl, rfl⟩ | ⟨n, hn, rfl⟩ <;>
    rcases reading?_cases hw with ⟨y, rfl, rfl⟩ | ⟨m, hm, rfl⟩
  · exact ⟨congrArg some (decide_eq_decide.2 (Scalar.Reading.lt_iff x y)),
      Bool.eq_iff_iff.2 ((Scalar.Reading.beq_iff x y).trans decide_eq_true_iff.symm)⟩
  · obtain ⟨hbelow, hsame⟩ := real_integer_compare x hm
    rw [hbelow, hsame, belowInt_eq, intEquals_eq]
    refine ⟨rfl, decide_eq_decide.2 ⟨fun h => ⟨h, ?_⟩, And.left⟩⟩
    rw [h]
    exact Extended.noConfusion
  · obtain ⟨hbelow, hsame⟩ := integer_real_compare hn y
    rw [hbelow, hsame, intBelow_eq, intEquals_eq]
    exact ⟨rfl, decide_eq_decide.2 ⟨fun h => ⟨h.symm, Extended.noConfusion⟩, fun h => h.1.symm⟩⟩
  · obtain ⟨hbelow, hsame⟩ := integers_compare hn hm
    rw [hbelow, hsame, beq_eq_decide]
    constructor
    · exact congrArg some (decide_eq_decide.2 (Extended.finite_lt.trans Int.cast_lt).symm)
    · refine decide_eq_decide.2 ⟨fun h => ⟨congrArg _ (congrArg _ h), Extended.noConfusion⟩, ?_⟩
      exact fun h => Int.cast_inj.1 (Extended.finite.inj h.1)

end Readings

/-! ## Order -/

/-- Two values are both read as numbers that are related in one way, or are texts related in
    another. -/
inductive Related (r : Extended → Extended → Prop) (q : String → String → Prop) (v w : Value K) :
    Prop where
  | numbers {a b : Extended} (hv : v.reading? = some a) (hw : w.reading? = some b) (h : r a b)
  | texts {s t : String} (hv : v = .text s) (hw : w = .text t) (h : q s t)

/-- A value is below another. -/
def Lt (v w : Value K) : Prop := Related (· < ·) (· < ·) v w

/-- A value is at most another. -/
def Le (v w : Value K) : Prop := Related (· ≤ ·) (· ≤ ·) v w

/-- Two values are of sorts that compare. -/
def Comparable (v w : Value K) : Prop := Related (fun _ _ => True) (fun _ _ => True) v w

/-- Two values compare, but one of them is read as no number. -/
def Unordered (v w : Value K) : Prop :=
  Related (fun a b => a = .nan ∨ b = .nan) (fun _ _ => False) v w

section Order

variable {v w : Value K} {r : Extended → Extended → Prop} {q : String → String → Prop}

/-- Values that are read as numbers are related as what is read. -/
theorem related_readings {a b : Extended} (hv : v.reading? = some a) (hw : w.reading? = some b) :
    Related r q v w ↔ r a b := by
  constructor
  · intro h
    cases h with
    | numbers hv' hw' h =>
      cases hv.symm.trans hv'
      cases hw.symm.trans hw'
      exact h
    | texts hv' =>
      subst hv'
      cases hv
  · exact .numbers hv hw

theorem related_texts {s t : String} : Related r q (.text s : Value K) (.text t) ↔ q s t := by
  constructor
  · intro h
    cases h with
    | numbers hv => cases hv
    | texts hv hw h =>
      cases hv
      cases hw
      exact h
  · exact .texts rfl rfl

/-- Values that are related in any way compare. -/
theorem Related.comparable (h : Related r q v w) : Comparable v w := by
  cases h with
  | numbers hv hw => exact .numbers hv hw trivial
  | texts hv hw => exact .texts hv hw trivial

theorem Comparable.symm (h : Comparable v w) : Comparable w v := by
  cases h with
  | numbers hv hw => exact .numbers hw hv trivial
  | texts hv hw => exact .texts hw hv trivial

/-- Values that compare are in order one way or the other, or are not ordered at all. -/
theorem not_lt_iff (h : Comparable v w) : ¬ Lt v w ↔ Le w v ∨ Unordered v w := by
  unfold Lt Le Unordered
  cases h with
  | numbers hv hw =>
    rw [related_readings hv hw, related_readings hw hv, related_readings hv hw]
    exact Extended.not_lt_iff
  | texts hv hw =>
    subst hv hw
    rw [related_texts, related_texts, related_texts, or_false]
    exact String.not_lt

theorem not_le_iff (h : Comparable v w) : ¬ Le v w ↔ Lt w v ∨ Unordered v w := by
  unfold Lt Le Unordered
  cases h with
  | numbers hv hw =>
    rw [related_readings hv hw, related_readings hw hv, related_readings hv hw]
    exact Extended.not_le_iff
  | texts hv hw =>
    subst hv hw
    rw [related_texts, related_texts, related_texts, or_false]
    exact String.not_le

end Order

/-! ## Tests -/

/-- A test answers a question about values of the right sorts, and is a fault of type about
    others. -/
structure Settles (test : Outcome Bool) (sorts question : Prop) : Prop where
  answer : sorts → ∃ b, test = .ok b ∧ (b = true ↔ question)
  fault : ¬ sorts → test = .error .wrongType

namespace Settles

variable {test test' : Outcome Bool} {sorts question question' : Prop}

theorem eq_true_iff (h : Settles test sorts question) : test = .ok true ↔ sorts ∧ question := by
  by_cases hsorts : sorts
  · obtain ⟨b, rfl, hb⟩ := h.answer hsorts
    rw [Except.ok.injEq, hb, and_iff_right hsorts]
  · rw [h.fault hsorts]
    exact ⟨fun h => (by cases h), fun h => absurd h.1 hsorts⟩

/-- The other answer settles the opposite question. -/
theorem opposite (h : Settles test sorts question) :
    Settles (test.map fun b => !b) sorts (¬ question) where
  answer hsorts := by
    obtain ⟨b, rfl, hb⟩ := h.answer hsorts
    refine ⟨!b, rfl, ?_⟩
    rw [← hb, Bool.not_eq_true', Bool.not_eq_true]
  fault hsorts := by
    rw [h.fault hsorts]
    rfl

theorem of_error (h : Settles test sorts question) {e : Fault} (he : test = .error e) :
    e = .wrongType ∧ ¬ sorts := by
  by_cases hsorts : sorts
  · obtain ⟨b, rfl, -⟩ := h.answer hsorts
    cases he
  · rw [h.fault hsorts] at he
    cases he
    exact ⟨rfl, hsorts⟩

/-- Two tests one after the other settle both questions. -/
theorem both (h : Settles test sorts question) (h' : Settles test' sorts question') :
    Settles (do if ← test then test' else .ok false) sorts (question ∧ question') where
  answer hsorts := by
    obtain ⟨b, rfl, hb⟩ := h.answer hsorts
    obtain ⟨b', rfl, hb'⟩ := h'.answer hsorts
    rw [← hb, ← hb', Outcome.ok_bind]
    cases b with
    | false => exact ⟨false, rfl, by simp⟩
    | true => exact ⟨b', rfl, by simp⟩
  fault hsorts := by
    rw [h.fault hsorts]
    rfl

end Settles

section Tests

variable {v w : Value K}

/-- Values of sorts that do not compare have no order. -/
theorem below?_eq_none (hplain : v.Plain ∨ w.Plain) (h : ¬ Comparable v w) : below? v w = none := by
  -- sort by sort: two numbers or two texts would compare, and of two lists neither is plain
  cases v <;> cases w <;> first
    | rfl
    | exact absurd (.numbers rfl rfl trivial) h
    | exact absurd (.texts rfl rfl trivial) h
    | exact hplain.elim False.elim False.elim

/-- Being below is settled by `less`. -/
theorem settles_less (hplain : v.Plain ∨ w.Plain) :
    Settles (less v w) (Comparable v w) (Lt v w) where
  answer h := by
    unfold less Lt
    cases h with
    | numbers ha hb =>
      rw [(readings_compare ha hb).1, related_readings ha hb]
      exact ⟨_, rfl, decide_eq_true_iff⟩
    | texts hs ht =>
      subst hs ht
      rw [related_texts]
      exact ⟨_, rfl, decide_eq_true_iff⟩
  fault h := by
    unfold less
    rw [below?_eq_none hplain h]

/-- Being at most is settled by `atMost`. -/
theorem settles_atMost (hplain : v.Plain ∨ w.Plain) :
    Settles (atMost v w) (Comparable v w) (Le v w) where
  answer h := by
    obtain ⟨c, hless, hc⟩ := (settles_less hplain).answer h
    refine ⟨c || same v w, by rw [atMost, hless, Outcome.ok_bind], ?_⟩
    rw [Bool.or_eq_true, hc]
    unfold Lt Le
    cases h with
    | numbers ha hb =>
      rw [(readings_compare ha hb).2, related_readings ha hb, related_readings ha hb,
        decide_eq_true_iff]
      exact Extended.le_iff.symm
    | texts hs ht =>
      subst hs ht
      rw [related_texts, related_texts]
      exact (or_congr_right beq_iff_eq).trans Std.le_iff_lt_or_eq.symm
  fault h := by
    unfold atMost
    rw [(settles_less hplain).fault h]
    rfl

end Tests

end Value

end Perturb
