/-
  What the formulas of an attempt say about a point.

  Each builder gives a list of constraints over terms.  Read at a point they say what one expects of
  the values of these terms: that one output leads all others by a margin (`beats_holds_iff`), that
  every input lies within a radius of its origin (`ball_holds_iff`), that one input was raised
  (`raised_holds_iff`).

  What matters later is the strictness: the only strict constraint is that the radius is positive.
  All others are their own weakened form.
-/
import Perturb.Proofs.Constraint.Holds
import Perturb.Proofs.Program.View
import Perturb.Proofs.Outcome
import Perturb.Synthesis.Formula

namespace Perturb.Formula

variable {n : Nat}

/-! ## The lead of one output -/

/-- The entries of a list at all places but one. -/
def rivals {α : Type} (outputs : List α) (label : Int) : List α :=
  (outputs.zipIdx.filter fun (_, i) => Int.ofNat i != label).map (·.1)

theorem mem_rivals_iff {α : Type} {outputs : List α} {k : Nat} {t : α} :
    t ∈ rivals outputs (Int.ofNat k) ↔ ∃ i, i ≠ k ∧ outputs[i]? = some t := by
  unfold rivals
  rw [List.mem_map]
  constructor
  · rintro ⟨⟨t', i⟩, hmem, rfl⟩
    obtain ⟨hmem, hne⟩ := List.mem_filter.1 hmem
    refine ⟨i, fun h => ?_, List.mk_mem_zipIdx_iff_getElem?.1 hmem⟩
    subst h
    simp at hne
  · rintro ⟨i, hne, hi⟩
    refine ⟨(t, i), List.mem_filter.2 ⟨List.mk_mem_zipIdx_iff_getElem?.2 hi, ?_⟩, rfl⟩
    simpa using hne

/-- Lists that correspond do so at all places but one. -/
theorem forall₂_rivals {α β : Type} {R : α → β → Prop} {xs : List α} {ys : List β}
    (h : List.Forall₂ R xs ys) (label : Int) :
    List.Forall₂ R (rivals xs label) (rivals ys label) := by
  -- the induction counts places from any number on
  have aux : ∀ start, List.Forall₂ R
      (((xs.zipIdx start).filter fun (_, i) => Int.ofNat i != label).map (·.1))
      (((ys.zipIdx start).filter fun (_, i) => Int.ofNat i != label).map (·.1)) := by
    induction h with
    | nil => exact fun _ => .nil
    | cons hxy _ ih =>
      intro start
      rw [List.zipIdx_cons, List.zipIdx_cons, List.filter_cons, List.filter_cons]
      dsimp only
      split
      · exact .cons hxy (ih (start + 1))
      · exact ih (start + 1)
  exact aux 0

/-- The constraints of a lead, one for every rival. -/
theorem beats_eq {outputs : List (Affine Rat n)} {k : Nat} {winner : Affine Rat n}
    (hk : outputs[k]? = some winner) (margin : Rat) :
    beats outputs (Int.ofNat k) margin = .ok ((rivals outputs (Int.ofNat k)).map fun rival =>
      .of ((winner.sub rival).addScalar (-margin)) .ge) := by
  unfold beats
  refine Outcome.mapM_ok fun rival _ => ?_
  rw [Program.pick_ofNat, hk]
  rfl

/-- **The lead.**  A point satisfies the constraints exactly if the value of one output is at least
    that of every other plus the margin. -/
theorem beats_holds_iff {outputs : List (Affine Rat n)} {k : Nat} {winner : Affine Rat n}
    (hk : outputs[k]? = some winner) {margin : Rat} {cs : List (Constraint Rat n)}
    (h : beats outputs (Int.ofNat k) margin = .ok cs) (v : Vector Rat n) :
    (∀ c ∈ cs, c.Holds v) ↔
      ∀ i t, i ≠ k → outputs[i]? = some t → t.eval v + margin ≤ winner.eval v := by
  rw [beats_eq hk] at h
  cases h
  have hone : ∀ rival : Affine Rat n,
      (Constraint.of ((winner.sub rival).addScalar (-margin)) .ge).Holds v ↔
        rival.eval v + margin ≤ winner.eval v := by
    intro rival
    rw [Constraint.holds_ge_iff, Affine.eval_addScalar, Affine.eval_sub]
    constructor <;> intro h <;> linarith
  rw [List.forall_mem_map]
  constructor
  · intro h i t hne hi
    exact (hone t).1 (h t (mem_rivals_iff.2 ⟨i, hne, hi⟩))
  · intro h t ht
    obtain ⟨i, hne, hi⟩ := mem_rivals_iff.1 ht
    exact (hone t).2 (h i t hne hi)

/-- The constraints of a lead say that terms are not negative. -/
theorem beats_ge {K : Type} [Scalar K] {outputs : List (Affine K n)} {label : Int} {margin : K}
    {cs : List (Constraint K n)} (h : beats outputs label margin = .ok cs) :
    ∀ c ∈ cs, ∃ t, c = .of t .ge := by
  intro c hc
  obtain ⟨rival, -, hrival⟩ := Outcome.exists_of_mem_mapM h hc
  obtain ⟨winner, -, hwinner⟩ := Outcome.bind_ok_iff.1 hrival
  cases hwinner
  exact ⟨_, rfl⟩

theorem beats_fresh {K : Type} [Scalar K] {outputs : List (Affine K n)} {label : Int} {margin : K}
    {cs : List (Constraint K n)} (h : beats outputs label margin = .ok cs) :
    ∀ c ∈ cs, c.Fresh := by
  intro c hc
  obtain ⟨t, rfl⟩ := beats_ge h c hc
  exact Constraint.fresh_of _ fun _ h => by cases h

/-- No constraint of a lead is strict. -/
theorem beats_weakened {outputs : List (Affine Rat n)} {label : Int} {margin : Rat}
    {cs : List (Constraint Rat n)} (h : beats outputs label margin = .ok cs) :
    ∀ c ∈ cs, c.weakened = c := by
  intro c hc
  obtain ⟨t, rfl⟩ := beats_ge h c hc
  rfl

/-! ## The ball around an origin -/

theorem ball_fresh {K : Type} [Scalar K] (inputs : List (Affine K n)) (origin : List K)
    (eps : Affine K n) (most : K) : ∀ c ∈ ball inputs origin eps most, c.Fresh := by
  intro c hc
  have hrel : c = .of c.term .ge ∨ c = .of c.term .le ∨ c = .of c.term .gt := by
    unfold ball at hc
    rcases List.mem_append.1 hc with hc | hc
    · obtain ⟨⟨x, o⟩, -, hc⟩ := List.mem_flatMap.1 hc
      simp only [List.mem_cons, List.not_mem_nil, or_false] at hc
      rcases hc with rfl | rfl
      · exact Or.inl rfl
      · exact Or.inr (Or.inl rfl)
    · simp only [List.mem_cons, List.not_mem_nil, or_false] at hc
      rcases hc with rfl | rfl
      · exact Or.inr (Or.inr rfl)
      · exact Or.inr (Or.inl rfl)
  rcases hrel with h | h | h <;>
  · rw [h]
    exact Constraint.fresh_of _ fun _ h => by cases h

/-- The part of the ball that is about the inputs; allowing equality changes none of it. -/
theorem near_holds_iff (inputs : List (Affine Rat n)) (origin : List Rat) (eps : Affine Rat n)
    (v : Vector Rat n) :
    (∀ p ∈ List.zip inputs origin, (Constraint.of ((p.1.add eps).addScalar (-p.2)) .ge).Holds v ∧
      (Constraint.of ((p.1.sub eps).addScalar (-p.2)) .le).Holds v) ↔
    ∀ x o, (x, o) ∈ List.zip inputs origin →
      o - eps.eval v ≤ x.eval v ∧ x.eval v ≤ o + eps.eval v := by
  rw [Prod.forall]
  refine forall_congr' fun x => forall_congr' fun o => forall_congr' fun _ => ?_
  rw [Constraint.holds_ge_iff, Constraint.holds_le_iff]
  simp only [Affine.eval_addScalar, Affine.eval_add, Affine.eval_sub]
  constructor
  · rintro ⟨h₁, h₂⟩
    exact ⟨by linarith, by linarith⟩
  · rintro ⟨h₁, h₂⟩
    exact ⟨by linarith, by linarith⟩

/-- **The ball.**  A point satisfies the constraints exactly if every input lies within the radius
    of its origin, and the radius is positive and not too large. -/
theorem ball_holds_iff (inputs : List (Affine Rat n)) (origin : List Rat) (eps : Affine Rat n)
    (most : Rat) (v : Vector Rat n) :
    (∀ c ∈ ball inputs origin eps most, c.Holds v) ↔
      (∀ x o, (x, o) ∈ List.zip inputs origin →
        o - eps.eval v ≤ x.eval v ∧ x.eval v ≤ o + eps.eval v) ∧
      0 < eps.eval v ∧ eps.eval v ≤ most := by
  unfold ball
  rw [List.forall_mem_append, List.forall_mem_flatMap, ← near_holds_iff]
  simp only [List.forall_mem_cons, List.not_mem_nil, false_imp_iff, implies_true, and_true,
    Constraint.holds_gt_iff, Constraint.holds_le_iff (eps.addScalar (-most)), Affine.eval_addScalar]
  exact and_congr Iff.rfl (and_congr Iff.rfl ⟨fun h => by linarith, fun h => by linarith⟩)

/-- With equality allowed the radius may be zero. -/
theorem ball_weakened_iff (inputs : List (Affine Rat n)) (origin : List Rat) (eps : Affine Rat n)
    (most : Rat) (v : Vector Rat n) :
    (∀ c ∈ ball inputs origin eps most, c.weakened.Holds v) ↔
      (∀ x o, (x, o) ∈ List.zip inputs origin →
        o - eps.eval v ≤ x.eval v ∧ x.eval v ≤ o + eps.eval v) ∧
      0 ≤ eps.eval v ∧ eps.eval v ≤ most := by
  unfold ball
  rw [List.forall_mem_append, List.forall_mem_flatMap, ← near_holds_iff]
  simp only [List.forall_mem_cons, List.not_mem_nil, false_imp_iff, implies_true, and_true,
    Constraint.weakened_of, Relation.weakened, Constraint.holds_ge_iff eps,
    Constraint.holds_le_iff (eps.addScalar (-most)), Affine.eval_addScalar]
  exact and_congr Iff.rfl (and_congr Iff.rfl ⟨fun h => by linarith, fun h => by linarith⟩)

/-! ## The raised input -/

/-- **The raised input.**  One input was drawn, and a point satisfies the constraint exactly if that
    input lies at least a step above its origin. -/
theorem raised_ok {K S : Type} [Scalar K] [Source S K] {inputs : List (Affine K n)}
    {origin : List K} {draws draws' : S} {step : K} {cs : List (Constraint K n)}
    (h : raised inputs origin draws step = .ok (cs, draws')) :
    ∃ i x o, Source.below draws inputs.length = .ok (i, draws') ∧ inputs[i]? = some x ∧
      origin[i]? = some o ∧ cs = [.of (x.addScalar (-(o + step))) .ge] := by
  unfold raised at h
  obtain ⟨⟨i, draws₁⟩, hbelow, h⟩ := Outcome.bind_ok_iff.1 h
  obtain ⟨x, hx, h⟩ := Outcome.bind_ok_iff.1 h
  obtain ⟨o, ho, h⟩ := Outcome.bind_ok_iff.1 h
  cases h
  rw [Program.pick_ofNat] at hx ho
  cases hxi : inputs[i]? with
  | none => rw [hxi] at hx; cases hx
  | some x' =>
    cases hoi : origin[i]? with
    | none => rw [hoi] at ho; cases ho
    | some o' =>
      rw [hxi] at hx
      rw [hoi] at ho
      cases hx
      cases ho
      exact ⟨i, x, o, hbelow, hxi, hoi, rfl⟩

theorem raised_holds_iff (x : Affine Rat n) (o step : Rat) (v : Vector Rat n) :
    (Constraint.of (x.addScalar (-(o + step))) .ge).Holds v ↔ o + step ≤ x.eval v := by
  rw [Constraint.holds_ge_iff, Affine.eval_addScalar]
  constructor <;> intro h <;> linarith

end Perturb.Formula
