/-
  When a point satisfies a constraint.

  `Constraint.holdsAt` compares the linear part of a term with its negated intercept and may refuse
  an unknown relation.  `Holds` is the proposition behind it, and over fractions it is the
  comparison of the term's value with zero (`holds_ge_iff` and its companions).

  A program knows no strict rows; `weakened` is the constraint it sees in place of a strict one.
-/
import Perturb.Proofs.Term.Eval
import Perturb.Constraint.Basic

namespace Perturb

/-- The relation with equality allowed. -/
def Relation.weakened : Relation → Relation
  | .lt => .le
  | .gt => .ge
  | r => r

namespace Constraint

/-! ## Constraints as they are first made -/

section

variable {K : Type} {n : Nat}

/-- A constraint as it is first made: no program holds it, and its relation is a known one. -/
def Fresh (c : Constraint K n) : Prop := c.added = false ∧ ∀ name, c.relation ≠ .other name

theorem fresh_of [Scalar K] (t : Affine K n) {r : Relation} (h : ∀ name, r ≠ .other name) :
    (of t r).Fresh := ⟨rfl, h⟩

end

/-! ## Satisfaction at fractions -/

variable {n : Nat}

/-- A point satisfies a constraint. -/
def Holds (c : Constraint Rat n) (v : Vector Rat n) : Prop := c.holdsAt v = .ok true

/-- The constraint with equality allowed. -/
def weakened (c : Constraint Rat n) : Constraint Rat n :=
  { c with relation := c.relation.weakened }

variable (t : Affine Rat n) (v : Vector Rat n)

/-- Comparing the linear part with the negated intercept is comparing the value with zero. -/
theorem linearAt_add_intercept : t.linearAt v = t.eval v - t.intercept := by
  unfold Affine.eval
  ring

/-- Asking whether a point satisfies a constraint is comparing the value there with zero. -/
theorem holdsAt_of (r : Relation) : (of t r).holdsAt v = r.compare (t.eval v) 0 := by
  show r.compare (t.linearAt v) (-t.intercept) = _
  rw [linearAt_add_intercept]
  cases r with
  | other name => rfl
  | _ =>
    refine congrArg Except.ok (decide_eq_decide.2 ?_)
    constructor <;> intro h <;> linarith

theorem holds_ge_iff : (of t .ge).Holds v ↔ 0 ≤ t.eval v := by
  unfold Holds
  rw [holdsAt_of]
  simp [Relation.compare]

theorem holds_gt_iff : (of t .gt).Holds v ↔ 0 < t.eval v := by
  unfold Holds
  rw [holdsAt_of]
  simp [Relation.compare]

theorem holds_le_iff : (of t .le).Holds v ↔ t.eval v ≤ 0 := by
  unfold Holds
  rw [holdsAt_of]
  simp [Relation.compare]

theorem holds_lt_iff : (of t .lt).Holds v ↔ t.eval v < 0 := by
  unfold Holds
  rw [holdsAt_of]
  simp [Relation.compare]

@[simp] theorem weakened_of (r : Relation) : (of t r).weakened = of t r.weakened := rfl

/-- Allowing equality asks for less. -/
theorem Holds.weakened {c : Constraint Rat n} {v : Vector Rat n} (h : c.Holds v) :
    c.weakened.Holds v := by
  obtain ⟨t, r, added⟩ := c
  cases r with
  | gt =>
    have hgt : 0 < t.eval v := (holds_gt_iff t v).1 h
    exact (holds_ge_iff t v).2 hgt.le
  | lt =>
    have hlt : t.eval v < 0 := (holds_lt_iff t v).1 h
    exact (holds_le_iff t v).2 hlt.le
  | _ => exact h

end Constraint

end Perturb
