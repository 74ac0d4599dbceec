/-
  What a program says, apart from how it was written down.

  A program keeps its bounds apart from the rows they refer to.  `boundRows` puts the two together,
  and over these rows a point is feasible if it has a value within the limits of every variable and
  meets every row (`feasible_iff`).

  `Constraint.row?` is the row a constraint becomes.  THE LOAD-BEARING STEP is `met_iff_holds`: a
  point meets that row exactly if it satisfies the constraint with equality allowed.  The row lists
  only the coefficients other than zero; its value is still that of the whole linear part.
-/
import Perturb.Proofs.Constraint.Holds
import Perturb.Program.Session

namespace Perturb

/-! ## Bound rows -/

/-- A bound together with the coefficients of its row. -/
structure BoundRow (K : Type) where
  coeffs : List (Int × K)
  sense : Sense
  rhs : K
  deriving DecidableEq

namespace BoundRow

/-- A point compares with the right-hand side as the row asks. -/
def Met (r : BoundRow Rat) (x : List Rat) : Prop :=
  Program.meets r.sense (Program.rowValue ⟨"", r.coeffs⟩ x) r.rhs

instance decidableMet (x : List Rat) : (r : BoundRow Rat) → Decidable (r.Met x)
  | ⟨coeffs, .le, rhs⟩ => inferInstanceAs (Decidable (Program.rowValue ⟨"", coeffs⟩ x ≤ rhs))
  | ⟨coeffs, .ge, rhs⟩ => inferInstanceAs (Decidable (rhs ≤ Program.rowValue ⟨"", coeffs⟩ x))
  | ⟨coeffs, .eq, rhs⟩ => inferInstanceAs (Decidable (Program.rowValue ⟨"", coeffs⟩ x = rhs))

end BoundRow

namespace Program

/-- The bounds of a program with the coefficients of their rows. -/
def boundRows {K : Type} (p : Program K) : List (BoundRow K) :=
  p.bounds.map fun b => ⟨(p.rowAt b.row).coeffs, b.sense, b.rhs⟩

/-- A point has a value within the limits of every variable. -/
def InLimits (vars : List (Variable Rat)) (x : List Rat) : Prop :=
  x.length = vars.length ∧ ∀ (i : Nat) (v : Variable Rat) (a : Rat),
    vars[i]? = some v → x[i]? = some a → withinLimits v a

theorem feasible_iff {p : Program Rat} {x : List Rat} :
    p.feasible x ↔ InLimits p.vars x ∧ ∀ r ∈ p.boundRows, r.Met x := by
  unfold feasible InLimits boundRows
  rw [List.forall_mem_map, and_assoc]
  exact Iff.rfl

/-- A program that respects the variables of another one and has no row beyond its rows admits
    what the other one admits. -/
theorem feasible_of_rows_subset {p q : Program Rat} (hvars : p.vars = q.vars)
    (hrows : p.boundRows ⊆ q.boundRows) {x : List Rat} (hx : q.feasible x) : p.feasible x := by
  rw [feasible_iff] at hx ⊢
  exact ⟨hvars ▸ hx.1, fun r hr => hx.2 r (hrows hr)⟩

/-- A point that is feasible, and none that is feasible has a better objective; without an objective
    every feasible point is one. -/
def Optimal (p : Program Rat) (x : List Rat) : Prop :=
  p.feasible x ∧ ∀ row goal, p.objective = some (row, goal) → ∀ y, p.feasible y →
    if goal.minimises then rowValue (p.rowAt row) x ≤ rowValue (p.rowAt row) y
    else rowValue (p.rowAt row) y ≤ rowValue (p.rowAt row) x

/-! ## Rows -/

/-- A position that is not negative counts from the front. -/
theorem pick_ofNat {α : Type} (xs : List α) (i : Nat) :
    pick xs (Int.ofNat i) = match xs[i]? with
      | some x => .ok x
      | none => .error .position := by
  unfold pick position?
  by_cases h : i < xs.length <;> simp [h]

/-- What is picked from a list is in it. -/
theorem mem_of_pick {α : Type} {xs : List α} {i : Int} {x : α} (h : pick xs i = .ok x) :
    x ∈ xs := by
  unfold pick at h
  cases hget : (position? xs.length i).bind fun k => xs[k]? with
  | none =>
    rw [hget] at h
    cases h
  | some y =>
    rw [hget] at h
    cases h
    obtain ⟨k, -, hk⟩ := Option.bind_eq_some_iff.1 hget
    exact List.mem_of_getElem? hk

theorem rowAt_ofNat {K : Type} {p : Program K} {i : Nat} {r : Row K} (h : p.rows[i]? = some r) :
    p.rowAt (Int.ofNat i) = r := by
  unfold rowAt row
  rw [pick_ofNat, h]
  rfl

theorem pick_ofNat_getD (x : List Rat) (i : Nat) :
    (pick x (Int.ofNat i)).toOption.getD 0 = (x[i]?).getD 0 := by
  rw [pick_ofNat]
  cases x[i]? <;> rfl

/-- The program with some variables and some bound rows, and nothing else. -/
def ofRows (vars : List (Variable Rat)) (rows : List (BoundRow Rat)) : Program Rat where
  name := "synth"
  vars := vars
  rows := rows.map fun r => ⟨"", r.coeffs⟩
  bounds := rows.zipIdx.map fun (r, i) => ⟨Int.ofNat i, r.sense, r.rhs⟩
  objective := none

theorem boundRows_ofRows (vars : List (Variable Rat)) (rows : List (BoundRow Rat)) :
    (ofRows vars rows).boundRows = rows := by
  have hone : ∀ e ∈ rows.zipIdx, BoundRow.mk ((ofRows vars rows).rowAt (Int.ofNat e.2)).coeffs
      e.1.sense e.1.rhs = e.1 := by
    rintro ⟨r, i⟩ hmem
    have hrow : (ofRows vars rows).rows[i]? = some ⟨"", r.coeffs⟩ := by
      show (rows.map _)[i]? = _
      rw [List.getElem?_map, List.mk_mem_zipIdx_iff_getElem?.1 hmem]
      rfl
    rw [rowAt_ofNat hrow]
  unfold boundRows
  show (rows.zipIdx.map _).map _ = rows
  rw [List.map_map]
  exact (List.map_congr_left hone).trans (List.zipIdx_map_fst 0 rows)

/-- Terms that vanish may be left out of a sum. -/
theorem sum_map_filter {α : Type} (p : α → Bool) (f : α → Rat) (xs : List α)
    (h : ∀ a ∈ xs, p a = false → f a = 0) : ((xs.filter p).map f).sum = (xs.map f).sum := by
  induction xs with
  | nil => rfl
  | cons a xs ih =>
    have hrest := ih fun b hb => h b (List.mem_cons_of_mem a hb)
    cases ha : p a with
    | true => rw [List.filter_cons_of_pos ha, List.map_cons, List.map_cons, List.sum_cons,
        List.sum_cons, hrest]
    | false =>
      rw [List.filter_cons_of_neg (by simp [ha]), List.map_cons, List.sum_cons, hrest,
        h a (List.mem_cons_self ..) ha, zero_add]

end Program

namespace Affine

variable {n : Nat}

/-- The coefficients of a term, over any numbers, as a row lists them. -/
def rowEntries {K : Type} [Scalar K] (t : Affine K n) : List (Int × K) :=
  t.support.map fun (i, a) => (Int.ofNat i, a)

/-- **Sparse and dense.**  The row that lists only the coefficients other than zero has the value of
    the whole linear part. -/
theorem rowValue_rowEntries (name : String) (t : Affine Rat n) (v : Vector Rat n) :
    Program.rowValue ⟨name, t.rowEntries⟩ v.toList = t.linearAt v := by
  have hvalue : Program.rowValue ⟨name, t.rowEntries⟩ v.toList =
      ((t.coeffs.toList.zipIdx.filter fun (a, _) => !(a == 0)).map
        fun (a, i) => a * (v.toList[i]?).getD 0).sum := by
    unfold Program.rowValue rowEntries support
    rw [Scalar.sum_rat, List.map_map, List.map_map]
    refine congrArg List.sum (List.map_congr_left fun e _ => ?_)
    obtain ⟨a, i⟩ := e
    exact congrArg (a * ·) (Program.pick_ofNat_getD v.toList i)
  rw [hvalue, Program.sum_map_filter, Scalar.map_zipIdx_mul (by simp)]
  · exact (Scalar.dot_rat _ _).symm
  · rintro ⟨a, i⟩ - ha
    have ha : a = 0 := by simpa using ha
    show a * _ = 0
    rw [ha, zero_mul]

end Affine

/-! ## Constraints as rows -/

namespace Constraint

variable {n : Nat}

/-- A constraint as it is first made can be exported. -/
theorem Fresh.sense {K : Type} {c : Constraint K n} (h : c.Fresh) :
    ∃ sense, Session.sense? c.relation = some sense := by
  cases hr : c.relation with
  | other name => exact absurd hr (h.2 name)
  | _ => exact ⟨_, rfl⟩

/-- The row a constraint becomes, if its relation is known. -/
def row? (c : Constraint Rat n) : Option (BoundRow Rat) :=
  (Session.sense? c.relation).map fun sense => ⟨c.term.rowEntries, sense, -c.term.intercept⟩

/-- A constraint with a known relation has a row. -/
theorem Fresh.row {c : Constraint Rat n} (h : c.Fresh) : ∃ b, c.row? = some b := by
  obtain ⟨sense, hsense⟩ := h.sense
  unfold row?
  rw [hsense]
  exact ⟨_, rfl⟩

/-- **Rows.**  A point meets the row of a constraint exactly if it satisfies the constraint with
    equality allowed. -/
theorem met_iff_holds {c : Constraint Rat n} {r : BoundRow Rat} (h : c.row? = some r)
    (v : Vector Rat n) : r.Met v.toList ↔ c.weakened.Holds v := by
  obtain ⟨t, rel, added⟩ := c
  unfold row? at h
  unfold Holds holdsAt BoundRow.Met
  cases rel with
  | other name => cases h
  | _ =>
    cases h
    simp only [Affine.rowValue_rowEntries, Program.meets, weakened, Relation.weakened,
      Relation.compare, Except.ok.injEq]
    exact decide_eq_true_iff.symm

end Constraint

end Perturb
