/-
  Computing with fractions.

  The definitions of this library are written over an arbitrary `Scalar`; here they are read at
  `Rat`.  The operations of `Scalar.instRat` are those of the ordered field of fractions, so `ring`,
  `linarith` and the lemmas about sums apply as they stand; what has to be said is only what the
  derived notions become: a sum added up from the left is the sum, an inner product is a sum of
  products, and the boolean equality is equality.

  Labelling also needs an exponential and a logarithm, which fractions do not have.  The class
  `Transcendental` leaves the two functions open; whatever is proved over it holds for all of them.
-/
import Mathlib.Algebra.BigOperators.Fin
import Mathlib.Algebra.BigOperators.Ring.Finset
import Mathlib.Algebra.Order.Field.Rat
import Mathlib.Data.Rat.Floor
import Mathlib.Tactic.Linarith
import Mathlib.Tactic.Ring
import Perturb.Scalar

namespace Perturb

/-- Two functions on fractions in the place of the exponential and the logarithm. -/
class Transcendental where
  /-- What stands for the exponential. -/
  exp : Rat → Rat
  /-- What stands for the logarithm. -/
  log : Rat → Rat

/-- Fractions with the two functions. -/
instance Exponential.instRat [Transcendental] : Exponential Rat where
  exp := Transcendental.exp
  log := Transcendental.log

/-- Constants in the place of the two functions; a label does not depend on them. -/
@[reducible] def Transcendental.flat : Transcendental := ⟨fun _ => 1, fun _ => 0⟩

namespace Scalar

/-! ## Derived notions at fractions -/

@[simp] theorem beq_rat (a b : Rat) : (@BEq.beq Rat Scalar.instRat.toBEq a b) = decide (a = b) :=
  rfl

/-- The fraction of an integer is that integer. -/
@[simp] theorem ofInt_rat (n : Int) : (Scalar.ofInt n : Rat) = n := rfl

/-- The fraction of a count is that count. -/
@[simp] theorem ofNat_rat (n : Nat) : (Scalar.ofNat n : Rat) = n := rfl

/-- Added up from the left or from the right, it is the same sum. -/
theorem sum_rat (xs : List Rat) : Scalar.sum xs = xs.sum := by
  show xs.foldl (· + ·) 0 = xs.sum
  rw [List.sum_eq_foldl]

/-- The inner product is the sum of the products. -/
theorem dot_rat (xs ys : List Rat) : Scalar.dot xs ys = (List.zipWith (· * ·) xs ys).sum :=
  sum_rat _

/-- Entries times what stands at their places: two lists multiplied entry by entry. -/
theorem map_zipIdx_mul {a x : List Rat} (h : a.length = x.length) :
    a.zipIdx.map (fun p => p.1 * (x[p.2]?).getD 0) = List.zipWith (· * ·) a x := by
  apply List.ext_getElem
  · simp [h]
  · intro i h₁ h₂
    have hi : i < x.length := by simp at h₂; omega
    simp [List.getElem?_eq_getElem hi]

theorem larger_rat (a b : Rat) : larger a b = max a b := by
  unfold larger
  by_cases hab : a ≤ b
  · rw [if_pos hab, max_eq_right hab]
  · have hba : b ≤ a := le_of_not_ge hab
    rw [if_neg hab, if_pos hba, max_eq_left hba]

theorem smaller_rat (a b : Rat) : smaller a b = min a b := by
  unfold smaller
  by_cases hab : a ≤ b
  · rw [if_pos hab, min_eq_left hab]
  · have hba : b ≤ a := le_of_not_ge hab
    rw [if_neg hab, if_pos hba, min_eq_right hba]

theorem magnitude_rat (a : Rat) : magnitude a = |a| := by
  unfold magnitude
  by_cases ha : a ≤ 0
  · rw [if_pos ha, abs_of_nonpos ha, zero_sub]
  · rw [if_neg ha, abs_of_nonneg (le_of_not_ge ha)]

/-- The largest entry is the least bound of all entries. -/
theorem maximum?_le_iff {xs : List Rat} {d : Rat} (h : maximum? xs = some d) (e : Rat) :
    d ≤ e ↔ ∀ a ∈ xs, a ≤ e := by
  have hfold : ∀ (ys : List Rat) (best : Rat),
      ys.foldl larger best ≤ e ↔ best ≤ e ∧ ∀ a ∈ ys, a ≤ e := by
    intro ys
    induction ys with
    | nil => intro best; simp
    | cons y ys ih =>
      intro best
      rw [List.foldl_cons, ih, larger_rat, max_le_iff, List.forall_mem_cons, and_assoc]
  cases xs with
  | nil => cases h
  | cons x xs =>
    cases h
    rw [hfold, List.forall_mem_cons]

/-- The value rounded, as the integer it is. -/
theorem rounded_rat (a : Rat) : Scalar.rounded a = (Number.roundHalfEven a : Rat) := rfl

end Scalar

end Perturb
