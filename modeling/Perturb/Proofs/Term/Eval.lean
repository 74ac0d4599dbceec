/-
  What the operations on affine terms do to their values.

  Every operation of `Affine` is said through `eval`: the value of a sum is the sum of the values,
  and so on.  The coefficient vectors are opened here and nowhere else; the way in is
  `linearAt_eq_sum`, which reads the linear part as a sum over the variables.
-/
import Perturb.Proofs.Exact
import Perturb.Term.Affine

namespace Perturb

namespace Affine

variable {n : Nat} (t u : Affine Rat n) (v : Vector Rat n)

/-- The linear part at a point, as a sum over the variables. -/
theorem linearAt_eq_sum : t.linearAt v = ∑ i : Fin n, t.coeffs[i] * v[i] := by
  have hzip : List.zipWith (· * ·) t.coeffs.toList v.toList =
      List.ofFn fun i : Fin n => t.coeffs[i] * v[i] := by
    apply List.ext_getElem
    · simp
    · intro i h₁ h₂
      simp
  unfold linearAt
  rw [Scalar.dot_rat, hzip, List.sum_ofFn]

/-- The value at a point, as a sum over the variables and the intercept. -/
theorem eval_eq_sum : t.eval v = (∑ i : Fin n, t.coeffs[i] * v[i]) + t.intercept := by
  unfold eval
  rw [linearAt_eq_sum]

@[simp] theorem eval_const (d : Rat) : (const d : Affine Rat n).eval v = d := by
  rw [eval_eq_sum]
  simp [const]

@[simp] theorem eval_default : (default : Affine Rat n).eval v = 0 := eval_const v 0

/-- A variable takes the value the point has there. -/
theorem eval_var {i : Nat} (hi : i < n) : (var i : Affine Rat n).eval v = v[i] := by
  rw [eval_eq_sum]
  have hcoeff : ∀ j : Fin n, (var i : Affine Rat n).coeffs[j] * v[j] =
      if j = ⟨i, hi⟩ then v[j] else 0 := by
    intro j
    by_cases h : j = ⟨i, hi⟩
    · subst h
      simp [var]
    · have hne : ¬ j.val = i := fun he => h (Fin.ext he)
      simp [var, h, hne]
  rw [Finset.sum_congr rfl fun j _ => hcoeff j]
  simp [var]

@[simp] theorem eval_add : (t.add u).eval v = t.eval v + u.eval v := by
  simp only [eval_eq_sum, add, Fin.getElem_fin, Vector.getElem_zipWith, add_mul,
    Finset.sum_add_distrib]
  ring

@[simp] theorem eval_sub : (t.sub u).eval v = t.eval v - u.eval v := by
  simp only [eval_eq_sum, sub, Fin.getElem_fin, Vector.getElem_zipWith, sub_mul,
    Finset.sum_sub_distrib]
  ring

@[simp] theorem eval_addScalar (d : Rat) : (t.addScalar d).eval v = t.eval v + d := by
  simp only [eval_eq_sum, addScalar]
  ring

@[simp] theorem eval_addMul (d : Rat) : (t.addMul u d).eval v = t.eval v + u.eval v * d := by
  simp only [eval_eq_sum, addMul, Fin.getElem_fin, Vector.getElem_zipWith, add_mul,
    Finset.sum_add_distrib, Finset.sum_mul]
  have hsum : ∑ i : Fin n, d * u.coeffs[i] * v[i] = ∑ i : Fin n, u.coeffs[i] * v[i] * d :=
    Finset.sum_congr rfl fun i _ => by ring
  simp only [Fin.getElem_fin] at hsum
  rw [hsum]
  ring

@[simp] theorem eval_mul (d : Rat) : (t.mul d).eval v = t.eval v * d := by
  simp only [eval_eq_sum, mul, Fin.getElem_fin, Vector.getElem_map, add_mul, Finset.sum_mul]
  congr 1
  exact Finset.sum_congr rfl fun i _ => by ring

end Affine

end Perturb
