/-
  Affine terms over a fixed list of variables.

  `Affine K n` is a function `c · x + k` of `n` variables, kept as its coefficient vector and its
  intercept.  All operations work on every coefficient, zero ones included, so that at floating
  point an infinite factor turns a zero coefficient into "not a number" just as it would in a
  vector operation; `eval` is what the operations are about.

  `Accumulator` is the interface through which a layer adds up its outputs.  A rule written
  against it can be run with plain scalars, giving the value at a point, or with affine terms,
  giving the value at every point at once.
-/
import Perturb.Scalar

namespace Perturb

/-- The affine function with the given coefficients and intercept. -/
structure Affine (K : Type) (n : Nat) where
  coeffs : Vector K n
  intercept : K

namespace Affine

variable {K : Type} [Scalar K] {n : Nat}

instance instInhabited : Inhabited (Affine K n) := ⟨⟨Vector.replicate n 0, 0⟩⟩

/-- The constant function. -/
def const (d : K) : Affine K n := ⟨Vector.replicate n 0, d⟩

/-- The `i`-th variable. -/
def var (i : Nat) : Affine K n := ⟨Vector.ofFn fun j => if j.val = i then 1 else 0, 0⟩

/-- The sum of two terms. -/
def add (t u : Affine K n) : Affine K n :=
  ⟨Vector.zipWith (· + ·) t.coeffs u.coeffs, t.intercept + u.intercept⟩

/-- The difference of two terms. -/
def sub (t u : Affine K n) : Affine K n :=
  ⟨Vector.zipWith (· - ·) t.coeffs u.coeffs, t.intercept - u.intercept⟩

/-- A term with a constant added. -/
def addScalar (t : Affine K n) (d : K) : Affine K n := ⟨t.coeffs, t.intercept + d⟩

/-- `t + d · u`. -/
def addMul (t u : Affine K n) (d : K) : Affine K n :=
  ⟨Vector.zipWith (fun a b => a + d * b) t.coeffs u.coeffs, t.intercept + d * u.intercept⟩

/-- A term times a number. -/
def mul (t : Affine K n) (d : K) : Affine K n := ⟨t.coeffs.map (· * d), t.intercept * d⟩

/-- The negated term. -/
def neg (t : Affine K n) : Affine K n := t.mul (-1)

/-- The linear part at a point. -/
def linearAt (t : Affine K n) (x : Vector K n) : K := Scalar.dot t.coeffs.toList x.toList

/-- The value at a point. -/
def eval (t : Affine K n) (x : Vector K n) : K := t.linearAt x + t.intercept

/-- The variables with a coefficient other than zero, with these coefficients. -/
def support (t : Affine K n) : List (Nat × K) :=
  (t.coeffs.toList.zipIdx.filter fun (a, _) => !(a == 0)).map fun (a, i) => (i, a)

/-- Whether no variable occurs. -/
def isConstant (t : Affine K n) : Bool := t.support.isEmpty

end Affine

/-- Quantities that can be added up: the start value, and the four updates of a running total. -/
class Accumulator (K : outParam Type) (A : Type) where
  /-- A running total that starts at a number. -/
  const : K → A
  /-- Adds another quantity. -/
  add : A → A → A
  /-- Adds a number. -/
  addScalar : A → K → A
  /-- Adds a multiple of another quantity. -/
  addMul : A → A → K → A
  /-- Multiplies the total by a number. -/
  mul : A → K → A

/-- Plain numbers add up as themselves. -/
instance Accumulator.instScalar {K : Type} [Scalar K] : Accumulator K K where
  const d := d
  add t u := t + u
  addScalar t d := t + d
  addMul t u d := t + u * d
  mul t d := t * d

/-- Affine terms add up coefficient by coefficient. -/
instance Accumulator.instAffine {K : Type} [Scalar K] {n : Nat} : Accumulator K (Affine K n) where
  const := Affine.const
  add := Affine.add
  addScalar := Affine.addScalar
  addMul := Affine.addMul
  mul := Affine.mul

end Perturb
