/-
  The numbers a network computes with.

  Everything in this library that computes (layers, affine terms, constraints, linear programs,
  labelling) is written once over an arbitrary `Scalar` type and used at two of them:

    * `Float`, IEEE binary64, at which the program runs;
    * `Rat`, exact fractions, at which the same definitions are reasoned about.

  A `Scalar` has the four operations, a decidable order and a boolean equality.  The order is not
  assumed total: at `Float` the value "not a number" compares with nothing, itself included, and
  every definition below says on its own what it does with such a value.  The bridge between the
  two instances is the pair `toRat?`/`ofRat`: each finite scalar is exactly one fraction, and each
  fraction has a nearest scalar.
-/
import Perturb.Number.Decimal

namespace Perturb

/-- Numbers with arithmetic, a decidable (possibly partial) order, and an exact reading. -/
class Scalar (K : Type) extends
    Zero K, One K, Add K, Sub K, Mul K, Neg K, Div K, LE K, LT K, BEq K where
  /-- Whether `a ≤ b` is decidable. -/
  decideLe : (a b : K) → Decidable (a ≤ b)
  /-- Whether `a < b` is decidable. -/
  decideLt : (a b : K) → Decidable (a < b)
  /-- The exact value of a finite scalar; `none` for infinities and "not a number". -/
  toRat? : K → Option Rat
  /-- The scalar nearest to a fraction. -/
  ofRat : Rat → K
  /-- The value as it is written in messages and tables. -/
  text : K → String

instance Scalar.instDecidableLe {K : Type} [Scalar K] (a b : K) : Decidable (a ≤ b) :=
  Scalar.decideLe a b

instance Scalar.instDecidableLt {K : Type} [Scalar K] (a b : K) : Decidable (a < b) :=
  Scalar.decideLt a b

instance Scalar.instInhabited {K : Type} [Scalar K] : Inhabited K := ⟨0⟩

/-- Floating-point numbers: comparisons are false on "not a number", and a fraction becomes the
    nearest binary64 value, a tie going to the even significand. -/
instance Scalar.instFloat : Scalar Float where
  zero := 0.0
  one := 1.0
  decideLe a b := inferInstanceAs (Decidable (a ≤ b))
  decideLt a b := inferInstanceAs (Decidable (a < b))
  toRat? := Binary.toRat?
  ofRat := Binary.ofRat
  text := Number.shortest

/-- Exact fractions. -/
instance Scalar.instRat : Scalar Rat where
  zero := Rat.ofInt 0
  one := Rat.ofInt 1
  add := Rat.add
  sub := Rat.sub
  mul := Rat.mul
  neg := Rat.neg
  div := Rat.div
  toLE := Rat.instLE
  toLT := Rat.instLT
  beq a b := decide (a = b)
  decideLe a b := inferInstanceAs (Decidable (a ≤ b))
  decideLt a b := inferInstanceAs (Decidable (a < b))
  toRat? q := some q
  ofRat q := q
  text q :=
    if q.den = 1 then Number.plain q.num
    else Number.plain q.num ++ "/" ++ Number.digitsOf q.den

namespace Scalar

variable {K : Type} [Scalar K]

/-- The scalar nearest to an integer. -/
def ofInt (n : Int) : K := ofRat (Rat.ofInt n)

/-- The scalar nearest to a count. -/
def ofNat (n : Nat) : K := ofInt (Int.ofNat n)

/-- The larger of two values.  Two values that do not compare have no larger one; their sum,
    which is then not a number, stands for it. -/
def larger (a b : K) : K :=
  if a ≤ b then b else if b ≤ a then a else a + b

/-- The smaller of two values, with the same rule for values that do not compare. -/
def smaller (a b : K) : K :=
  if a ≤ b then a else if b ≤ a then b else a + b

/-- The absolute value; a zero of either sign gives the positive zero. -/
def magnitude (a : K) : K := if a ≤ 0 then 0 - a else a

/-- The sum of a list, added up from the left starting at zero. -/
def sum (xs : List K) : K := xs.foldl (· + ·) 0

/-- The inner product of two lists, added up from the left. -/
def dot (xs ys : List K) : K := sum (List.zipWith (· * ·) xs ys)

/-- The largest entry of a list, if there is one. -/
def maximum? : List K → Option K
  | [] => none
  | x :: xs => some (xs.foldl larger x)

/-- The integer part below a finite value. -/
def floor? (a : K) : Option Int := (toRat? a).map Rat.floor

/-- The integer part above a finite value. -/
def ceil? (a : K) : Option Int := (toRat? a).map Rat.ceil

/-- The nearest integer to a finite value, a half going to the even neighbour. -/
def nearest? (a : K) : Option Int := (toRat? a).map Number.roundHalfEven

/-- The value rounded to an integer, a half going to the even neighbour; values that are not
    finite stay as they are. -/
def rounded (a : K) : K :=
  match nearest? a with
  | some n => ofInt n
  | none => a

/-- The integer part towards zero of a finite value. -/
def truncated? (a : K) : Option Int :=
  (toRat? a).map fun q => if q < 0 then q.ceil else q.floor

/-- A value that does not equal itself is not a number. -/
def isNaN (a : K) : Bool := !(a == a)

end Scalar

/-- Scalars with the exponential used by the softmax and the logarithm used by the loss. -/
class Exponential (K : Type) extends Scalar K where
  /-- The exponential function. -/
  exp : K → K
  /-- The natural logarithm. -/
  log : K → K

instance Exponential.instFloat : Exponential Float where
  exp := Float.exp
  log := Float.log

end Perturb
