/-
  Binary64 values as exact fractions.

  A finite binary64 value is `m · 2 ^ e` with `m < 2 ^ 53` and `-1074 ≤ e ≤ 971`.  `toRat?` reads
  that fraction off the bit pattern; `ofRat` goes the other way and rounds to the nearest value.

  Both directions use one fact about the bit layout: for the sign-free pattern of `m · 2 ^ e` with
  either `2 ^ 52 ≤ m`, or `e = -1074`, the number `(e + 1074) · 2 ^ 52 + m` IS the bit pattern, and
  a carry of the rounded `m` to `2 ^ 53` runs into the exponent field by itself.
-/
import Perturb.Number.Rounding

namespace Perturb.Binary

/-- Significand and exponent of the magnitude of a finite value: `|x| = m · 2 ^ e`. -/
def decode? (x : Float) : Option (Nat × Int) :=
  let bits := x.toBits.toNat
  let expField : Nat := bits / Nat.pow 2 52 % Nat.pow 2 11
  let fraction : Nat := bits % Nat.pow 2 52
  if expField = 2047 then none
  else if expField = 0 then some (fraction, -1074)
  else some (fraction + Nat.pow 2 52, (expField : Int) - 1075)

/-- Whether the sign bit is set. -/
def isNegative (x : Float) : Bool := Nat.pow 2 63 ≤ x.toBits.toNat

/-- `m · 2 ^ e` as a fraction. -/
def scaled (m : Nat) (e : Int) : Rat :=
  match e with
  | .ofNat k => Rat.ofInt (Int.ofNat (m * Nat.pow 2 k))
  | .negSucc k => mkRat (Int.ofNat m) (Nat.pow 2 (k + 1))

/-- The exact value of a finite binary64 number. -/
def toRat? (x : Float) : Option Rat :=
  (decode? x).map fun (m, e) =>
    if isNegative x then -(scaled m e) else scaled m e

/-- The exponent at which `num / den` is written with a 53-bit significand, never below the one
    of the smallest positive value. -/
def exponentFor (num den : Nat) : Int :=
  let guess : Int := (num.log2 : Int) - (den.log2 : Int) - 52
  -- the quotient lies between `2 ^ (guess + 51)` and `2 ^ (guess + 53)`
  let fits : Bool :=
    if guess < 0 then num * Nat.pow 2 guess.natAbs ≥ Nat.pow 2 52 * den
    else num ≥ Nat.pow 2 52 * den * Nat.pow 2 guess.natAbs
  let e := if fits then guess else guess - 1
  if e < -1074 then -1074 else e

/-- The bit pattern of the value nearest to the positive fraction `num / den`. -/
def nearestBits (num den : Nat) : Nat :=
  let e := exponentFor num den
  let m :=
    if e < 0 then Number.roundQuotient (num * Nat.pow 2 e.natAbs) den
    else Number.roundQuotient num (den * Nat.pow 2 e.natAbs)
  min ((e + 1074).toNat * Nat.pow 2 52 + m) (2047 * Nat.pow 2 52)

/-- The binary64 value nearest to a fraction; too large ones become an infinity. -/
def ofRat (q : Rat) : Float :=
  if q = 0 then 0.0
  else
    let bits := nearestBits q.num.natAbs q.den
    Float.ofBits (UInt64.ofNat (if q < 0 then bits + Nat.pow 2 63 else bits))

/-- The positive infinity. -/
def infinity : Float := 1.0 / 0.0

/-- The value that is not a number. -/
def notANumber : Float := 0.0 / 0.0

/-- The value nearest to `m · 10 ^ e`.  Exponents far outside the range of binary64 are answered
    without forming the power. -/
def ofDecimal (negative : Bool) (m : Nat) (e : Int) : Float :=
  let atLeast : Int := (m.log2 : Int) * 3 / 10 + e
  let atMost : Int := (m.log2 : Int) / 3 + 1 + e
  let x : Float :=
    if m = 0 then 0.0
    else if atLeast > 400 then infinity
    else if atMost < -400 then 0.0
    else match e with
      | .ofNat k => ofRat (Rat.ofInt (Int.ofNat (m * Nat.pow 10 k)))
      | .negSucc k => ofRat (mkRat (Int.ofNat m) (Nat.pow 10 (k + 1)))
  if negative then -x else x

end Perturb.Binary
