/-
  Numbers as decimal text.

  Four formats occur, and each is a rule about WHICH digits stand and a rule about WHERE the point
  stands:

    * `fixed`    a given number of places after the point;
    * `general`  a given number of significant digits, trailing zeros removed, with an exponent
                 when the number is very small or has more digits than asked for;
    * `shortest` the fewest digits that read back as the same binary64 value;
    * `plain`    the digits of an integer.

  The digits always come from the exact value: a finite scalar is a fraction, and one rounding of
  that fraction (half to even) decides them.  Nothing is computed in floating point.
-/
import Perturb.Number.Binary

namespace Perturb.Number

/-! ## Digits -/

/-- The decimal digits of a natural number. -/
def digitsOf (n : Nat) : String := String.ofList (Nat.toDigits 10 n)

/-- The text of an integer. -/
def plain (n : Int) : String :=
  if n < 0 then "-" ++ digitsOf n.natAbs else digitsOf n.natAbs

/-- A count written with at least `width` digits. -/
def padded (width n : Nat) : String :=
  let ds := digitsOf n
  String.ofList (List.replicate (width - ds.length) '0') ++ ds

/-- `num / den` as a multiple of `10 ^ place`, rounded half to even. -/
def inUnits (num den : Nat) (place : Int) : Nat :=
  match place with
  | .ofNat k => roundQuotient num (den * Nat.pow 10 k)
  | .negSucc k => roundQuotient (num * Nat.pow 10 (k + 1)) den

/-- Whether `10 ^ e ≤ num / den`. -/
def reaches (num den : Nat) (e : Int) : Bool :=
  match e with
  | .ofNat k => den * Nat.pow 10 k ≤ num
  | .negSucc k => den ≤ num * Nat.pow 10 (k + 1)

/-- Walks `e` up while the next power of ten is still reached. -/
def climb (num den : Nat) (e : Int) : Nat → Int
  | 0 => e
  | fuel + 1 => if reaches num den (e + 1) then climb num den (e + 1) fuel else e

/-- The exponent `e` with `10 ^ e ≤ num / den < 10 ^ (e + 1)` of a positive fraction.  The start
    lies at most three below it: a number between `2 ^ k` and `2 ^ (k + 1)` has about
    `k · 3 / 10` digits, and the correction term grows by one for every hundred binary places. -/
def decimalExponent (num den : Nat) : Int :=
  let k : Int := (num.log2 : Int) - (den.log2 : Int) - 1
  let start : Int := k * 30103 / 100000 - 1
  climb num den start (4 + (num.log2 + den.log2) / 10000)

/-- The `count` leading digits of a positive fraction and the exponent of the first one. -/
def leading (count num den : Nat) : Nat × Int :=
  let e := decimalExponent num den
  let n := inUnits num den (e - (Int.ofNat count - 1))
  if n = Nat.pow 10 count then (Nat.pow 10 (count - 1), e + 1) else (n, e)

/-- Drops trailing zeros. -/
def dropZeros (ds : List Char) : List Char :=
  (ds.reverse.dropWhile (· == '0')).reverse

/-- The digits with the point after the first one, without a point if only one digit is left. -/
def mantissa (ds : List Char) : String :=
  match ds with
  | [] => "0"
  | [d] => String.ofList [d]
  | d :: rest => String.ofList (d :: '.' :: rest)

/-- An exponent with its sign and at least two digits. -/
def exponent (e : Int) : String :=
  (if e < 0 then "e-" else "e+") ++ padded 2 e.natAbs

/-- The digits `ds`, the first of weight `10 ^ e`, written positionally.  A point is written only
    if digits stand after it. -/
def positional (ds : List Char) (e : Int) : String :=
  match e with
  | .negSucc k => "0." ++ String.ofList (List.replicate k '0' ++ ds)
  | .ofNat k =>
    let whole := ds.take (k + 1) ++ List.replicate (k + 1 - ds.length) '0'
    let rest := ds.drop (k + 1)
    if rest.isEmpty then String.ofList whole
    else String.ofList whole ++ "." ++ String.ofList rest

/-! ## Formats of exact values -/

/-- A fraction with exactly `places` digits after the point.  A value that rounds to zero keeps
    no sign. -/
def fixed (places : Nat) (q : Rat) : String :=
  let n := inUnits q.num.natAbs q.den (-(Int.ofNat places))
  let unit := Nat.pow 10 places
  let whole := digitsOf (n / unit)
  let text := if places = 0 then whole else whole ++ "." ++ padded places (n % unit)
  if q < 0 && n != 0 then "-" ++ text else text

/-- A fraction with at most `count` significant digits: positional while its exponent lies in
    `-4 ≤ e < count`, with an exponent otherwise. -/
def general (count : Nat) (q : Rat) : String :=
  if q = 0 then "0"
  else
    let (n, e) := leading count q.num.natAbs q.den
    let ds := dropZeros (Nat.toDigits 10 n)
    let text :=
      if e < -4 || e ≥ Int.ofNat count then mantissa ds ++ exponent e else positional ds e
    if q < 0 then "-" ++ text else text

/-! ## Formats of binary64 values -/

/-- The text of a value that is not finite. -/
def nonFinite (x : Float) : String :=
  if x < 0 then "-inf" else if 0 < x then "inf" else "nan"

/-- At most `count` significant digits; the sign of a zero is not written. -/
def generalText (count : Nat) (x : Float) : String :=
  match Binary.toRat? x with
  | some q => general count q
  | none => nonFinite x

/-- Exactly `places` digits after the point; the sign of a zero is not written. -/
def fixedText (places : Nat) (x : Float) : String :=
  match Binary.toRat? x with
  | some q => fixed places q
  | none => nonFinite x

/-- The value on the grid of `count` digits nearest to `num / den`, else its other neighbour on
    that grid, if it reads back as `x`; as digits and the exponent of the first one. -/
def readsBack? (x : Float) (num den count : Nat) : Option (Nat × Int) :=
  let e := decimalExponent num den
  let place := e - (Int.ofNat count - 1)
  let near := inUnits num den place
  let below :=
    match place with
    | .ofNat k => num / (den * Nat.pow 10 k)
    | .negSucc k => num * Nat.pow 10 (k + 1) / den
  let other := if near = below then below + 1 else below
  let hit := [near, other].find? fun n => Binary.ofDecimal false n place == x
  hit.map fun n => if n = Nat.pow 10 count then (Nat.pow 10 (count - 1), e + 1) else (n, e)

/-- The digits on the coarsest grid, from `count` digits on, that read back as `x`.  Seventeen
    digits always do. -/
def roundTrip (x : Float) (num den count : Nat) : Nat → Nat × Int
  | 0 => leading count num den
  | fuel + 1 =>
    match readsBack? x num den count with
    | some hit => hit
    | none => roundTrip x num den (count + 1) fuel

/-- The fewest significant digits that read back as `x`, positional while the exponent lies in
    `-4 ≤ e < 16`.  A whole number written positionally ends in `.0`, and a zero keeps its sign. -/
def shortest (x : Float) : String :=
  match Binary.toRat? x with
  | none => nonFinite x
  | some q =>
    if q = 0 then (if Binary.isNegative x then "-0.0" else "0.0")
    else
      let num := q.num.natAbs
      let (n, e) := roundTrip (Binary.ofRat (mkRat (Int.ofNat num) q.den)) num q.den 1 16
      let ds := dropZeros (Nat.toDigits 10 n)
      let text :=
        if e < -4 || e ≥ 16 then mantissa ds ++ exponent e
        else if Int.ofNat ds.length ≤ e + 1 then positional ds e ++ ".0"
        else positional ds e
      if q < 0 then "-" ++ text else text

end Perturb.Number
