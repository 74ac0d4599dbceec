/-
  Numbers as they are typed.

  A literal is a sign, digits, a point with more digits, and an exponent, each of which may be
  missing.  Taking a text apart into these pieces is one function; what may be missing is up to the
  language the text belongs to, so every reader states its own rule over the pieces.
-/
import Perturb.Number.Binary
import Perturb.Number.Digits

namespace Perturb.Number

/-- The value of a digit in bases up to sixteen. -/
def digitValue? (base : Nat) (c : Char) : Option Nat :=
  let n := c.toNat
  let v? :=
    if '0' ≤ c && c ≤ '9' then some (n - 48)
    else if 'a' ≤ c && c ≤ 'f' then some (n - 87)
    else if 'A' ≤ c && c ≤ 'F' then some (n - 55)
    else none
  v?.filter (· < base)

/-- The number that digits write in a base; there must be at least one. -/
def natural? (base : Nat) (ds : List Char) : Option Nat :=
  if ds.isEmpty then none
  else ds.foldlM (fun n c => (digitValue? base c).map fun v => n * base + v) 0

/-- The pieces of a literal: sign, digits before the point, digits after it if there is one, and
    the sign and digits of the exponent if there is one. -/
structure Literal where
  sign : Option Char
  whole : List Char
  fraction : Option (List Char)
  exponent : Option (Option Char × List Char)
  deriving Repr, DecidableEq

namespace Literal

/-- A sign in front of a text, and the rest. -/
def splitSign : List Char → Option Char × List Char
  | '+' :: rest => (some '+', rest)
  | '-' :: rest => (some '-', rest)
  | cs => (none, cs)

/-- The fraction in front of a text, and the rest. -/
def splitFraction (digit : Char → Bool) : List Char → Option (List Char) × List Char
  | '.' :: rest => (some (rest.takeWhile digit), rest.dropWhile digit)
  | cs => (none, cs)

/-- The exponent in front of a text, and the rest. -/
def splitExponent : List Char → Option (Option Char × List Char) × List Char
  | c :: rest =>
    if c = 'e' || c = 'E' then
      let (sign, rest) := splitSign rest
      (some (sign, rest.takeWhile isDigit), rest.dropWhile isDigit)
    else (none, c :: rest)
  | [] => (none, [])

/-- The pieces of a text, if it consists of nothing else.  `digit` says which characters may stand
    among the digits before and after the point. -/
def split? (digit : Char → Bool) (cs : List Char) : Option Literal :=
  let (sign, cs) := splitSign cs
  let whole := cs.takeWhile digit
  let (fraction, cs) := splitFraction digit (cs.dropWhile digit)
  let (exponent, cs) := splitExponent cs
  if cs.isEmpty then some ⟨sign, whole, fraction, exponent⟩ else none

/-- Whether the literal has a negative sign. -/
def negative (l : Literal) : Bool := l.sign == some '-'

/-- The digits of the literal without marks between them. -/
def digits (l : Literal) : List Char := (l.whole ++ l.fraction.getD []).filter isDigit

/-- The power of ten that the last digit counts. -/
def scale (l : Literal) : Int :=
  let e := match l.exponent with
    | some (sign, ds) =>
      let n := Int.ofNat ((natural? 10 ds).getD 0)
      if sign == some '-' then -n else n
    | none => 0
  e - Int.ofNat ((l.fraction.getD []).filter isDigit).length

/-- The nearest binary64 value. -/
def value (l : Literal) : Float :=
  Binary.ofDecimal l.negative ((natural? 10 l.digits).getD 0) l.scale

/-- The integer of a literal that has neither point nor exponent. -/
def integer (l : Literal) : Int :=
  let n := Int.ofNat ((natural? 10 l.digits).getD 0)
  if l.negative then -n else n

/-- Whether the literal is written without point and exponent. -/
def isWhole (l : Literal) : Bool := l.fraction.isNone && l.exponent.isNone

/-- Whether an exponent, if there is one, has digits. -/
def exponentFilled (l : Literal) : Bool :=
  match l.exponent with
  | some (_, ds) => !ds.isEmpty
  | none => true

end Literal

/-! ## Numbers typed by hand

Around a number blanks are skipped, between two digits a single underscore may stand, and the digits
may be those of any script. -/

/-- Whether a character counts as blank. -/
def isBlank (c : Char) : Bool :=
  let n := c.toNat
  (9 ≤ n && n ≤ 13) || (28 ≤ n && n ≤ 32) || n == 0x85 || n == 0xa0 || n == 0x1680 ||
    (0x2000 ≤ n && n ≤ 0x200a) || n == 0x2028 || n == 0x2029 || n == 0x202f || n == 0x205f ||
    n == 0x3000

/-- A text without blanks at its ends. -/
def stripped (cs : List Char) : List Char :=
  ((cs.dropWhile isBlank).reverse.dropWhile isBlank).reverse

/-- A text without its underscores, each of which must stand between two digits; `before` is the
    character in front. -/
def unmarked? (before : Char) : List Char → Option (List Char)
  | [] => some []
  | '_' :: rest =>
    match rest with
    | c :: _ => if isDigit before && isDigit c then unmarked? '_' rest else none
    | [] => none
  | c :: rest => (unmarked? c rest).map (c :: ·)

/-- The pieces of a number typed by hand. -/
def typed? (s : String) : Option Literal := do
  Literal.split? isDigit (← unmarked? ' ' ((stripped s.toList).map plainDigit))

/-- An integer typed by hand. -/
def typedInteger? (s : String) : Option Int := do
  let l ← typed? s
  if l.isWhole && !l.whole.isEmpty then some l.integer else none

/-- The value of a word that stands for a number. -/
def namedNumber? (cs : List Char) : Option Float :=
  let (sign, rest) := Literal.splitSign cs
  let x? : Option Float :=
    match String.ofList (rest.map Char.toLower) with
    | "inf" => some Binary.infinity
    | "infinity" => some Binary.infinity
    | "nan" => some Binary.notANumber
    | _ => none
  x?.map fun x => if sign == some '-' then -x else x

/-- A number typed by hand, or one of the words for infinity and "not a number". -/
def typedReal? (s : String) : Option Float :=
  match typed? s with
  | some l => if !l.digits.isEmpty && l.exponentFilled then some l.value else none
  | none => namedNumber? (stripped s.toList)

end Perturb.Number
