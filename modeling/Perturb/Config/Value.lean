/-
  Untyped values, as they stand in configuration files and on command lines.

  A value is what a text said: nothing, a truth value, an integer, a number with a point, a string,
  a list or a mapping.  Options keep their values in this form until they have been validated, so
  the rules for comparing values of different sorts are part of what a configuration means:

    * truth values count as zero and one, and integers compare with other numbers exactly;
    * strings compare by code points, lists entry by entry;
    * anything else does not compare, which is a fault of type.
-/
import Perturb.Fault
import Perturb.Scalar
import Perturb.Text.Printable

namespace Perturb

/-- An untyped value. -/
inductive Value (K : Type) where
  | null
  | bool (b : Bool)
  | int (n : Int)
  | real (x : K)
  | text (s : String)
  | list (items : List (Value K))
  | map (entries : List (Value K × Value K))
  deriving Inhabited, Repr

/-- A mapping: keys with their values, in order of first appearance. -/
abbrev Mapping (K : Type) := List (Value K × Value K)

namespace Value

variable {K : Type}

/-! ## Text -/

/-- `n` in base sixteen with at least `width` digits. -/
def hex (width n : Nat) : String :=
  let ds := Nat.toDigits 16 n
  String.ofList (List.replicate (width - ds.length) '0' ++ ds)

/-- A character within quotes of the given kind. -/
def quotedChar (quote c : Char) : String :=
  if c = quote || c = '\\' then String.ofList ['\\', c]
  else if c = '\n' then "\\n"
  else if c = '\r' then "\\r"
  else if c = '\t' then "\\t"
  else if Text.hidden c then
    if c.toNat < 0x100 then "\\x" ++ hex 2 c.toNat
    else if c.toNat < 0x10000 then "\\u" ++ hex 4 c.toNat
    else "\\U" ++ hex 8 c.toNat
  else String.singleton c

/-- A string in quotes: single ones, unless it holds single but no double quotes. -/
def quoted (s : String) : String :=
  let quote := if s.toList.contains '\'' && !s.toList.contains '"' then '"' else '\''
  String.singleton quote ++ String.join (s.toList.map (quotedChar quote)) ++ String.singleton quote

variable [Scalar K]

mutual

/-- The text of a value that tells sorts apart: strings stand in quotes. -/
def describe : Value K → String
  | .null => "None"
  | .bool b => if b then "True" else "False"
  | .int n => Number.plain n
  | .real x => Scalar.text x
  | .text s => quoted s
  | .list items => "[" ++ String.intercalate ", " (describeAll items) ++ "]"
  | .map entries => "\x7b" ++ String.intercalate ", " (describeEntries entries) ++ "\x7d"

/-- The texts of values. -/
def describeAll : List (Value K) → List String
  | [] => []
  | v :: rest => describe v :: describeAll rest

/-- The texts of entries. -/
def describeEntries : List (Value K × Value K) → List String
  | [] => []
  | (k, v) :: rest => (describe k ++ ": " ++ describe v) :: describeEntries rest

end

/-- The text of a value in running text: strings stand as they are. -/
def display (v : Value K) : String :=
  match v with
  | .text s => s
  | other => describe other

/-! ## Sorts -/

/-- The integer a value counts as: integers and truth values. -/
def integer? : Value K → Option Int
  | .int n => some n
  | .bool b => some (if b then 1 else 0)
  | _ => none

/-- The number a value counts as. -/
def number? : Value K → Option K
  | .real x => some x
  | v => v.integer?.map Scalar.ofInt

/-- Whether a value counts as true. -/
def truthy : Value K → Bool
  | .null => false
  | .bool b => b
  | .int n => n != 0
  | .real x => !(x == 0)
  | .text s => !s.isEmpty
  | .list items => !items.isEmpty
  | .map entries => !entries.isEmpty

/-! ## Comparison -/

/-- Whether an integer is below a number: exactly for a finite one, by its sign otherwise. -/
def intBelow (n : Int) (x : K) : Bool :=
  match Scalar.toRat? x with
  | some q => decide (Rat.ofInt n < q)
  | none => decide (0 < x)

/-- Whether a number is below an integer. -/
def belowInt (x : K) (n : Int) : Bool :=
  match Scalar.toRat? x with
  | some q => decide (q < Rat.ofInt n)
  | none => decide (x < 0)

/-- Whether an integer equals a number. -/
def intEquals (n : Int) (x : K) : Bool :=
  match Scalar.toRat? x with
  | some q => decide (q = Rat.ofInt n)
  | none => false

mutual

/-- Whether two values are equal; numbers of different sorts may be. -/
def same : Value K → Value K → Bool
  | .null, .null => true
  | .text s, .text t => s == t
  | .list xs, .list ys => sameAll xs ys
  | .real x, .real y => x == y
  | .real x, w => match w.integer? with
    | some n => intEquals n x
    | none => false
  | v, .real y => match v.integer? with
    | some n => intEquals n y
    | none => false
  | v, w => match v.integer?, w.integer? with
    | some n, some m => n == m
    | _, _ => false

/-- Whether two lists are equal entry by entry. -/
def sameAll : List (Value K) → List (Value K) → Bool
  | [], [] => true
  | x :: xs, y :: ys => same x y && sameAll xs ys
  | _, _ => false

end

mutual

/-- Whether a value is below another; `none` if they do not compare. -/
def below? : Value K → Value K → Option Bool
  | .text s, .text t => some (decide (s < t))
  | .list xs, .list ys => belowAll? xs ys
  | .real x, .real y => some (decide (x < y))
  | .real x, w => w.integer?.map (belowInt x)
  | v, .real y => v.integer?.map fun n => intBelow n y
  | v, w => match v.integer?, w.integer? with
    | some n, some m => some (decide (n < m))
    | _, _ => none

/-- Whether a list is below another: at the first entry that differs, or by length. -/
def belowAll? : List (Value K) → List (Value K) → Option Bool
  | [], [] => some false
  | [], _ :: _ => some true
  | _ :: _, [] => some false
  | x :: xs, y :: ys => if same x y then belowAll? xs ys else below? x y

end

/-- Whether a value is below another. -/
def less (v w : Value K) : Outcome Bool :=
  match below? v w with
  | some b => .ok b
  | none => .error .wrongType

/-- Whether a value is below another or equal to it. -/
def atMost (v w : Value K) : Outcome Bool := do
  let smaller ← less v w
  .ok (smaller || same v w)

/-! ## Mappings -/

/-- The value of a key given as text. -/
def lookup? (entries : Mapping K) (key : String) : Option (Value K) :=
  (entries.find? fun (k, _) => match k with
    | .text s => s == key
    | _ => false).map (·.2)

/-- Sets the value of a key in place, or appends it. -/
def putEntry (key value : Value K) : Mapping K → Mapping K
  | [] => [(key, value)]
  | (k, v) :: rest => if same k key then (k, value) :: rest else (k, v) :: putEntry key value rest

end Value

end Perturb
