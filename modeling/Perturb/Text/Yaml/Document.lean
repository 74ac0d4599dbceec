/-
  Documents as values.

  A plain scalar is told by its look: nothing, a truth value, an integer, a number with a point, or
  else text.  Integers may be written in base two, eight, sixteen and, with colons, sixty; numbers
  need a point, and their exponent needs a sign.

  A mapping may take over the entries of others under the merge key; its own entries count more.
-/
import Perturb.Config.Value
import Perturb.Text.Yaml.Node

namespace Perturb.Yaml

/-! ## The look of plain scalars -/

/-- Digits with marks between them. -/
def isMarkedDigit (c : Char) : Bool := Number.isDigit c || c == '_'

/-- A text without the marks between digits. -/
def unmarked (cs : List Char) : List Char := cs.filter (· != '_')

/-- The words for truth values. -/
def truthWords : List (String × Bool) :=
  [("yes", true), ("no", false), ("true", true), ("false", false), ("on", true), ("off", false)]

/-- The truth value of a word in any mixture of cases. -/
def truthOf? (s : String) : Option Bool :=
  truthWords.lookup (String.ofList (s.toList.map Char.toLower))

/-- Whether a word is written in lower case, in upper case, or with a capital. -/
def plainCase (cs : List Char) : Bool :=
  match cs with
  | [] => true
  | c :: rest =>
    cs.all Char.isUpper || (c.isAlpha && rest.all Char.isLower)

/-- The parts of a text between colons. -/
def partsBy (mark : Char) : List Char → List (List Char)
  | [] => [[]]
  | c :: rest =>
    if c = mark then [] :: partsBy mark rest
    else
      match partsBy mark rest with
      | part :: parts => (c :: part) :: parts
      | [] => [[c]]

/-- Whether a part counts sixties: one digit, or two of which the first is below six. -/
def isSixtieth (cs : List Char) : Bool :=
  match cs with
  | [d] => Number.isDigit d
  | [c, d] => '0' ≤ c && c ≤ '5' && Number.isDigit d
  | _ => false

/-- Whether a text without sign is an integer. -/
def looksInteger (cs : List Char) : Bool :=
  match cs with
  | [] => false
  | ['0'] => true
  | '0' :: 'b' :: ds => !ds.isEmpty && ds.all fun c => c == '0' || c == '1' || c == '_'
  | '0' :: 'x' :: ds =>
    !ds.isEmpty && ds.all fun c => (Number.digitValue? 16 c).isSome || c == '_'
  | '0' :: ds => ds.all fun c => (Number.digitValue? 8 c).isSome || c == '_'
  | c :: _ =>
    Number.isDigit c &&
      match partsBy ':' cs with
      | whole :: parts => whole.all isMarkedDigit && parts.all isSixtieth
      | [] => false

/-- Whether a text is a number with a point. -/
def looksReal (cs : List Char) : Bool :=
  let (sign, rest) := Number.Literal.splitSign cs
  let word := String.ofList rest
  if [".inf", ".Inf", ".INF"].contains word then true
  else if sign.isNone && [".nan", ".NaN", ".NAN"].contains word then true
  else if rest.contains ':' then
    match partsBy ':' rest with
    | whole :: parts =>
      match parts.getLast?.map (partsBy '.') with
      | some [last, fraction] =>
        (whole.headD 'x' |> Number.isDigit) && whole.all isMarkedDigit &&
          (parts.dropLast ++ [last]).all isSixtieth && fraction.all isMarkedDigit
      | _ => false
    | [] => false
  else
    match Number.Literal.split? isMarkedDigit cs with
    | none => false
    | some l =>
      let exponent := match l.exponent with
        | none => true
        | some (sign, ds) => sign.isSome && !ds.isEmpty
      match l.whole, l.fraction with
      | c :: _, some _ => Number.isDigit c && exponent
      | [], some (d :: _) => sign.isNone && Number.isDigit d && exponent
      | _, _ => false

/-- The value of parts that count sixties. -/
def sixties {α : Type} [Add α] [Mul α] (zero sixty : α) (digits : List α) : α :=
  digits.foldl (fun n d => n * sixty + d) zero

/-- The integer a text stands for.  It has to hold more than a sign. -/
def integerOf (s : String) : Outcome Int :=
  let (sign, cs) := Number.Literal.splitSign (unmarked s.toList)
  let natural (base : Nat) (ds : List Char) : Option Int :=
    (Number.natural? base ds).map Int.ofNat
  let n? : Option Int :=
    match cs with
    | ['0'] => some 0
    | '0' :: 'b' :: ds => natural 2 ds
    | '0' :: 'x' :: ds => natural 16 ds
    | '0' :: ds => natural 8 ds
    | _ =>
      ((partsBy ':' cs).mapM fun p => Number.typedInteger? (String.ofList p)).map (sixties 0 60)
  match n? with
  | some n => .ok (if sign == some '-' then -n else n)
  | none => .error (if cs.isEmpty then .position else .notANumber)

/-- The number a text stands for. -/
def realOf (s : String) : Outcome Float :=
  let (sign, cs) := Number.Literal.splitSign ((unmarked s.toList).map Char.toLower)
  let x? : Option Float :=
    match String.ofList cs with
    | ".inf" => some Binary.infinity
    | ".nan" => some Binary.notANumber
    | word =>
      if cs.contains ':' then
        ((partsBy ':' cs).mapM fun p => Number.typedReal? (String.ofList p)).map (sixties 0.0 60.0)
      else Number.typedReal? word
  match x? with
  | some x => .ok (if sign == some '-' then -x else x)
  | none => .error (if (unmarked s.toList).isEmpty then .position else .notANumber)

/-- The name of a standard tag. -/
def standard (name : String) : String := "tag:yaml.org,2002:" ++ name

/-- The tag of a plain scalar. -/
def tagOfPlain (s : String) : String :=
  let cs := s.toList
  let unsigned := (Number.Literal.splitSign cs).2
  if (truthOf? s).isSome && plainCase cs then standard "bool"
  else if looksReal cs then standard "float"
  else if looksInteger unsigned then standard "int"
  else if s == "<<" then standard "merge"
  else if ["", "~", "null", "Null", "NULL"].contains s then standard "null"
  else if s == "=" then standard "value"
  else standard "str"

/-! ## Values -/

/-- The value of a scalar under a tag. -/
def scalarValue (tag text : String) : Outcome (Value Float) :=
  if tag = standard "str" then .ok (.text text)
  else if tag = standard "null" then .ok .null
  else if tag = standard "int" then (integerOf text).map .int
  else if tag = standard "float" then (realOf text).map .real
  else if tag = standard "bool" then
    match truthOf? text with
    | some b => .ok (.bool b)
    | none => .error .missingKey
  else .error .badTag

/-- The tag of a scalar node. -/
def scalarTag (tag : Option String) (text : String) (plain : Bool) : String :=
  match tag with
  | some t => t
  | none => if plain then tagOfPlain text else standard "str"

/-- Whether a collection has the tag that suits it. -/
def suits (tag : Option String) (name : String) : Bool :=
  match tag with
  | none => true
  | some t => t == standard name || t == "!"

/-- Whether a node is the merge key. -/
def isMergeKey : Node → Bool
  | .scalar tag text plain => scalarTag tag text plain == standard "merge"
  | _ => false

/-- The value of a key.  What has parts is no key; the sign of equality is one. -/
def keyOf (n : Node) (v : Outcome (Value Float)) : Outcome (Value Float) :=
  match n with
  | .scalar tag text plain =>
    if scalarTag tag text plain = standard "value" then .ok (.text text) else v
  | _ => .error .badTag

/-- The entries a merge key takes over: those of a mapping, or of a list of mappings, of which the
    first counts most. -/
def mergedEntries (n : Node) (v : Value Float) : Outcome (Mapping Float) :=
  match n, v with
  | .mapping _ _, .map m => .ok m
  | .sequence _ nodes, .list vs =>
    (List.zip nodes vs).foldlM (fun acc (n, v) =>
      match n, v with
      | .mapping _ _, .map m => .ok (m ++ acc)
      | _, _ => .error .badTag) []
  | _, _ => .error .badTag

mutual

/-- The value of a node. -/
def valueOf : Node → Outcome (Value Float)
  | .scalar tag text plain => scalarValue (scalarTag tag text plain) text
  | .sequence tag items =>
    if suits tag "seq" then do
      let vs ← valuesOf items
      .ok (.list vs)
    else .error .badTag
  | .mapping tag entries =>
    if suits tag "map" then do
      let (merged, own) ← entriesOf entries
      .ok (.map ((merged ++ own).foldl (fun m (k, v) => Value.putEntry k v m) []))
    else .error .badTag

/-- The values of several nodes. -/
def valuesOf : List Node → Outcome (List (Value Float))
  | [] => .ok []
  | n :: rest => do
    let v ← valueOf n
    let vs ← valuesOf rest
    .ok (v :: vs)

/-- The entries a mapping takes over, and its own. -/
def entriesOf : List (Node × Node) → Outcome (Mapping Float × Mapping Float)
  | [] => .ok ([], [])
  | (k, n) :: rest =>
    if isMergeKey k then do
      let v ← valueOf n
      let taken ← mergedEntries n v
      let (merged, own) ← entriesOf rest
      .ok (taken ++ merged, own)
    else do
      let key ← keyOf k (valueOf k)
      let v ← valueOf n
      let (merged, own) ← entriesOf rest
      .ok (merged, (key, v) :: own)

end

/-! ## Texts -/

/-- Whether a character may stand in a text at all. -/
def isPrintable (c : Char) : Bool :=
  let n := c.toNat
  n == 9 || n == 10 || n == 13 || (0x20 ≤ n && n ≤ 0x7e) || n == 0x85 ||
    (0xa0 ≤ n && n ≤ 0xfffd) || 0x10000 ≤ n

/-- A text with every kind of line end made the plain one. -/
def plainLineEnds : List Char → List Char
  | [] => []
  | '\r' :: '\n' :: rest => '\n' :: plainLineEnds rest
  | '\r' :: rest => '\n' :: plainLineEnds rest
  | c :: rest => c :: plainLineEnds rest

/-- The value of a text; an empty one is nothing. -/
def read (text : String) : Outcome (Value Float) :=
  let cs := plainLineEnds text.toList
  if !cs.all isPrintable then .error .badCharacter
  else do
    match ← documentOf cs with
    | none => .ok .null
    | some n => valueOf n

end Perturb.Yaml
