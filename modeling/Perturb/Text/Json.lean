/-
  Reading JSON.

  A text is cut into tokens, and the tokens are read by a machine that keeps the open lists and
  mappings on a stack.  Both passes go once over their input.

  Besides the standard the words `NaN`, `Infinity` and `-Infinity` are numbers.  A number without
  point and exponent is an integer of any size.  Of two entries of a mapping under one key the later
  one counts, at the place of the first.  Whatever is wrong with a text, the fault is the same.
-/
import Perturb.Config.Value
import Perturb.Number.Literal

namespace Perturb.Json

/-! ## Tokens -/

/-- A token: a mark of structure, or a value without parts. -/
inductive Token where
  | listOpen | listClose | mapOpen | mapClose | comma | colon
  | text (s : String)
  | plain (v : Value Float)
  deriving Inhabited

/-- Whether an integer part is written without a superfluous zero. -/
def plainWhole (ds : List Char) : Bool :=
  match ds with
  | [] => false
  | ['0'] => true
  | d :: _ => d != '0'

/-- The number that a word is. -/
def number? (cs : List Char) : Option (Value Float) := do
  let l ← Number.Literal.split? Number.isDigit cs
  if l.sign != some '+' && plainWhole l.whole && l.fraction != some [] && l.exponentFilled then
    some (if l.isWhole then .int l.integer else .real l.value)
  else none

/-- The value that a word outside quotes is. -/
def word? (cs : List Char) : Option (Value Float) :=
  match String.ofList cs with
  | "null" => some .null
  | "true" => some (.bool true)
  | "false" => some (.bool false)
  | "NaN" => some (.real Binary.notANumber)
  | "Infinity" => some (.real Binary.infinity)
  | "-Infinity" => some (.real (-Binary.infinity))
  | _ => number? cs

/-- The character of a code point on its own; half a pair becomes the replacement character. -/
def single (c : Nat) : Char := if 0xd800 ≤ c && c < 0xe000 then '\ufffd' else Char.ofNat c

/-- The characters of code points, two halves of a pair made one. -/
def characters : List Nat → List Char
  | [] => []
  | hi :: lo :: rest =>
    if 0xd800 ≤ hi && hi < 0xdc00 && 0xdc00 ≤ lo && lo < 0xe000 then
      Char.ofNat (0x10000 + (hi - 0xd800) * 0x400 + (lo - 0xdc00)) :: characters rest
    else single hi :: characters (lo :: rest)
  | [c] => [single c]

/-- What a letter after a backslash stands for. -/
def escaped? : Char → Option Nat
  | '"' => some 0x22
  | '\\' => some 0x5c
  | '/' => some 0x2f
  | 'b' => some 8
  | 'f' => some 12
  | 'n' => some 10
  | 'r' => some 13
  | 't' => some 9
  | _ => none

/-- Where a reader stands: between tokens, within a word, or within a string (after a backslash,
    or after some digits of a code); what was read of the token is kept in reverse. -/
inductive Place where
  | between
  | word (seen : List Char)
  | quoted (seen : List Nat)
  | escape (seen : List Nat)
  | code (seen : List Nat) (digits : List Char)

/-- Whether a character may stand between tokens. -/
def isBlank (c : Char) : Bool := c == ' ' || c == '\t' || c == '\n' || c == '\r'

/-- Whether a character may stand in a word. -/
def isWordChar (c : Char) : Bool :=
  c.isAlpha || Number.isDigit c || c == '+' || c == '-' || c == '.'

/-- The token of a mark. -/
def mark? : Char → Option Token
  | '[' => some .listOpen
  | ']' => some .listClose
  | '{' => some .mapOpen
  | '}' => some .mapClose
  | ',' => some .comma
  | ':' => some .colon
  | _ => none

/-- The tokens of a text. -/
def tokens : Place → List Char → Option (List Token)
  | .between, [] => some []
  | .word seen, [] => (word? seen.reverse).map fun v => [.plain v]
  | _, [] => none
  | .between, c :: rest =>
    if isBlank c then tokens .between rest
    else if c = '"' then tokens (.quoted []) rest
    else if isWordChar c then tokens (.word [c]) rest
    else do
      let t ← mark? c
      (tokens .between rest).map (t :: ·)
  | .word seen, c :: rest =>
    if isWordChar c then tokens (.word (c :: seen)) rest
    else do
      let v ← word? seen.reverse
      if isBlank c then (tokens .between rest).map (.plain v :: ·)
      else do
        let t ← mark? c
        (tokens .between rest).map fun ts => .plain v :: t :: ts
  | .quoted seen, c :: rest =>
    if c = '"' then
      (tokens .between rest).map (.text (String.ofList (characters seen.reverse)) :: ·)
    else if c = '\\' then tokens (.escape seen) rest
    else if c.toNat < 0x20 then none
    else tokens (.quoted (c.toNat :: seen)) rest
  | .escape seen, c :: rest =>
    if c = 'u' then tokens (.code seen []) rest
    else do
      let n ← escaped? c
      tokens (.quoted (n :: seen)) rest
  | .code seen digits, c :: rest =>
    if digits.length < 3 then tokens (.code seen (digits ++ [c])) rest
    else do
      let n ← Number.natural? 16 (digits ++ [c])
      tokens (.quoted (n :: seen)) rest

/-! ## Values -/

/-- A list or mapping that is still open; a mapping waits for the value of a key. -/
inductive Frame where
  | list (done : List (Value Float))
  | map (done : Mapping Float) (key : String)

/-- What may come next. -/
inductive Expect where
  /-- a value -/
  | value
  /-- a value, or the end of a list that has just begun -/
  | firstItem
  /-- a key, or the end of a mapping that has just begun -/
  | firstKey (done : Mapping Float)
  /-- a key -/
  | key (done : Mapping Float)
  /-- the colon after a key -/
  | colon (done : Mapping Float) (key : String)
  /-- what follows a complete value -/
  | after (v : Value Float)

/-- Where the machine stands once a value is complete. -/
def complete (v : Value Float) : List Frame → List Frame × Expect
  | .list done :: frames => (.list (done ++ [v]) :: frames, .after .null)
  | .map done key :: frames =>
    (.map (Value.putEntry (.text key) v done) key :: frames, .after .null)
  | [] => ([], .after v)

/-- The first token of a value. -/
def begin (frames : List Frame) : Token → Option (List Frame × Expect)
  | .plain v => some (complete v frames)
  | .text s => some (complete (.text s) frames)
  | .listOpen => some (.list [] :: frames, .firstItem)
  | .mapOpen => some (frames, .firstKey [])
  | _ => none

/-- One token. -/
def accept : List Frame × Expect → Token → Option (List Frame × Expect)
  | (frames, .value), t => begin frames t
  | (.list done :: frames, .firstItem), .listClose => some (complete (.list done) frames)
  | (frames, .firstItem), t => begin frames t
  | (frames, .firstKey done), .mapClose => some (complete (.map done) frames)
  | (frames, .firstKey done), .text s => some (frames, .colon done s)
  | (frames, .key done), .text s => some (frames, .colon done s)
  | (frames, .colon done s), .colon => some (.map done s :: frames, .value)
  | (.list done :: frames, .after _), .comma => some (.list done :: frames, .value)
  | (.list done :: frames, .after _), .listClose => some (complete (.list done) frames)
  | (.map done _ :: frames, .after _), .comma => some (frames, .key done)
  | (.map done _ :: frames, .after _), .mapClose => some (complete (.map done) frames)
  | _, _ => none
/-- The value of a text, if it is one. -/
def parse? (text : String) : Option (Value Float) := do
  let ts ← tokens .between text.toList
  match ← ts.foldlM accept ([], .value) with
  | ([], .after v) => some v
  | _ => none

/-- The value of a text. -/
def read (text : String) : Outcome (Value Float) :=
  match parse? text with
  | some v => .ok v
  | none => .error .badJson

end Perturb.Json
