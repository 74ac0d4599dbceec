/-
  A place in a text that is being cut into tokens.

  Besides the rest of the text the place knows its line and column, since indentation has a meaning,
  and keeps the tokens found so far: when the cut fails, what was found before still counts.
-/
import Perturb.Fault

namespace Perturb.Yaml

/-- A directive in front of a document. -/
inductive Directive where
  | version (major : Nat)
  | handle (name target : String)
  | other
  deriving Repr, Inhabited

/-- The tokens of a text. -/
inductive Token where
  | directive (d : Directive)
  | documentStart | documentEnd | streamEnd
  | blockSequence | blockMapping | blockEnd
  | sequenceOpen | sequenceClose | mappingOpen | mappingClose
  | blockEntry | flowEntry | key | value
  | reference (name : String)
  | anchor (name : String)
  | tag (handle : Option String) (suffix : String)
  | scalar (text : String) (plain : Bool)
  deriving Repr, Inhabited

/-- A token that becomes a key if a colon follows it on its line: its number, whether it has to
    become one, and where it starts. -/
structure PossibleKey where
  token : Nat
  required : Bool
  index : Nat
  line : Nat
  column : Nat
  deriving Repr

/-- A place in a text. -/
structure Cursor where
  rest : List Char
  index : Nat
  line : Nat
  column : Nat
  /-- how many flow collections are open -/
  flow : Int
  /-- the column of the innermost block collection -/
  indent : Int
  /-- the columns of the block collections around it -/
  indents : List Int
  /-- whether a key may start here -/
  allowKey : Bool
  /-- the possible key of every flow level -/
  keys : List (Int × PossibleKey)
  tokens : List Token
  /-- how many of the tokens are settled: in front of no other one will be put a key -/
  settled : Nat
  deriving Repr

namespace Cursor

/-- The start of a text. -/
def start (text : List Char) : Cursor := ⟨text, 0, 0, 0, 0, -1, [], true, [], [], 0⟩

/-- The character that stands for the end of a text. -/
def finish : Char := '\x00'

/-- Whether a character ends a line. -/
def isBreak (c : Char) : Bool := c == '\n' || c == '\u0085' || c == '\u2028' || c == '\u2029'

/-- Whether a character ends a word: a blank, the end of a line or of the text. -/
def isGap (c : Char) : Bool := c == ' ' || c == '\t' || c == finish || isBreak c

/-- The character `k` places ahead. -/
def ahead (s : Cursor) (k : Nat) : Char := (s.rest[k]?).getD finish

/-- The cursor behind the next character. -/
def forward (s : Cursor) : Cursor :=
  match s.rest with
  | [] => s
  | c :: rest =>
    if isBreak c then { s with rest, index := s.index + 1, line := s.line + 1, column := 0 }
    else
      { s with
        rest
        index := s.index + 1
        column := if c = '\ufeff' then s.column else s.column + 1 }

/-- The cursor `k` characters ahead. -/
def forwardBy (s : Cursor) : Nat → Cursor
  | 0 => s
  | k + 1 => forwardBy s.forward k

/-- Whether a mark of documents stands here, with a gap behind it. -/
def atDocumentMark (s : Cursor) : Bool :=
  let mark := s.rest.take 3
  (mark == ['-', '-', '-'] || mark == ['.', '.', '.']) && isGap (s.ahead 3)

end Cursor

/-! ## Moves -/

/-- A move of the cursor that may fail. -/
abbrev Scan (α : Type) := Step Cursor α

namespace Scan

/-- The character `k` places ahead. -/
def peek (k : Nat) : Scan Char := return (← get).ahead k

/-- Moves `k` characters ahead. -/
def skip (k : Nat) : Scan Unit := modify fun s => s.forwardBy k

/-- Takes the characters up to the first one that fails a test. -/
def takeRun (p : Char → Bool) : Scan (List Char) := do
  let run := (← get).rest.takeWhile p
  skip run.length
  return run

/-- Takes the end of a line, if it stands here.  The rare ends of paragraphs are kept apart. -/
def lineEnd : Scan (List Char) := do
  let c ← peek 0
  if Cursor.isBreak c then
    skip 1
    return [if c = '\u0085' then '\n' else c]
  else return []

/-- Adds a token. -/
def emit (t : Token) : Scan Unit := modify fun s => { s with tokens := s.tokens ++ [t] }

/-- Inserts a token in front of the token with a number. -/
def emitAt (place : Nat) (t : Token) : Scan Unit :=
  modify fun s => { s with tokens := s.tokens.take place ++ t :: s.tokens.drop place }

/-- Says whether a key may start here. -/
def allowKey (on : Bool) : Scan Unit := modify fun s => { s with allowKey := on }

/-- Fails. -/
def fail {α : Type} : Scan α := throw .badToken

/-- A bound on the number of moves over the rest of the text. -/
def fuel : Scan Nat := return (← get).rest.length + 1

end Scan

end Perturb.Yaml
