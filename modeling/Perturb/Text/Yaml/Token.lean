/-
  Cutting a text into tokens.

  Block structure is made of indentation: a deeper column opens a collection, a shallower one closes
  it.  A key is recognised only when the colon behind it is met, so the start of every token that
  could be a key is remembered, and the marks of the key are then inserted in front of it.
-/
import Perturb.Text.Yaml.Scalar

namespace Perturb.Yaml.Scan

open Cursor (isBreak isGap finish)

/-! ## Possible keys and indentation -/

/-- The possible key of the current flow level. -/
def possibleKey? : Scan (Option PossibleKey) := do
  let s ← get
  return s.keys.lookup s.flow

/-- Forgets the possible key of the current flow level, which must not be one that has to be. -/
def forgetKey : Scan Unit := do
  match ← possibleKey? with
  | none => return
  | some k =>
    if k.required then fail
    else modify fun s => { s with keys := s.keys.filter fun (level, _) => level != s.flow }

/-- Remembers that a key may start here. -/
def rememberKey : Scan Unit := do
  let s ← get
  if s.allowKey then
    forgetKey
    let required := s.flow == 0 && s.indent == Int.ofNat s.column
    let k : PossibleKey := ⟨s.tokens.length, required, s.index, s.line, s.column⟩
    modify fun s => { s with keys := s.keys ++ [(s.flow, k)] }

/-- Forgets the possible keys that lie on another line or too far back. -/
def forgetStale : Scan Unit := do
  let s ← get
  let stale (k : PossibleKey) : Bool := k.line != s.line || s.index - k.index > 1024
  if s.keys.any fun (_, k) => stale k && k.required then fail
  else set { s with keys := s.keys.filter fun (_, k) => !stale k }

/-- Closes the block collections that are deeper than a column. -/
def unwind (column : Int) : Nat → Scan Unit
  | 0 => return
  | fuel + 1 => do
    let s ← get
    if s.flow == 0 && column < s.indent then
      set { s with indent := s.indents.headD (-1), indents := s.indents.tail }
      emit .blockEnd
      unwind column fuel

/-- Closes the block collections that are deeper than a column. -/
def unwindTo (column : Int) : Scan Unit := do unwind column ((← get).indents.length + 1)

/-- Opens a block collection at a column unless one is open there; tells whether it did. -/
def indentTo (column : Nat) : Scan Bool := do
  let s ← get
  if s.indent < Int.ofNat column then
    set { s with indent := Int.ofNat column, indents := s.indent :: s.indents }
    return true
  else return false

/-! ## Names and tags -/

/-- Whether a character may stand in a name. -/
def isNameChar (c : Char) : Bool := c.isAlphanum || c == '-' || c == '_'

/-- The name of an anchor or a reference. -/
def name : Scan String := do
  skip 1
  let run ← takeRun isNameChar
  let c ← peek 0
  if run.isEmpty || !(isGap c || "?:,]\x7d%@`".toList.contains c) then fail
  else return String.ofList run

/-- Whether a character may stand in a tag. -/
def isTagChar (c : Char) : Bool :=
  c.isAlphanum || "-;/?:@&=+$,_.!~*'()[]".toList.contains c

/-- The characters of a tag; a percent sign announces a byte in base sixteen. -/
def tagChars (text : List Char) : Nat → Scan (List Char)
  | 0 => return text
  | fuel + 1 => do
    let run ← takeRun isTagChar
    let text := text ++ run
    if (← peek 0) = '%' then
      let ds := (← get).rest.drop 1 |>.take 2
      match Number.natural? 16 ds with
      | some code =>
        if ds.length < 2 || 0x80 ≤ code then fail
        else
          skip 3
          tagChars (text ++ [Char.ofNat code]) fuel
      | none => fail
    else return text

/-- The text of a tag. -/
def tagText : Scan String := do
  let cs ← tagChars [] (← fuel)
  if cs.isEmpty then fail else return String.ofList cs

/-- A handle: a name between exclamation marks, or a single mark. -/
def handle : Scan String := do
  if (← peek 0) != '!' then fail
  else
    skip 1
    let run ← takeRun isNameChar
    if (← peek 0) = '!' then
      skip 1
      return String.ofList ('!' :: run ++ ['!'])
    else if run.isEmpty then return "!"
    else fail

/-- Whether another exclamation mark follows within a tag. -/
def hasHandle (cs : List Char) : Bool :=
  (cs.takeWhile fun c => !(c == ' ' || isBreak c)).contains '!'

/-- A tag. -/
def tag : Scan Token := do
  let c ← peek 1
  let t ←
    if c = '<' then do
      skip 2
      let suffix ← tagText
      if (← peek 0) != '>' then fail
      else
        skip 1
        pure (Token.tag none suffix)
    else if isGap c then do
      skip 1
      pure (Token.tag none "!")
    else if hasHandle ((← get).rest.drop 1) then do
      let h ← handle
      pure (Token.tag (some h) (← tagText))
    else do
      skip 1
      pure (Token.tag (some "!") (← tagText))
  let c ← peek 0
  if c == ' ' || c == finish || isBreak c then return t else fail

/-! ## Directives -/

/-- The rest of a line, which may hold a comment only. -/
def restOfLine : Scan Unit := do
  let _ ← takeRun (· == ' ')
  if (← peek 0) = '#' then let _ ← takeRun fun c => !isBreak c
  let c ← peek 0
  if !(c == finish || isBreak c) then fail
  else
    let _ ← lineEnd
    return

/-- Fails unless a blank or the end of a line stands here. -/
def wordEnds : Scan Unit := do
  let c ← peek 0
  if !(c == ' ' || c == finish || isBreak c) then fail else return

/-- A number in a directive. -/
def directiveNumber : Scan Nat := do
  match Number.natural? 10 (← takeRun Number.isDigit) with
  | some n => return n
  | none => fail

/-- A directive. -/
def directive : Scan Token := do
  skip 1
  let word ← takeRun isNameChar
  if word.isEmpty then fail
  else
    wordEnds
    match String.ofList word with
    | "YAML" =>
      let _ ← takeRun (· == ' ')
      let major ← directiveNumber
      if (← peek 0) != '.' then fail
      else
        skip 1
        let _ ← directiveNumber
        wordEnds
        restOfLine
        return .directive (.version major)
    | "TAG" =>
      let _ ← takeRun (· == ' ')
      let h ← handle
      if (← peek 0) != ' ' then fail
      else
        let _ ← takeRun (· == ' ')
        let target ← tagText
        wordEnds
        restOfLine
        return .directive (.handle h target)
    | _ =>
      let _ ← takeRun fun c => !isBreak c
      restOfLine
      return .directive .other

/-! ## Tokens -/

/-- Skips blanks, comments and line ends. -/
def skipGap : Nat → Scan Unit
  | 0 => return
  | fuel + 1 => do
    let _ ← takeRun (· == ' ')
    if (← peek 0) = '#' then let _ ← takeRun fun c => !isBreak c
    let b ← lineEnd
    if !b.isEmpty then
      if (← get).flow == 0 then allowKey true
      skipGap fuel

/-- Closes everything in front of a mark that concerns whole documents. -/
def closeAll : Scan Unit := do
  unwindTo (-1)
  forgetKey
  allowKey false

/-- The opening of a flow collection. -/
def openFlow (t : Token) : Scan Unit := do
  rememberKey
  modify fun s => { s with flow := s.flow + 1 }
  allowKey true
  skip 1
  emit t

/-- The end of a flow collection. -/
def closeFlow (t : Token) : Scan Unit := do
  forgetKey
  modify fun s => { s with flow := s.flow - 1 }
  allowKey false
  skip 1
  emit t

/-- A token that may become a key. -/
def keyed (t : Scan Token) : Scan Unit := do
  rememberKey
  allowKey false
  emit (← t)

/-- Fails in a block where no key may start; otherwise opens the collection a mark belongs to. -/
def openBlock (t : Token) : Scan Unit := do
  let s ← get
  if s.flow == 0 then
    if !s.allowKey then fail
    else if ← indentTo s.column then emit t

/-- The dash in front of an item. -/
def blockEntry : Scan Unit := do
  openBlock .blockSequence
  allowKey true
  forgetKey
  skip 1
  emit .blockEntry

/-- The mark in front of a key. -/
def explicitKey : Scan Unit := do
  openBlock .blockMapping
  allowKey ((← get).flow == 0)
  forgetKey
  skip 1
  emit .key

/-- The colon between a key and its value. -/
def valueMark : Scan Unit := do
  match ← possibleKey? with
  | some k =>
    modify fun s => { s with keys := s.keys.filter fun (level, _) => level != s.flow }
    emitAt k.token .key
    if (← get).flow == 0 then
      if ← indentTo k.column then emitAt k.token .blockMapping
    allowKey false
  | none =>
    openBlock .blockMapping
    allowKey ((← get).flow == 0)
    forgetKey
  skip 1
  emit .value

/-- Whether a plain scalar may start here. -/
def startsPlain (s : Cursor) : Bool :=
  let c := s.ahead 0
  !(isGap c || "-?:,[]\x7b\x7d#&*!|>'\"%@`".toList.contains c) ||
    (!isGap (s.ahead 1) && (c == '-' || (s.flow == 0 && (c == '?' || c == ':'))))

/-- The next token. -/
def next : Scan Unit := do
  if (← get).index == 0 && (← peek 0) == '\ufeff' then skip 1
  skipGap (← fuel)
  forgetStale
  unwindTo (Int.ofNat (← get).column)
  let s ← get
  let c := s.ahead 0
  let spaced := isGap (s.ahead 1)
  if s.rest.isEmpty then
    closeAll
    emit .streamEnd
  else if s.column == 0 && c == '%' then
    closeAll
    emit (← directive)
  else if s.column == 0 && s.atDocumentMark then
    closeAll
    skip 3
    emit (if c == '-' then .documentStart else .documentEnd)
  else if c == '[' then openFlow .sequenceOpen
  else if c == '{' then openFlow .mappingOpen
  else if c == ']' then closeFlow .sequenceClose
  else if c == '}' then closeFlow .mappingClose
  else if c == ',' then
    allowKey true
    forgetKey
    skip 1
    emit .flowEntry
  else if c == '-' && spaced then blockEntry
  else if c == '?' && (s.flow != 0 || spaced) then explicitKey
  else if c == ':' && (s.flow != 0 || spaced) then valueMark
  else if c == '*' then keyed (return .reference (← name))
  else if c == '&' then keyed (return .anchor (← name))
  else if c == '!' then keyed tag
  else if (c == '|' || c == '>') && s.flow == 0 then
    allowKey true
    forgetKey
    emit (← block (c == '>'))
  else if c == '\'' || c == '"' then keyed quoted
  else if startsPlain s then keyed plain
  else fail

/-- Whether the end of the text has been met. -/
def finished (s : Cursor) : Bool :=
  match s.tokens.getLast? with
  | some .streamEnd => true
  | _ => false

/-- Settles the tokens in front of the first possible key. -/
def settle : Scan Unit := do
  let s ← get
  if s.settled < s.tokens.length then forgetStale
  modify fun s => { s with
    settled := s.keys.foldl (fun n (_, k) => min n k.token) s.tokens.length }

/-- All tokens up to the end of the text. -/
def allTokens : Nat → Scan Unit
  | 0 => return
  | fuel + 1 => do
    settle
    next
    if finished (← get) then return else allTokens fuel

end Perturb.Yaml.Scan

namespace Perturb.Yaml

/-- The tokens of a text; if a fault ended them early, the fault and the tokens that were settled
before it. -/
def tokensOf (text : List Char) : List Token × Option Fault :=
  match Scan.allTokens (text.length + 2) (Cursor.start text) with
  | .ok () s => (s.tokens, none)
  | .error e s => (s.tokens.take s.settled, some e)

end Perturb.Yaml
