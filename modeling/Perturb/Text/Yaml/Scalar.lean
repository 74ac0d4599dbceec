/-
  Cutting scalars out of a text: plain ones, quoted ones and blocks.

  A line end within a plain or quoted scalar is folded: one becomes a blank, further ones stay.  In
  a block the lines keep their ends unless it is a folded one, and what stands at its end is kept,
  cut to one line end, or dropped.
-/
import Perturb.Text.Yaml.Cursor
import Perturb.Number.Literal

namespace Perturb.Yaml.Scan

open Cursor (isBreak isGap finish)

/-! ## Plain scalars -/

/-- The line ends and blanks in front of the next word of a plain scalar; `none` in front of a mark
    of documents. -/
def foldedLines (breaks : List Char) : Nat → Scan (Option (List Char))
  | 0 => return none
  | fuel + 1 => do
    if (← get).atDocumentMark then return none
    else
      let _ ← takeRun (· == ' ')
      let b ← lineEnd
      if b.isEmpty then return some breaks else foldedLines (breaks ++ b) fuel

/-- A first line end, folded, with the ones behind it. -/
def fold (first breaks : List Char) : List Char :=
  if first != ['\n'] then first ++ breaks
  else if breaks.isEmpty then [' '] else breaks

/-- What stands between two words of a plain scalar; nothing at its end. -/
def plainGap : Scan (List Char) := do
  let blanks ← takeRun (· == ' ')
  let first ← lineEnd
  if first.isEmpty then return blanks
  else
    allowKey true
    match ← foldedLines [] (← fuel) with
    | none => return []
    | some breaks => return fold first breaks

/-- The length of the word of a plain scalar that stands here. -/
def plainLength (flow : Bool) : List Char → Nat
  | [] => 0
  | c :: rest =>
    let next := rest.headD finish
    let marks : List Char := [',', '[', ']', '{', '}']
    if isGap c || (c == ':' && (isGap next || (flow && marks.contains next)))
      || (flow && (c == '?' || marks.contains c)) then 0
    else plainLength flow rest + 1

/-- The words of a plain scalar from here on; `gap` stands in front of them. -/
def plainWords (indent : Int) (text gap : List Char) : Nat → Scan (List Char)
  | 0 => return text
  | fuel + 1 => do
    let s ← get
    let length := if s.ahead 0 = '#' then 0 else plainLength (s.flow != 0) s.rest
    if length = 0 then return text
    else
      allowKey false
      let text := text ++ gap ++ s.rest.take length
      skip length
      let gap ← plainGap
      let s ← get
      if gap.isEmpty || s.ahead 0 = '#' || (s.flow == 0 && Int.ofNat s.column < indent) then
        return text
      else plainWords indent text gap fuel

/-- A plain scalar. -/
def plain : Scan Token := do
  let text ← plainWords ((← get).indent + 1) [] [] (← fuel)
  return .scalar (String.ofList text) true

/-! ## Quoted scalars -/

/-- What a character after a backslash stands for. -/
def escaped? : Char → Option Char
  | '0' => some '\x00'
  | 'a' => some '\x07'
  | 'b' => some '\x08'
  | 't' => some '\t'
  | '\t' => some '\t'
  | 'n' => some '\n'
  | 'v' => some '\x0b'
  | 'f' => some '\x0c'
  | 'r' => some '\r'
  | 'e' => some '\x1b'
  | ' ' => some ' '
  | '"' => some '"'
  | '\\' => some '\\'
  | '/' => some '/'
  | 'N' => some '\u0085'
  | '_' => some '\u00a0'
  | 'L' => some '\u2028'
  | 'P' => some '\u2029'
  | _ => none

/-- How many digits follow a letter that announces a code point. -/
def codeLength? : Char → Option Nat
  | 'x' => some 2
  | 'u' => some 4
  | 'U' => some 8
  | _ => none

/-- The line ends within a quoted scalar, blanks skipped. -/
def quotedLines (breaks : List Char) : Nat → Scan (List Char)
  | 0 => return breaks
  | fuel + 1 => do
    if (← get).atDocumentMark then fail
    else
      let _ ← takeRun fun c => c == ' ' || c == '\t'
      let b ← lineEnd
      if b.isEmpty then return breaks else quotedLines (breaks ++ b) fuel

/-- The character of an escape; the backslash has been taken. -/
def escape : Scan (List Char) := do
  let c ← peek 0
  match escaped? c, codeLength? c with
  | some e, _ =>
    skip 1
    return [e]
  | none, some length =>
    skip 1
    match Number.natural? 16 ((← get).rest.take length) with
    | none => fail
    | some code =>
      if ((← get).rest.take length).length < length then fail
      else if 0x110000 ≤ code then throw .notANumber
      else
        skip length
        return [Char.ofNat code]
  | none, none =>
    let b ← lineEnd
    if b.isEmpty then fail else quotedLines [] (← fuel)

/-- The part of a quoted scalar up to a blank, a line end or the closing quote. -/
def quotedWord (double : Bool) (text : List Char) : Nat → Scan (List Char)
  | 0 => return text
  | fuel + 1 => do
    let run ← takeRun fun c => !(c == '\'' || c == '"' || c == '\\' || isGap c)
    let text := text ++ run
    let c ← peek 0
    if !double && c == '\'' && (← peek 1) == '\'' then
      skip 2
      quotedWord double (text ++ ['\'']) fuel
    else if (double && c == '\'') || (!double && (c == '"' || c == '\\')) then
      skip 1
      quotedWord double (text ++ [c]) fuel
    else if double && c == '\\' then
      skip 1
      let e ← escape
      quotedWord double (text ++ e) fuel
    else return text

/-- The blanks and line ends between two words of a quoted scalar. -/
def quotedGap : Scan (List Char) := do
  let blanks ← takeRun fun c => c == ' ' || c == '\t'
  if (← get).rest.isEmpty then fail
  else
    let first ← lineEnd
    if first.isEmpty then return blanks
    else
      let breaks ← quotedLines [] (← fuel)
      return fold first breaks

/-- The rest of a quoted scalar up to its closing quote. -/
def quotedWords (quote : Char) (text : List Char) : Nat → Scan (List Char)
  | 0 => fail
  | fuel + 1 => do
    if (← peek 0) = quote then return text
    else
      let gap ← quotedGap
      let text ← quotedWord (quote == '"') (text ++ gap) (← Scan.fuel)
      quotedWords quote text fuel

/-- A quoted scalar. -/
def quoted : Scan Token := do
  let quote ← peek 0
  skip 1
  let text ← quotedWord (quote == '"') [] (← fuel)
  let text ← quotedWords quote text (← fuel)
  skip 1
  return .scalar (String.ofList text) false

/-! ## Blocks -/

/-- What becomes of the line ends at the end of a block. -/
inductive Chomp where
  | one | all | no
  deriving DecidableEq, Repr

/-- The mark for the end of a block, if it stands here. -/
def chompMark : Scan (Option Chomp) := do
  match ← peek 0 with
  | '+' =>
    skip 1
    return some .all
  | '-' =>
    skip 1
    return some .no
  | _ => return none

/-- The mark for the indentation of a block, if it stands here. -/
def indentMark : Scan (Option Nat) := do
  match Number.digitValue? 10 (← peek 0) with
  | some 0 => fail
  | some n =>
    skip 1
    return some n
  | none => return none

/-- The rest of the line a block begins on. -/
def blockHeader : Scan (Chomp × Option Nat) := do
  let before ← chompMark
  let indent ← indentMark
  let chomp ← if before.isSome then pure before else chompMark
  let c ← peek 0
  if !(c == ' ' || c == finish || isBreak c) then fail
  else
    let _ ← takeRun (· == ' ')
    if (← peek 0) = '#' then let _ ← takeRun fun c => !isBreak c
    let c ← peek 0
    if !(c == finish || isBreak c) then fail
    else
      let _ ← lineEnd
      return (chomp.getD .one, indent)

/-- Skips blanks up to a column. -/
def skipTo (indent : Int) : Scan Unit := do
  let s ← get
  let blanks := (s.rest.takeWhile (· == ' ')).length
  skip (min blanks (indent - Int.ofNat s.column).toNat)

/-- The empty lines in front of the next line of a block. -/
def blockBreaks (indent : Int) (breaks : List Char) : Nat → Scan (List Char)
  | 0 => return breaks
  | fuel + 1 => do
    skipTo indent
    let b ← lineEnd
    if b.isEmpty then return breaks else blockBreaks indent (breaks ++ b) fuel

/-- The empty lines in front of the first line of a block, and the largest column met. -/
def blockMargin (breaks : List Char) (widest : Nat) : Nat → Scan (List Char × Nat)
  | 0 => return (breaks, widest)
  | fuel + 1 => do
    let _ ← takeRun (· == ' ')
    let widest := max widest (← get).column
    let b ← lineEnd
    if b.isEmpty then return (breaks, widest) else blockMargin (breaks ++ b) widest fuel

/-- The lines of a block: its text, the last line end, and the empty lines behind it. -/
def blockLines (folded : Bool) (indent : Int) (text breaks : List Char) :
    Nat → Scan (List Char × List Char × List Char)
  | 0 => return (text, [], breaks)
  | fuel + 1 => do
    let c ← peek 0
    let flush := !(c == ' ' || c == '\t')
    let line ← takeRun fun c => !isBreak c
    let text := text ++ breaks ++ line
    let last ← lineEnd
    let breaks ← blockBreaks indent [] (← Scan.fuel)
    let s ← get
    if Int.ofNat s.column == indent && !s.rest.isEmpty then
      let c := s.ahead 0
      let joint :=
        if folded && last == ['\n'] && flush && !(c == ' ' || c == '\t') then
          (if breaks.isEmpty then [' '] else [])
        else last
      blockLines folded indent (text ++ joint) breaks fuel
    else return (text, last, breaks)

/-- A block scalar. -/
def block (folded : Bool) : Scan Token := do
  skip 1
  let (chomp, given) ← blockHeader
  let least := max 1 ((← get).indent + 1)
  let (indent, breaks) ← match given with
    | some n => do
      let indent := least + Int.ofNat n - 1
      pure (indent, ← blockBreaks indent [] (← fuel))
    | none => do
      let (breaks, widest) ← blockMargin [] 0 (← fuel)
      pure (max least (Int.ofNat widest), breaks)
  let s ← get
  let (text, last, breaks) ←
    if Int.ofNat s.column == indent && !s.rest.isEmpty then
      blockLines folded indent [] breaks (← fuel)
    else pure ([], [], breaks)
  let tail := match chomp with
    | .no => []
    | .one => last
    | .all => last ++ breaks
  return .scalar (String.ofList (text ++ tail)) false

end Perturb.Yaml.Scan
