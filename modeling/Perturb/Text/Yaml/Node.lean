/-
  Documents as trees.

  A node is a scalar, a sequence or a mapping, each with a tag.  The tree is read off the tokens by
  recursive descent; a reference stands for the node that was anchored under its name before.  What
  went wrong while the tokens were cut counts only when the reader gets there.
-/
import Perturb.Text.Yaml.Token

namespace Perturb.Yaml

/-- A node of a document.  A tag that was not given is missing; a plain scalar was not quoted. -/
inductive Node where
  | scalar (tag : Option String) (text : String) (plain : Bool)
  | sequence (tag : Option String) (items : List Node)
  | mapping (tag : Option String) (entries : List (Node × Node))
  deriving Inhabited, Repr

/-- Where a reader of tokens stands. -/
structure Reader where
  tokens : List Token
  fault : Option Fault
  handles : List (String × String)
  anchors : List (String × Node)

namespace Reader

/-- A reading step. -/
abbrev Read (α : Type) := Step Reader α

/-- The next token. -/
def peek : Read Token := do
  let s ← get
  match s.tokens, s.fault with
  | t :: _, _ => return t
  | [], some e => throw e
  | [], none => return .streamEnd

/-- Moves on to the token behind the next one. -/
def advance : Read Unit := modify fun s => { s with tokens := s.tokens.tail }

/-- Fails because of a token that does not belong here. -/
def fail {α : Type} : Read α := throw .badStructure

/-- Takes a token if a test holds of it; tells whether it did. -/
def take (p : Token → Bool) : Read Bool := do
  if p (← peek) then
    advance
    return true
  else return false

/-- Takes a token of which a test must hold. -/
def expect (p : Token → Bool) : Read Unit := do
  if ← take p then return else fail

/-- The node of a value that is left out. -/
def nothing : Node := .scalar none "" true

/-! ## Tests on tokens -/

/-- Whether a token is the mark of a key. -/
def isKey : Token → Bool
  | .key => true
  | _ => false

/-- Whether a token is the mark of a value. -/
def isValue : Token → Bool
  | .value => true
  | _ => false

/-- Whether a token ends a block collection. -/
def isBlockEnd : Token → Bool
  | .blockEnd => true
  | _ => false

/-- Whether a token is the dash of an item. -/
def isBlockEntry : Token → Bool
  | .blockEntry => true
  | _ => false

/-- Whether a token is the comma of a flow collection. -/
def isFlowEntry : Token → Bool
  | .flowEntry => true
  | _ => false

/-- Whether a token ends a flow sequence. -/
def isSequenceClose : Token → Bool
  | .sequenceClose => true
  | _ => false

/-- Whether a token ends a flow mapping. -/
def isMappingClose : Token → Bool
  | .mappingClose => true
  | _ => false

/-- Whether a token is a directive. -/
def isDirective : Token → Bool
  | .directive _ => true
  | _ => false

/-- Whether a token starts a document. -/
def isDocumentStart : Token → Bool
  | .documentStart => true
  | _ => false

/-- Whether a token ends a document. -/
def isDocumentEnd : Token → Bool
  | .documentEnd => true
  | _ => false

/-- Whether a token ends the text. -/
def isStreamEnd : Token → Bool
  | .streamEnd => true
  | _ => false

/-! ## Nodes -/

/-- The tag of a handle and a suffix. -/
def tagOf (handle : Option String) (suffix : String) : Read String := do
  match handle with
  | none => return suffix
  | some h =>
    match (← get).handles.lookup h with
    | some target => return target ++ suffix
    | none => fail

/-- What may stand in front of a node: an anchor and a tag, in either order. -/
def properties : Read (Option String × Option (Option String × String)) := do
  match ← peek with
  | .anchor a =>
    advance
    match ← peek with
    | .tag h s =>
      advance
      return (some a, some (h, s))
    | _ => return (some a, none)
  | .tag h s =>
    advance
    match ← peek with
    | .anchor a =>
      advance
      return (some a, some (h, s))
    | _ => return (none, some (h, s))
  | _ => return (none, none)

/-- Refuses a second anchor of one name. -/
def announce (anchor : Option String) : Read Unit := do
  match anchor with
  | none => return
  | some a => if ((← get).anchors.lookup a).isSome then throw .badReference

/-- Remembers a node under its anchor. -/
def remember (anchor : Option String) (n : Node) : Read Node := do
  match anchor with
  | none => return n
  | some a =>
    modify fun s => { s with anchors := s.anchors ++ [(a, n)] }
    return n

/-- The contexts a node may stand in: a flow collection, a block, or a block in which a sequence
    needs no indentation. -/
inductive Context where
  | flow | block | indentless
  deriving DecidableEq

/-- Whether a token tells that an entry of a block sequence without indentation is left out. -/
def endsItem (t : Token) : Bool := isBlockEntry t || isKey t || isValue t || isBlockEnd t

/-- Whether a token tells that the key or value of a block mapping is left out. -/
def endsBlockPart (t : Token) : Bool := isKey t || isValue t || isBlockEnd t

mutual

/-- A node. -/
def node (c : Context) : Nat → Read Node
  | 0 => fail
  | fuel + 1 => do
    match ← peek with
    | .reference a =>
      advance
      match (← get).anchors.lookup a with
      | some n => return n
      | none => throw .badReference
    | _ =>
      let (anchor, given) ← properties
      let tag ← match given with
        | none => pure none
        | some (h, s) => do pure (some (← tagOf h s))
      content c anchor tag fuel

/-- A node behind its anchor and tag. -/
def content (c : Context) (anchor tag : Option String) : Nat → Read Node
  | 0 => fail
  | fuel + 1 => do
    let t ← peek
    match t, c with
    | .blockEntry, .indentless =>
      announce anchor
      remember anchor (.sequence tag (← items endsItem (fun _ => false) fuel))
    | .scalar text plain, _ =>
      advance
      announce anchor
      remember anchor (.scalar (if tag = some "!" then none else tag) text
        (tag = some "!" || (plain && tag.isNone)))
    | .sequenceOpen, _ =>
      announce anchor
      advance
      remember anchor (.sequence tag (← flowItems true fuel))
    | .mappingOpen, _ =>
      announce anchor
      advance
      remember anchor (.mapping tag (← flowEntries true fuel))
    | .blockSequence, .block | .blockSequence, .indentless =>
      announce anchor
      advance
      remember anchor (.sequence tag
        (← items (fun t => isBlockEntry t || isBlockEnd t) isBlockEnd fuel))
    | .blockMapping, .block | .blockMapping, .indentless =>
      announce anchor
      advance
      remember anchor (.mapping tag (← entries fuel))
    | _, _ =>
      if anchor.isSome || tag.isSome then
        announce anchor
        let plain := tag.isNone || tag = some "!"
        remember anchor (.scalar (if tag = some "!" then none else tag) "" plain)
      else fail

/-- The items of a block sequence; `absent` tells that an item is left out, `ends` which token has
    to stand at the end and is taken. -/
def items (absent ends : Token → Bool) : Nat → Read (List Node)
  | 0 => fail
  | fuel + 1 => do
    if ← take isBlockEntry then
      let n ← if absent (← peek) then pure nothing else node .block fuel
      return n :: (← items absent ends fuel)
    else if ends .blockEnd then
      expect ends
      return []
    else return []

/-- The entries of a block mapping. -/
def entries : Nat → Read (List (Node × Node))
  | 0 => fail
  | fuel + 1 => do
    if ← take isKey then
      let k ← if endsBlockPart (← peek) then pure nothing else node .indentless fuel
      let v ←
        if ← take isValue then
          if endsBlockPart (← peek) then pure nothing else node .indentless fuel
        else pure nothing
      return (k, v) :: (← entries fuel)
    else
      expect isBlockEnd
      return []

/-- The items of a flow sequence; a key stands for a mapping of one entry. -/
def flowItems (first : Bool) : Nat → Read (List Node)
  | 0 => fail
  | fuel + 1 => do
    if ← take isSequenceClose then return []
    else
      if !first then expect isFlowEntry
      let t ← peek
      if isKey t then
        advance
        let ends (t : Token) : Bool := isFlowEntry t || isSequenceClose t
        let t ← peek
        let k ← if isValue t || ends t then pure nothing else node .flow fuel
        let v ←
          if ← take isValue then
            if ends (← peek) then pure nothing else node .flow fuel
          else pure nothing
        return .mapping none [(k, v)] :: (← flowItems false fuel)
      else if isSequenceClose t then
        advance
        return []
      else
        let n ← node .flow fuel
        return n :: (← flowItems false fuel)

/-- The entries of a flow mapping; a node without a mark is a key without a value. -/
def flowEntries (first : Bool) : Nat → Read (List (Node × Node))
  | 0 => fail
  | fuel + 1 => do
    if ← take isMappingClose then return []
    else
      if !first then expect isFlowEntry
      let t ← peek
      if isKey t then
        advance
        let ends (t : Token) : Bool := isFlowEntry t || isMappingClose t
        let t ← peek
        let k ← if isValue t || ends t then pure nothing else node .flow fuel
        let v ←
          if ← take isValue then
            if ends (← peek) then pure nothing else node .flow fuel
          else pure nothing
        return (k, v) :: (← flowEntries false fuel)
      else if isMappingClose t then
        advance
        return []
      else
        let n ← node .flow fuel
        return (n, nothing) :: (← flowEntries false fuel)

end

/-! ## Documents -/

/-- The handles every document knows. -/
def standardHandles : List (String × String) := [("!", "!"), ("!!", "tag:yaml.org,2002:")]

/-- Reads the directives in front of a document.  A version may be given once, and a handle may be
    declared once. -/
def directives (version : Bool) (declared : List (String × String)) : Nat → Read Unit
  | 0 => fail
  | fuel + 1 => do
    match ← peek with
    | .directive (.version major) =>
      advance
      if version || major != 1 then fail else directives true declared fuel
    | .directive (.handle name target) =>
      advance
      if (declared.lookup name).isSome then fail
      else directives version (declared ++ [(name, target)]) fuel
    | .directive .other =>
      advance
      directives version declared fuel
    | _ => modify fun s => { s with handles := declared ++ standardHandles }

/-- Skips marks of ended documents. -/
def skipEnds : Nat → Read Unit
  | 0 => return
  | fuel + 1 => do
    if ← take isDocumentEnd then skipEnds fuel

/-- The start of a document given by its mark; tells whether there is one. -/
def documentStart : Read Bool := do
  let fuel := (← get).tokens.length + 1
  skipEnds fuel
  if isStreamEnd (← peek) then return false
  else
    directives false [] fuel
    expect isDocumentStart
    return true

/-- The node of a document that has been started by its mark. -/
def documentContent (fuel : Nat) : Read Node := do
  let t ← peek
  if isDirective t || isDocumentStart t || isDocumentEnd t || isStreamEnd t then return nothing
  else node .block fuel

/-- The only document of a text, if there is one. -/
def document : Read (Option Node) := do
  let fuel := 4 * (← get).tokens.length + 8
  let t ← peek
  let n? ←
    if isDirective t || isDocumentStart t || isStreamEnd t then
      if ← documentStart then pure (some (← documentContent fuel)) else pure none
    else pure (some (← node .block fuel))
  match n? with
  | none => return none
  | some n =>
    let _ ← take isDocumentEnd
    if ← documentStart then throw .badReference else return some n

end Reader

/-- The document of a text. -/
def documentOf (text : List Char) : Outcome (Option Node) :=
  let (tokens, fault) := tokensOf text
  match Reader.document ⟨tokens, fault, Reader.standardHandles, []⟩ with
  | .ok n _ => .ok n
  | .error e _ => .error e

end Perturb.Yaml
