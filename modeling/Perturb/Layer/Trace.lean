/-
  What a concrete pass records about its branches.

  A `Trace` holds, per layer index, which side of zero every unit of a rectifier lay on and which
  cell won every window of a maximum.  Replaying a network with affine terms follows these choices
  instead of making them.

  A trace is an association list in order of first recording; recording an index again replaces its
  entry in place.
-/
import Perturb.Fault

namespace Perturb

/-- The side of zero a unit was on.  Code 2, and any other code, leaves it undecided. -/
inductive Choice where
  | active
  | inactive
  | undecided (code : Int)
  deriving DecidableEq, Repr, Inhabited

namespace Choice

/-- The choice that leaves the side undecided. -/
def either : Choice := .undecided 2

/-- The code of a choice. -/
def code : Choice → Int
  | .active => 0
  | .inactive => 1
  | .undecided c => c

/-- The choice of a code. -/
def ofCode (c : Int) : Choice :=
  if c = 0 then .active else if c = 1 then .inactive else .undecided c

end Choice

/-- The branches of one layer; a layer without branches records neither list. -/
structure Branches where
  choices : Option (List Choice)
  selections : Option (List Int)
  deriving DecidableEq, Repr, Inhabited

namespace Branches

/-- The record of a layer without branches. -/
def none : Branches := ⟨.none, .none⟩

/-- `n` rectifier units whose side is undecided. -/
def forRelu (n : Nat) : Branches := ⟨some (List.replicate n .either), .none⟩

/-- `n` windows without a winner. -/
def forMaxPool (n : Nat) : Branches := ⟨.none, some (List.replicate n (-1))⟩

end Branches

/-- The branches of a pass by layer index. -/
structure Trace where
  entries : List (Int × Branches)
  deriving DecidableEq, Repr, Inhabited

namespace Trace

/-- The trace of nothing. -/
def empty : Trace := ⟨[]⟩

/-- Replaces the entry of an index in place, or appends it. -/
def put (index : Int) (b : Branches) : List (Int × Branches) → List (Int × Branches)
  | [] => [(index, b)]
  | (i, old) :: rest => if i = index then (i, b) :: rest else (i, old) :: put index b rest

/-- Records the branches of a layer. -/
def record (t : Trace) (index : Int) (b : Branches) : Trace := ⟨put index b t.entries⟩

/-- The entry of a layer, if there is one. -/
def find? (t : Trace) (index : Int) : Option Branches := t.entries.lookup index

/-- The entry of a layer. -/
def get (t : Trace) (index : Int) : Outcome Branches :=
  match t.find? index with
  | some b => .ok b
  | .none => .error (.nothingRecorded index)

/-- Whether a layer has an entry. -/
def has (t : Trace) (index : Int) : Bool := (t.find? index).isSome

/-- The number of layers with an entry. -/
def size (t : Trace) : Nat := t.entries.length

end Trace

end Perturb
