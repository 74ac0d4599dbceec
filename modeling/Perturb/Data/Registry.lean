/-
  The registry of counterexamples.

  A registry keeps its records in order and, if it was opened on a folder, appends each of them as
  a row to a table there.  The table is created with its header by the first registry opened under
  its name; registries opened later under the same name append to the same table.
-/
import Perturb.Data.Label

namespace Perturb

/-- One entry of a table. -/
inductive Cell (K : Type) where
  | text (s : String)
  | int (n : Int)
  | real (x : K)
  deriving Repr, Inhabited

/-- What is recorded of a counterexample. -/
structure SynthRecord (K : Type) where
  datasetName : String
  datasetIndex : Int
  origLabel : Int
  origConfidence : K
  origMargin : K
  synthLabel : Int
  synthConfidence : K
  synthMargin : K
  linf : K
  l1 : K
  deriving Repr, Inhabited

namespace SynthRecord

variable {K : Type}

/-- The names of the fields, in order. -/
def fieldNames : List String :=
  ["dataset_name", "dataset_index", "orig_label", "orig_confidence", "orig_margin", "synth_label",
    "synth_confidence", "synth_margin", "linf", "l1"]

/-- The values of the fields, in order. -/
def cells (r : SynthRecord K) : List (Cell K) :=
  [.text r.datasetName, .int r.datasetIndex, .int r.origLabel, .real r.origConfidence,
    .real r.origMargin, .int r.synthLabel, .real r.synthConfidence, .real r.synthMargin,
    .real r.linf, .real r.l1]

/-- The record of a counterexample of an item. -/
def of [Scalar K] (datasetName : String) (index : Int) (orig synth : Labelled K) :
    Outcome (SynthRecord K) := do
  let linf ← Distance.linf orig.datum synth.datum
  let l1 ← Distance.l1 orig.datum synth.datum
  .ok ⟨datasetName, index, orig.label, orig.softmax, orig.diff, synth.label, synth.softmax,
    synth.diff, linf, l1⟩

end SynthRecord

/-- The tables of a folder by file name, each a list of rows. -/
abbrev Folder (K : Type) := List (String × List (List (Cell K)))

namespace Folder

variable {K : Type}

/-- The rows of a table, if it exists. -/
def table? (f : Folder K) (file : String) : Option (List (List (Cell K))) := f.lookup file

/-- Appends a row to a table. -/
def append (f : Folder K) (file : String) (row : List (Cell K)) : Folder K :=
  f.map fun (name, rows) => if name = file then (name, rows ++ [row]) else (name, rows)

/-- Creates a table with its header unless it exists. -/
def ensure (f : Folder K) (file : String) : Folder K :=
  match f.table? file with
  | some _ => f
  | none => f ++ [(file, [SynthRecord.fieldNames.map .text])]

end Folder

/-- A registry: its names, the table it appends to if any, and its own records. -/
structure Registry (K : Type) where
  name : String
  datasetName : String
  file : Option String
  records : List (SynthRecord K)
  deriving Repr, Inhabited

namespace Registry

variable {K : Type}

/-- A registry without a table. -/
def detached (name datasetName : String) : Registry K := ⟨name, datasetName, none, []⟩

/-- Opens a registry on a folder, creating its table if needed. -/
def openIn (folder : Folder K) (name datasetName : String) : Registry K × Folder K :=
  let file := name ++ ".csv"
  (⟨name, datasetName, some file, []⟩, folder.ensure file)

/-- Adds a record to the registry and, as a row, to its table. -/
def add (r : Registry K) (folder : Folder K) (entry : SynthRecord K) : Registry K × Folder K :=
  ({ r with records := r.records ++ [entry] },
    match r.file with
    | some file => folder.append file entry.cells
    | none => folder)

/-- Records a counterexample of an item. -/
def record [Scalar K] (r : Registry K) (folder : Folder K) (index : Int)
    (orig synth : Labelled K) : Outcome (SynthRecord K × Registry K × Folder K) := do
  let entry ← SynthRecord.of r.datasetName index orig synth
  .ok (entry, r.add folder entry)

end Registry

end Perturb
