/-
  Datasets as they are exchanged: an array of items, an array of labels, and the number of labels.

  The first axis of the items counts them, all others are flattened.  With the extents of an image
  the dataset is one of images, in colour if there are three channels.
-/
import Perturb.Config.File
import Perturb.Data.Dataset
import Perturb.Exchange.Fields

namespace Perturb.Exchange

/-! ## Labels -/

/-- The least integer of a label. -/
def lowestLabel : Int := -9223372036854775808

/-- Whether a label can hold an integer: labels have 64 bits. -/
def fitsLabel (n : Int) : Bool := lowestLabel ≤ n && n < -lowestLabel

/-- A number as an integer, cut towards zero. -/
def asWhole (v : Value Float) : Outcome Int :=
  match v with
  | .int n => .ok n
  | v => do
    let x ← v.asReal
    match Scalar.truncated? x with
    | some n => .ok n
    | none => .error (if Scalar.isNaN x then .notANumber else .tooLarge)

/-- A number as a label. -/
def asLabel (v : Value Float) : Outcome Int := do
  let n ← asWhole v
  if fitsLabel n then .ok n else .error .tooLarge

/-- Labels, nested to any depth. -/
def labelsOf (v : Value Float) : Outcome (List Int) := do
  let t ← v.nested asLabel
  .ok t.cells

/-- A number as a label of an array of reals: what does not fit becomes the least integer. -/
def castLabel (x : Float) : Int :=
  match Scalar.truncated? x with
  | some n => if fitsLabel n then n else lowestLabel
  | none => lowestLabel

/-- Whether a value is a real. -/
def isReal (v : Value Float) : Bool :=
  match v with
  | .real _ => true
  | _ => false

/-- The labels of a file: one real among them makes all of them reals. -/
def storedLabels (v : Value Float) : Outcome (List Int) := do
  let t ← v.nested .ok
  if t.cells.any isReal then
    let xs ← v.asReals
    .ok (xs.map castLabel)
  else labelsOf v

/-! ## Datasets of a file -/

/-- The arrays of a file, each of which may be missing. -/
structure Arrays where
  data : Option (Tensor Float)
  labels : Option (List Int)
  labelCount : Option Int

/-- The arrays of a value. -/
def arraysOf (v : Value Float) : Outcome Arrays := do
  .ok {
    data := ← Value.orNone Value.asTensor (v.field "data")
    labels := ← Value.orNone storedLabels (v.field "labels")
    labelCount := ← Value.orNone asWhole (v.field "label_count") }

/-- The items of an array. -/
def itemsOf (t : Tensor Float) : Outcome (List (List Float)) :=
  match t.shape with
  | [] => .error .position
  | 0 :: _ => .error .lengths
  | _ => .ok t.rows

/-- The array of a file that must hold it. -/
def present {α : Type} (a : Option α) : Outcome α :=
  match a with
  | some a => .ok a
  | none => .error .missingKey

/-- The dataset of a file. -/
def datasetOf (path : String) (a : Arrays) (shape : Option Extents) : Outcome (Dataset Float) := do
  let data ← present a.data
  let labels ← present a.labels
  let items ← itemsOf data
  let image ← match shape with
    | none => .ok none
    | some e => do
      let grid ← Grid.of e.channels e.rows e.cols
      .ok (some (ImageInfo.mk grid (grid.channels == 3)))
  Dataset.make (some items) none labels a.labelCount (Path.stem path) image

/-! ## Datasets given in full -/

/-- The loader that scales an index and shifts it, for every component of its own. -/
def affineLoader (scale shift : List Float) (i : Int) : Outcome (List Float) :=
  .ok (List.zipWith (fun a b => Scalar.ofInt i * a + b) scale shift)

/-- The loader of a value. -/
def loaderOf (v : Value Float) : Outcome (Int → Outcome (List Float)) := do
  .ok (affineLoader (← (v.field "scale").asReals) (← (v.field "shift").asReals))

/-- The dataset of a value, which names the way it is made. -/
def givenDataset (v : Value Float) : Outcome (Dataset Float) := do
  let labels ← labelsOf (v.field "labels")
  let count ← Value.orNone asWhole (v.field "label_count")
  let name ← Value.orElse "dataset" Value.asText (v.field "name")
  let items := Value.asList Value.asReals
  match ← Value.orElse "from_arrays" Value.asText (v.field "via") with
  | "from_arrays" => Dataset.make (some (← items (v.field "data"))) none labels count name none
  | "lazy" =>
    Dataset.make none (← Value.orNone loaderOf (v.field "loader")) labels count name none
  | via => do
    let data ← Value.orNone items (v.field "data")
    let loader ← Value.orNone loaderOf (v.field "loader")
    let image ← if via = "image" then do
        let e ← (v.field "coords").asExtents
        let grid ← Grid.of e.channels e.rows e.cols
        .ok (some (ImageInfo.mk grid (v.field "is_color").truthy))
      else .ok none
    Dataset.make data loader labels count name image

end Perturb.Exchange
