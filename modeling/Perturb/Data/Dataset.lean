/-
  Labelled datasets.

  The items of a dataset are held in memory or produced by a loader from their index.  Indices
  count from either end.  A dataset of images also knows the grid its vectors fill, and checks the
  vectors it holds against it.
-/
import Perturb.Image.Grid
import Perturb.Number.Position

namespace Perturb

/-- Vectors in memory, or a loader called with an index. -/
inductive Items (K : Type) where
  | held (data : List (List K))
  | loaded (load : Int → Outcome (List K))

/-- What is known of a dataset of images. -/
structure ImageInfo where
  grid : Grid
  isColor : Bool
  deriving Repr

/-- A dataset. -/
structure Dataset (K : Type) where
  items : Items K
  labels : List Int
  labelCount : Int
  name : String
  image : Option ImageInfo

namespace Dataset

variable {K : Type}

/-- The number of labels that occur: one more than the largest. -/
def countLabels (labels : List Int) : Int :=
  match labels with
  | [] => 0
  | l :: rest => rest.foldl max l + 1

/-- The first vector that does not fill the grid. -/
def misfit? (grid : Grid) (data : List (List K)) : Option (List K × Nat) :=
  data.zipIdx.find? fun (d, _) => d.length != grid.size

/-- The dataset of a source of items, which must be exactly one of the two. -/
def make (data : Option (List (List K))) (loader : Option (Int → Outcome (List K)))
    (labels : List Int) (labelCount : Option Int) (name : String) (image : Option ImageInfo) :
    Outcome (Dataset K) :=
  let count := labelCount.getD (countLabels labels)
  match data, loader with
  | some data, none =>
    if data.length = labels.length then
      match image.bind fun info => (misfit? info.grid data).map fun m => (info, m) with
      | some (info, d, i) => .error (.imageLength i d.length info.grid.size)
      | none => .ok ⟨.held data, labels, count, name, image⟩
    else .error (.itemCount data.length labels.length)
  | none, some load => .ok ⟨.loaded load, labels, count, name, image⟩
  | _, _ => .error .dataSource

/-- The number of items. -/
def size (ds : Dataset K) : Nat := ds.labels.length

/-- The vector at an index. -/
def datum (ds : Dataset K) (i : Int) : Outcome (List K) :=
  match ds.items with
  | .held data => pick data i
  | .loaded load => load i

/-- The label at an index. -/
def label (ds : Dataset K) (i : Int) : Outcome Int := pick ds.labels i

/-- The vector and the label at an index. -/
def item (ds : Dataset K) (i : Int) : Outcome (List K × Int) := do
  let d ← ds.datum i
  let l ← ds.label i
  .ok (d, l)

/-- All items in order. -/
def all (ds : Dataset K) : Outcome (List (List K × Int)) :=
  (List.range ds.size).mapM fun i => ds.item (Int.ofNat i)

/-- The dataset of the items at some indices, held in memory. -/
def subset (ds : Dataset K) (indices : List Int) : Outcome (Dataset K) := do
  let data ← indices.mapM ds.datum
  let labels ← indices.mapM ds.label
  make (some data) none labels (some ds.labelCount) ds.name ds.image

/-! ## What a loader is asked for -/

/-- A reading of a dataset. -/
inductive Reading where
  | none
  | one (index : Int)
  | all
  | subset (indices : List Int)

/-- The indices that readings, one after the other, ask the loader of a dataset for.  A subset is
held in memory, so readings after it ask for nothing. -/
def fetched (ds : Dataset K) : List Reading → List Int
  | [] => []
  | r :: rest =>
    match ds.items, r with
    | .held _, _ => []
    | .loaded _, .none => fetched ds rest
    | .loaded _, .one i => i :: fetched ds rest
    | .loaded _, .all => (List.range ds.size).map Int.ofNat ++ fetched ds rest
    | .loaded _, .subset is =>
      match ds.subset is with
      | .ok _ => is
      | .error _ => is ++ fetched ds rest

end Dataset

end Perturb
