/-
  The input layer: every input is shifted by a mean and scaled.

  The mean is given per input, or per channel of the image (repeated round and round when fewer are
  given than there are channels), or not at all.
-/
import Perturb.Image.Grid
import Perturb.Layer.Recipe

namespace Perturb

/-- `(x - mean) · scale`, entry by entry. -/
structure DataLayer (K : Type) where
  index : Int
  size : Nat
  grid : Option Grid
  scale : K
  mean : List K
  mean_length : mean.length = size
  grid_size : ∀ g ∈ grid, g.size = size

namespace DataLayer

variable {K : Type} [Scalar K]

/-- One mean per channel, the given ones repeated, each for all cells of its channel. -/
def perChannel (g : Grid) (given : List K) : List K :=
  g.positions.map fun (c, _, _) => (given[c % given.length]?).getD 0

/-- The layer of a size, a scale and at most one kind of mean. -/
def make (index : Int) (size : Nat) (scale : K) (meanImage meanChannel : Option (List K))
    (grid : Option Grid) : Outcome (DataLayer K) :=
  if hg : ∀ g ∈ grid, g.size = size then
    match meanImage, meanChannel with
    | some _, some _ => .error .twoMeans
    | some mean, none =>
      if h : mean.length = size then .ok ⟨index, size, grid, scale, mean, h, hg⟩
      else .error (.meanLength mean.length size)
    | none, some given =>
      match grid with
      | none => .error .meanNeedsGrid
      | some g =>
        if given.isEmpty then .error .zeroDivisor
        else
          let mean := perChannel g given
          if h : mean.length = size then .ok ⟨index, size, some g, scale, mean, h, hg⟩
          else .error (.meanLength mean.length size)
    | none, none =>
      .ok ⟨index, size, grid, scale, List.replicate size 0, List.length_replicate, hg⟩
  else .error (.gridCoverage .data ((grid.map Grid.extents).getD default) size)

/-- The outputs as recipes: the negated mean, plus the input, times the scale. -/
def recipes (l : DataLayer K) : List (Recipe K) :=
  l.mean.zipIdx.map fun (m, i) => ⟨-m, [.add i, .mul l.scale]⟩

/-- The outputs at a point. -/
def values (l : DataLayer K) (x : List K) : List K :=
  List.zipWith (fun a m => (a - m) * l.scale) x l.mean

end DataLayer

end Perturb
