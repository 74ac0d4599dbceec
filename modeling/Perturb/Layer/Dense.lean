/-
  The fully connected layer `W x + b`.

  At a point the layer takes full inner products.  Its recipes skip zero weights, so an input that
  carries no weight into an output is not read there.
-/
import Perturb.Image.Grid
import Perturb.Layer.Recipe
import Perturb.Number.Tensor

namespace Perturb

/-- A matrix with one row per output, and one intercept per output. -/
structure DenseLayer (K : Type) where
  index : Int
  width : Nat
  grid : Option Grid
  weights : List (List K)
  bias : List K
  bias_length : bias.length = weights.length
  row_length : ∀ row ∈ weights, row.length = width
  grid_size : ∀ g ∈ grid, g.size = width

namespace DenseLayer

variable {K : Type} [Scalar K]

/-- The layer of a matrix and its intercepts. -/
def make (index : Int) (weights : Tensor K) (bias : List K) (grid : Option Grid) :
    Outcome (DenseLayer K) :=
  match weights.shape with
  | [_, width] =>
    let rows := weights.rows
    if hb : bias.length = rows.length then
      if hg : ∀ g ∈ grid, g.size = width then
        if hr : ∀ row ∈ rows, row.length = width then
          .ok ⟨index, width, grid, rows, bias, hb, hr, hg⟩
        else .error .raggedNumbers
      else .error (.gridCoverage .dense ((grid.map Grid.extents).getD default) width)
    else .error (.denseShapes weights.shape [bias.length])
  | _ => .error (.denseShapes weights.shape [bias.length])

/-- One row as a recipe: the intercept, plus every input with a weight other than zero. -/
def rowRecipe (row : List K) (b : K) : Recipe K :=
  ⟨b, (row.zipIdx.filter fun (w, _) => !(w == 0)).map fun (w, j) => .addMul j w⟩

/-- The outputs as recipes. -/
def recipes (l : DenseLayer K) : List (Recipe K) := List.zipWith rowRecipe l.weights l.bias

/-- The outputs at a point. -/
def values (l : DenseLayer K) (x : List K) : List K :=
  List.zipWith (fun row b => Scalar.dot row x + b) l.weights l.bias

end DenseLayer

end Perturb
