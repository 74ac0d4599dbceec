/-
  The rectifier: every input that is at least zero passes, every other becomes zero.

  A value that is not a number is not at least zero, so it becomes zero as well.
-/
import Perturb.Image.Grid
import Perturb.Layer.Trace

namespace Perturb

/-- A rectifier of `size` units. -/
structure Relu where
  index : Int
  size : Nat
  grid : Option Grid
  grid_size : ∀ g ∈ grid, g.size = size

namespace Relu

/-- The layer of a size; a grid must have as many cells. -/
def make (index : Int) (size : Nat) (grid : Option Grid) : Outcome Relu :=
  if h : ∀ g ∈ grid, g.size = size then .ok ⟨index, size, grid, h⟩
  else .error (.gridCoverage .relu ((grid.map Grid.extents).getD default) size)

variable {K : Type} [Scalar K]

/-- Which units pass their input. -/
def activity (x : List K) : List Bool := x.map fun a => decide (0 ≤ a)

/-- The recorded sides. -/
def choices (x : List K) : List Choice :=
  (activity x).map fun on => if on then .active else .inactive

/-- The outputs at a point. -/
def values (x : List K) : List K := x.map fun a => if 0 ≤ a then a else 0

end Relu

end Perturb
