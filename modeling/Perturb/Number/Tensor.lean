/-
  Arrays of numbers with a shape.

  Parameters arrive nested to any depth.  A `Tensor` keeps the shape and the cells in order; layers
  look at the shape first and then take the cells apart by rows.
-/
import Perturb.Fault

namespace Perturb

/-- Cells in order, with the extents of every axis.  No axis means a single number. -/
structure Tensor (K : Type) where
  shape : List Nat
  cells : List K
  deriving Inhabited, Repr

namespace Tensor

variable {K : Type}

/-- A single number. -/
def scalar (x : K) : Tensor K := ⟨[], [x]⟩

/-- A list of numbers. -/
def vector (xs : List K) : Tensor K := ⟨[xs.length], xs⟩

/-- Tensors of one shape side by side along a new first axis. -/
def stack (parts : List (Tensor K)) : Outcome (Tensor K) :=
  match parts with
  | [] => .ok ⟨[0], []⟩
  | first :: _ =>
    if parts.all fun t => t.shape == first.shape then
      .ok ⟨parts.length :: first.shape, parts.flatMap (·.cells)⟩
    else .error .raggedNumbers

/-- Cuts a list into `count` pieces of one length. -/
def pieces (xs : List K) (length : Nat) : Nat → List (List K)
  | 0 => []
  | count + 1 => xs.take length :: pieces (xs.drop length) length count

/-- The cells under each index of the first axis. -/
def rows (t : Tensor K) : List (List K) :=
  match t.shape with
  | [] => [t.cells]
  | count :: rest => pieces t.cells (rest.foldl (· * ·) 1) count

end Tensor

end Perturb
