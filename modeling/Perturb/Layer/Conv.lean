/-
  Two-dimensional convolution with square kernels and zero padding.

  There are two ways to the outputs.  `recipes` walks over the kernel at every output position and
  reads only cells on the image.  `values` lists the zero-padded receptive field of every window
  first and then takes inner products with the kernels; the windows it lists are those that fit the
  padded image, of which the last one along an axis may start inside the trailing padding and is
  cut off.
-/
import Perturb.Image.Grid
import Perturb.Layer.Recipe
import Perturb.Number.Tensor

namespace Perturb

/-- Kernels laid out as `(channel, row, column)`, one intercept per kernel. -/
structure ConvLayer (K : Type) where
  index : Int
  input : Grid
  kernel : Grid
  output : Grid
  kernels : List (List K)
  bias : List K
  padding : Int
  stride : Int
  workers : Nat
  kernel_count : kernels.length = output.channels
  bias_length : bias.length = kernels.length
  kernel_length : ∀ w ∈ kernels, w.length = kernel.size

namespace ConvLayer

variable {K : Type} [Scalar K]

/-- The layer of a kernel tensor, whose axes after the first are flattened. -/
def make (index : Int) (input : Grid) (kernels : Tensor K) (bias : List K)
    (kernelDim padding stride workers : Int) : Outcome (ConvLayer K) := do
  let rows ← match kernels.shape with
    | [] => .error .position
    | 0 :: _ => .error .lengths
    | _ => .ok kernels.rows
  let kernel ← Grid.of input.channels kernelDim kernelDim
  if hk : ∀ w ∈ rows, w.length = kernel.size then
    if hb : bias.length = rows.length then
      let outRows ← windowCount K kernelDim input.rows stride padding false
      let outCols ← windowCount K kernelDim input.cols stride padding false
      let output ← Grid.of rows.length outRows outCols
      if hc : rows.length = output.channels then
        .ok ⟨index, input, kernel, output, rows, bias, padding, stride, (max 1 workers).toNat,
          hc, hb, hk⟩
      else .error .lengths
    else .error (.kernelBias rows.length bias.length)
  else .error (.kernelRowLength ((rows.head?.map List.length).getD 0) kernel.size)

/-- The input cell under kernel position `(i, j)` of the window at output position `(r, c)`, if
    it lies on the image. -/
def cell? (l : ConvLayer K) (channel r c i j : Nat) : Option Nat :=
  l.input.cell? channel (r * l.stride - l.padding + i) (c * l.stride - l.padding + j)

/-- One output as a recipe: the intercept, plus every cell of the window that lies on the image
    and carries a weight other than zero. -/
def recipe (l : ConvLayer K) (w : List K) (b : K) (r c : Nat) : Recipe K :=
  ⟨b, (List.zip l.kernel.positions w).filterMap fun ((channel, i, j), weight) =>
    match l.cell? channel r c i j with
    | some cell => if weight == 0 then none else some (.addMul cell weight)
    | none => none⟩

/-- The outputs as recipes, kernel by kernel, row by row. -/
def recipes (l : ConvLayer K) : List (Recipe K) :=
  (List.zip l.kernels l.bias).flatMap fun (w, b) =>
    (List.range l.output.rows).flatMap fun r =>
      (List.range l.output.cols).map fun c => l.recipe w b r c

/-- The zero-padded receptive field of the window at `(r, c)`, in kernel order. -/
def field (l : ConvLayer K) (x : List K) (r c : Nat) : List K :=
  l.kernel.positions.map fun (channel, i, j) =>
    ((l.cell? channel r c i j).bind fun cell => x[cell]?).getD 0

/-- How many windows fit along an axis of the padded image. -/
def fitting (l : ConvLayer K) (extent : Nat) : Nat :=
  (Int.fdiv (extent + 2 * l.padding - l.kernel.rows) l.stride + 1).toNat

/-- The receptive fields of all windows that fit, cut down to the output positions. -/
def fields (l : ConvLayer K) (x : List K) : List (List K) :=
  (((List.range (l.fitting l.input.rows)).map fun r =>
    ((List.range (l.fitting l.input.cols)).map fun c => l.field x r c).take l.output.cols).take
      l.output.rows).flatten

/-- The outputs at a point.  Receptive fields exist only for a positive stride and a padding that
    is not negative. -/
def values (l : ConvLayer K) (x : List K) : Outcome (List K) :=
  if l.stride ≤ 0 || l.padding < 0 then .error .tensorGeometry
  else
    let fields := l.fields x
    .ok ((List.zip l.kernels l.bias).flatMap fun (w, b) =>
      fields.map fun field => Scalar.dot w field + b)

end ConvLayer

end Perturb
