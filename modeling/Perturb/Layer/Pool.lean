/-
  Pooling over square windows: the maximum and the mean.

  A window of output `(channel, r, c)` is the square that starts at row `r · stride - padding` and
  column `c · stride - padding`, clipped to the image; a layer exists only if no window is empty.

  `MaxPool` picks one cell per window, the first of the largest in scan order.  `AvgPool` adds a
  window up and divides by one of four counts.
-/
import Perturb.Image.Grid
import Perturb.Layer.Recipe

namespace Perturb

/-- What a window depends on. -/
structure PoolShape where
  input : Grid
  kernelDim : Int
  stride : Int
  padding : Int
  roundUp : Bool

namespace PoolShape

/-- The input cells of a window, in scan order. -/
def window (p : PoolShape) (channel r c : Nat) : List Nat :=
  (List.range p.kernelDim.toNat).flatMap fun (i : Nat) =>
    (List.range p.kernelDim.toNat).filterMap fun (j : Nat) =>
      p.input.cell? channel (r * p.stride - p.padding + i) (c * p.stride - p.padding + j)

/-- The windows of all output positions, in order. -/
def windows (p : PoolShape) (output : Grid) : List (List Nat) :=
  output.positions.map fun (channel, r, c) => p.window channel r c

end PoolShape

/-- A pooling geometry in which no window is empty. -/
structure Pooling where
  index : Int
  shape : PoolShape
  output : Grid
  channels_eq : output.channels = shape.input.channels
  filled : ∀ w ∈ shape.windows output, w ≠ []

namespace Pooling

/-- The geometry of an image, a window side, a stride and a padding. -/
def make (K : Type) [Scalar K] (index : Int) (shape : PoolShape) : Outcome Pooling := do
  let rows ← windowCount K shape.kernelDim shape.input.rows shape.stride shape.padding shape.roundUp
  let cols ← windowCount K shape.kernelDim shape.input.cols shape.stride shape.padding shape.roundUp
  let output ← Grid.of shape.input.channels rows cols
  if hc : output.channels = shape.input.channels then
    if hw : ∀ w ∈ shape.windows output, w ≠ [] then .ok ⟨index, shape, output, hc, hw⟩
    else
      match output.positions.find? fun (ch, r, c) => (shape.window ch r c).isEmpty with
      | some (ch, r, c) => .error (.windowInPadding ch r c)
      | none => .error .lengths
  else .error .lengths

/-- The windows in output order. -/
def windows (p : Pooling) : List (List Nat) := p.shape.windows p.output

end Pooling

/-! ## The maximum -/

/-- The first of the largest cells of a window, comparing from the left and moving on only to a
    strictly larger one. -/
def firstLargest {K : Type} [Scalar K] (x : List K) (best : Nat) : List Nat → Nat
  | [] => best
  | i :: rest =>
    let challenger := (x[i]?).getD 0
    let holder := (x[best]?).getD 0
    firstLargest x (if holder < challenger then i else best) rest

/-- A layer that takes the maximum of every window. -/
structure MaxPool where
  pooling : Pooling

namespace MaxPool

variable {K : Type} [Scalar K]

/-- The winning cell of every window. -/
def winners (l : MaxPool) (x : List K) : List Nat :=
  l.pooling.windows.map fun w => firstLargest x (w.headD 0) w.tail

/-- The outputs at a point. -/
def values (l : MaxPool) (x : List K) : List K :=
  (l.winners x).map fun i => (x[i]?).getD 0

end MaxPool

/-! ## The mean -/

/-- A layer that divides the sum of every window by its divisor. -/
structure AvgPool (K : Type) where
  pooling : Pooling
  divisors : List K
  divisor_count : divisors.length = pooling.windows.length

namespace AvgPool

variable {K : Type} [Scalar K]

/-- How far the window at `position` reaches on an axis of `extent` cells extended by the padding
    on the far side. -/
def paddedExtent (p : PoolShape) (position extent : Nat) : Int :=
  let start := position * p.stride - p.padding
  min (start + p.kernelDim) (extent + p.padding) - start

/-- The divisor of every window.  With `includePad` it is the size of the window within the padded
    image; otherwise the number of cells on the image, one more with `legacy`. -/
def countedDivisors (p : Pooling) (legacy includePad : Bool) : List Int :=
  if includePad then
    p.output.positions.map fun (_, r, c) =>
      paddedExtent p.shape r p.shape.input.rows * paddedExtent p.shape c p.shape.input.cols
  else
    p.windows.map fun w => Int.ofNat w.length + (if legacy then 1 else 0)

/-- The layer over a geometry; a divisor given outright replaces the counted ones. -/
def make (pooling : Pooling) (legacy includePad : Bool) (override : Option Int) :
    Outcome (AvgPool K) :=
  match override with
  | some d =>
    if d ≤ 0 then .error (.divisorNotPositive d)
    else
      .ok ⟨pooling, pooling.windows.map fun _ => Scalar.ofInt d, List.length_map ..⟩
  | none =>
    let divisors : List K := (countedDivisors pooling legacy includePad).map Scalar.ofInt
    if h : divisors.length = pooling.windows.length then .ok ⟨pooling, divisors, h⟩
    else .error .lengths

/-- The outputs as recipes: zero, plus every cell of the window, times the inverse divisor. -/
def recipes (l : AvgPool K) : List (Recipe K) :=
  List.zipWith (fun w d => ⟨0, w.map .add ++ [.mul (1 / d)]⟩) l.pooling.windows l.divisors

end AvgPool

end Perturb
