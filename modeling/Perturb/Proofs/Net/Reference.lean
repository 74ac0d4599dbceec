/-
  What modules mean.

  The meaning of a module is said on vectors and pictures, by the formula it is documented with and
  without any notion that layers are made of: no cell has a number, no weight is skipped, no window
  is listed.  A module that does not apply to what it is given, or that is set up in a way it does
  not allow, has no meaning there.

    * a linear module maps a vector to `W x + b`;
    * a convolution is the zero-padded cross-correlation, on `⌊(n + 2p - k) / s⌋ + 1` positions along
      an axis;
    * pooling takes the maximum, or the sum over a divisor, of the cells of a window that lie on the
      picture; the grid is rounded down or up, and rounded up it has no window that starts inside
      the trailing padding;
    * the rectifier works on every value, `flatten` lists a picture channel by channel, row by row,
      and the identity does nothing.
-/
import Perturb.Proofs.Image.Picture
import Perturb.Net.Modules

namespace Perturb

/-! ## Shapes -/

/-- The extents along rows and columns that one or two numbers stand for. -/
def sides? : List Int → Option (Int × Int)
  | [side] => some (side, side)
  | [rows, cols] => some (rows, cols)
  | _ => none

/-- The cell of a tensor at a position; the last index runs fastest. -/
def Tensor.entry (t : Tensor Rat) (position : List Nat) : Rat :=
  (t.cells[(List.zip t.shape position).foldl (fun n (extent, i) => n * extent + i) 0]?).getD 0

/-- The intercept of an output, zero where none is given. -/
def biasAt (bias : Option (List Rat)) (o : Nat) : Rat :=
  match bias with
  | some b => (b[o]?).getD 0
  | none => 0

/-- How windows lie along one axis. -/
structure Axis where
  kernel : Int
  stride : Int
  padding : Int

namespace Axis

/-- A window side and a stride of at least one, and a padding that is not negative. -/
def Regular (a : Axis) : Prop := 1 ≤ a.kernel ∧ 1 ≤ a.stride ∧ 0 ≤ a.padding

instance (a : Axis) : Decidable a.Regular := inferInstanceAs (Decidable (_ ∧ _ ∧ _))

theorem Regular.stride_pos {a : Axis} (h : a.Regular) : 0 < a.stride := by
  have := h.2.1
  omega

/-- Where window `o` starts; it is negative while the window reaches into the leading padding. -/
def start (a : Axis) (o : Nat) : Int := o * a.stride - a.padding

/-- The number of windows on `n` cells, rounded down. -/
def count (a : Axis) (n : Nat) : Int := (n + 2 * a.padding - a.kernel) / a.stride + 1

/-- The number of windows on `n` cells, rounded up; a last window that would start inside the
    trailing padding is left out. -/
def countUp (a : Axis) (n : Nat) : Int :=
  let m := (n + 2 * a.padding - a.kernel + (a.stride - 1)) / a.stride + 1
  if n + a.padding ≤ (m - 1) * a.stride then m - 1 else m

/-- How many cells of window `o` lie on the axis padded on both sides. -/
def covered (a : Axis) (n o : Nat) : Nat :=
  (List.range a.kernel.toNat).countP fun (i : Nat) => a.start o + i < n + a.padding

end Axis

/-! ## Convolution -/

/-- The zero-padded cross-correlation. -/
def ConvModule.correlate? (m : ConvModule Rat) (x : Picture) : Option Picture :=
  match m.weight.shape, m.padding with
  | [count, channels, height, width], .extents padding => do
    let (strideRows, strideCols) ← sides? m.stride
    let (padRows, padCols) ← sides? padding
    let rows : Axis := ⟨height, strideRows, padRows⟩
    let cols : Axis := ⟨width, strideCols, padCols⟩
    if rows.Regular ∧ cols.Regular ∧ channels = x.grid.channels ∧
        sides? m.dilation = some (1, 1) ∧ m.groups = 1 ∧ m.paddingMode = "zeros" then do
      let grid ← (Grid.of count (rows.count x.grid.rows) (cols.count x.grid.cols)).toOption
      some ⟨grid, fun o r c =>
        (∑ ch ∈ Finset.range channels, ∑ i ∈ Finset.range height, ∑ j ∈ Finset.range width,
          m.weight.entry [o, ch, i, j] *
            (x.at? ch (rows.start r + i) (cols.start c + j)).getD 0) + biasAt m.bias o⟩
    else none
  | _, _ => none

/-- The padding of a convolution is smaller than its kernel. -/
def ConvModule.Narrow (m : ConvModule Rat) : Prop :=
  ∀ sides, m.padding = .extents sides → ∀ p ∈ sides, ∀ k ∈ m.weight.shape.drop 2, p < (k : Int)

/-! ## Pooling -/

namespace PoolModule

/-- How the windows of a pooling module lie along rows and columns.  At most half of a window may
    be padding, so that no window misses the picture. -/
def axes? (m : PoolModule) : Option (Axis × Axis) := do
  let (kernelRows, kernelCols) ← sides? m.kernel
  let (strideRows, strideCols) ← sides? (m.stride.getD m.kernel)
  let (padRows, padCols) ← sides? m.padding
  let rows : Axis := ⟨kernelRows, strideRows, padRows⟩
  let cols : Axis := ⟨kernelCols, strideCols, padCols⟩
  if rows.Regular ∧ cols.Regular ∧ 2 * padRows ≤ kernelRows ∧ 2 * padCols ≤ kernelCols then
    some (rows, cols)
  else none

/-- The grid of the outputs. -/
def grid? (m : PoolModule) (rows cols : Axis) (g : Grid) : Option Grid :=
  let count := fun (a : Axis) n => if m.ceilMode then a.countUp n else a.count n
  (Grid.of g.channels (count rows g.rows) (count cols g.cols)).toOption

/-- The values of a picture in the window at an output position. -/
def window (x : Picture) (rows cols : Axis) (channel r c : Nat) : List Rat :=
  (List.range rows.kernel.toNat).flatMap fun (i : Nat) =>
    (List.range cols.kernel.toNat).filterMap fun (j : Nat) =>
      x.at? channel (rows.start r + i) (cols.start c + j)

/-- The maximum of every window. -/
def max? (m : PoolModule) (x : Picture) : Option Picture := do
  let (rows, cols) ← m.axes?
  if sides? m.dilation = some (1, 1) then do
    let grid ← m.grid? rows cols x.grid
    some ⟨grid, fun ch r c => ((window x rows cols ch r c).max?).getD 0⟩
  else none

/-- What the sum of a window is divided by: the given divisor, or the cells of the window on the
    padded picture, or those on the picture itself. -/
def divisor (m : PoolModule) (x : Picture) (rows cols : Axis) (channel r c : Nat) : Rat :=
  match m.divisorOverride with
  | some d => d
  | none =>
    if m.countIncludePad then rows.covered x.grid.rows r * cols.covered x.grid.cols c
    else (window x rows cols channel r c).length

/-- The mean of every window. -/
def mean? (m : PoolModule) (x : Picture) : Option Picture := do
  let (rows, cols) ← m.axes?
  if m.divisorOverride ≠ some 0 then do
    let grid ← m.grid? rows cols x.grid
    some ⟨grid, fun ch r c =>
      (window x rows cols ch r c).sum / m.divisor x rows cols ch r c⟩
  else none

end PoolModule

/-! ## Modules -/

/-- What flows between modules. -/
inductive Signal where
  | vector (xs : List Rat)
  | picture (p : Picture)

namespace Signal

/-- The values in order. -/
def values : Signal → List Rat
  | .vector xs => xs
  | .picture p => p.cells

/-- The image the values form, if they do. -/
def grid? : Signal → Option Grid
  | .vector _ => none
  | .picture p => some p.grid

/-- A signal with a function applied to every value. -/
def map (f : Rat → Rat) : Signal → Signal
  | .vector xs => .vector (xs.map f)
  | .picture p => .picture (p.map f)

theorem values_map (f : Rat → Rat) (s : Signal) : (s.map f).values = s.values.map f := by
  cases s with
  | vector xs => rfl
  | picture p => exact p.cells_map f

theorem grid?_map (f : Rat → Rat) (s : Signal) : (s.map f).grid? = s.grid? := by
  cases s <;> rfl

end Signal

/-- `W x + b`. -/
def linear? (weight : Tensor Rat) (bias : Option (List Rat)) (xs : List Rat) :
    Option (List Rat) :=
  match weight.shape with
  | [count, width] =>
    if width = xs.length then
      some ((List.range count).map fun o =>
        (∑ j ∈ Finset.range width, weight.entry [o, j] * (xs[j]?).getD 0) + biasAt bias o)
    else none
  | _ => none

/-- What a module makes of a signal. -/
def Module.meaning? (m : Module Rat) (s : Signal) : Option Signal :=
  match m, s with
  | .linear weight bias, .vector xs => (linear? weight bias xs).map .vector
  | .conv m, .picture p => (m.correlate? p).map .picture
  | .maxPool m, .picture p => (m.max? p).map .picture
  | .avgPool m, .picture p => (m.mean? p).map .picture
  | .relu, s => some (s.map fun a => max a 0)
  | .flatten, s => some (.vector s.values)
  | .identity, s => some s
  | _, _ => none

/-! ## Inputs -/

/-- The square of a side in the middle of every channel. -/
def Picture.centre? (p : Picture) (side : Int) : Option Picture := do
  let grid ← (Grid.of p.grid.channels side side).toOption
  if grid.rows ≤ p.grid.rows ∧ grid.cols ≤ p.grid.cols then
    some ⟨grid, fun ch r c =>
      p.pixel ch (p.grid.rows / 2 - grid.rows / 2 + r) (p.grid.cols / 2 - grid.cols / 2 + c)⟩
  else none

namespace ConversionPlan

/-- The part of a picture that is looked at. -/
def cropped? (plan : ConversionPlan Rat) (p : Picture) : Option Picture :=
  match plan.crop with
  | none => some p
  | some side => p.centre? side

/-- A picture with every value scaled. -/
def scaled (plan : ConversionPlan Rat) (p : Picture) : Picture :=
  match plan.scale with
  | none => p
  | some factor => p.map (· * factor)

/-- The input as the first module sees it: read as a picture, cropped and scaled as planned, or,
    without a shape, as the vector it is. -/
def input? (plan : ConversionPlan Rat) (x : List Rat) : Option Signal :=
  match plan.shape with
  | none => some (.vector x)
  | some e => do
    let grid ← (Grid.of e.channels e.rows e.cols).toOption
    if x.length = grid.size then
      (plan.cropped? (Picture.ofCells grid x)).map fun p => .picture (plan.scaled p)
    else none

/-- What modules, one after the other, make of an input. -/
def meaning? (plan : ConversionPlan Rat) (modules : List (Module Rat)) (x : List Rat) :
    Option Signal := do
  let s ← plan.input? x
  modules.foldlM (fun s m => m.meaning? s) s

end ConversionPlan

end Perturb
