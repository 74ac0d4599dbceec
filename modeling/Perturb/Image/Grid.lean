/-
  Images as flat vectors.

  A `Grid` gives the extents of an image whose cells are numbered channel by channel, row by row.
  `index` turns a position into its number and `channel`, `row`, `col` take a number apart again;
  they are total on all integers, division and remainder rounding down.  `cell?` is the guarded
  form used by every layer that walks over an image: a position off the image has no cell, so no
  negative number ever reaches a vector.

  `windowCount` is the one size rule shared by convolution and pooling.
-/
import Perturb.Scalar
import Perturb.Fault

namespace Perturb

/-- The extents of an image; all three are positive. -/
structure Grid where
  channels : Nat
  rows : Nat
  cols : Nat
  channels_pos : 0 < channels
  rows_pos : 0 < rows
  cols_pos : 0 < cols
  deriving DecidableEq, Repr

namespace Grid

/-- A grid from three integers, which must be positive. -/
def of (channels rows cols : Int) : Outcome Grid :=
  if h : 0 < channels.toNat ∧ 0 < rows.toNat ∧ 0 < cols.toNat then
    .ok ⟨channels.toNat, rows.toNat, cols.toNat, h.1, h.2.1, h.2.2⟩
  else .error (.gridNotPositive ⟨channels, rows, cols⟩)

/-- The extents as plain integers. -/
def extents (g : Grid) : Extents := ⟨g.channels, g.rows, g.cols⟩

/-- The number of cells. -/
def size (g : Grid) : Nat := g.channels * g.rows * g.cols

/-- The number of the cell at a position. -/
def index (g : Grid) (channel row col : Int) : Int :=
  g.rows * g.cols * channel + g.cols * row + col

/-- The channel of a cell number. -/
def channel (g : Grid) (i : Int) : Int := i / (g.rows * g.cols)

/-- The row of a cell number. -/
def row (g : Grid) (i : Int) : Int := i % (g.rows * g.cols) / g.cols

/-- The column of a cell number. -/
def col (g : Grid) (i : Int) : Int := i % g.cols

/-- The position of a cell number. -/
def unravel (g : Grid) (i : Int) : Int × Int × Int := (g.channel i, g.row i, g.col i)

/-- Whether a row and a column lie on the image. -/
def inBounds (g : Grid) (row col : Int) : Bool :=
  0 ≤ row && row < g.rows && 0 ≤ col && col < g.cols

/-- The number of the cell at a position, if row and column lie on the image. -/
def cell? (g : Grid) (channel : Nat) (row col : Int) : Option Nat :=
  if g.inBounds row col then some (g.index channel row col).toNat else none

/-- All positions in the order of their numbers. -/
def positions (g : Grid) : List (Nat × Nat × Nat) :=
  (List.range g.channels).flatMap fun c =>
    (List.range g.rows).flatMap fun r => (List.range g.cols).map fun k => (c, r, k)

/-- The description of a grid. -/
def describe (g : Grid) : String := Fault.gridText g.extents

end Grid

/-- The number of window positions along one axis of `image` cells with `padding` cells added on
    either side: the exact quotient of the free length by the stride, plus one, rounded up or
    down.  A last window that would start inside the trailing padding is dropped. -/
def windowCount (K : Type) [Scalar K] (kernel image stride padding : Int) (roundUp : Bool) :
    Outcome Int :=
  if stride = 0 then .error .zeroDivisor
  else
    let quotient : K :=
      Scalar.ofRat (Rat.div (Rat.ofInt (image + 2 * padding - kernel)) (Rat.ofInt stride)) + 1
    match if roundUp then Scalar.ceil? quotient else Scalar.floor? quotient with
    | none => .error .tooLarge
    | some n => .ok (if (n - 1) * stride ≥ image + padding then n - 1 else n)

end Perturb
