/-
  The centred crop of an image.

  `cells` lists, in the order of the cropped image, which cells of the full image it consists of.
  Everything else is reading and writing at these places: `recipes` and `take` read them, `paste`
  writes a cropped image back and leaves all other cells alone.
-/
import Perturb.Image.Grid
import Perturb.Layer.Recipe

namespace Perturb

/-- A square of side `size` in the middle of every channel. -/
structure Crop where
  image : Grid
  size : Nat
  size_pos : 0 < size
  size_le_rows : size ≤ image.rows
  size_le_cols : size ≤ image.cols

namespace Crop

/-- The crop of a side, which must fit the image. -/
def make (image : Grid) (size : Int) : Outcome Crop :=
  if h : 0 < size.toNat ∧ size.toNat ≤ image.rows ∧ size.toNat ≤ image.cols then
    .ok ⟨image, size.toNat, h.1, h.2.1, h.2.2⟩
  else .error (.cropTooLarge size image.extents)

/-- The grid of the cropped image. -/
def output (c : Crop) : Grid :=
  ⟨c.image.channels, c.size, c.size, c.image.channels_pos, c.size_pos, c.size_pos⟩

/-- The first row of the crop. -/
def top (c : Crop) : Nat := c.image.rows / 2 - c.size / 2

/-- The first column of the crop. -/
def left (c : Crop) : Nat := c.image.cols / 2 - c.size / 2

/-- The number of cells of the full image. -/
def inDim (c : Crop) : Nat := c.image.size

/-- The number of cells of the cropped image. -/
def outDim (c : Crop) : Nat := c.output.size

/-- The cells of the full image that the cropped image consists of, in order. -/
def cells (c : Crop) : List Nat :=
  c.output.positions.map fun (channel, r, k) =>
    (c.image.index channel (Int.ofNat (c.top + r)) (Int.ofNat (c.left + k))).toNat

/-- The cropped image as recipes. -/
def recipes (K : Type) [Scalar K] (c : Crop) : List (Recipe K) :=
  c.cells.map fun i => ⟨0, [.add i]⟩

/-- The cropped image. -/
def take {K : Type} [Scalar K] (c : Crop) (x : List K) : Outcome (List K) :=
  if x.length = c.inDim then .ok (c.cells.map fun i => (x[i]?).getD 0)
  else .error (.cropLength c.inDim x.length)

/-- Writes values at places, one after the other. -/
def write {K : Type} (image : List K) (places : List Nat) (values : List K) : List K :=
  (List.zip places values).foldl (fun xs (i, v) => xs.set i v) image

/-- The full image with the crop replaced. -/
def paste {K : Type} (c : Crop) (image patch : List K) : Outcome (List K) :=
  if patch.length = c.outDim then
    if c.cells.all (· < image.length) then .ok (write image c.cells patch)
    else .error .position
  else .error (.uncropLength c.outDim patch.length)

end Crop

end Perturb
