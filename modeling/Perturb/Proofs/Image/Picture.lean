/-
  Images as functions of positions, against images as flat vectors.

  A `Picture` gives a value for every position of a grid.  Nothing in it knows how cells are
  numbered, so what modules mean can be said on pictures as it is said on paper.  Layers work on
  `cells`, the values listed channel by channel, row by row; the numbering is crossed here, once:

    * the listing of positions has the position `(c, r, k)` at the place `(c · rows + r) · cols + k`
      (`Grid.getElem?_positions`);
    * hence a vector read as a picture and listed again is the same vector (`cells_ofCells`), and
      looking up a guarded cell number in the listing is looking at the picture (`map_cell?`);
    * a sum over the positions is a threefold sum (`Grid.sum_positions`).
-/
import Perturb.Proofs.Net.Crop

namespace Perturb

/-- In a list of pieces of one length, an entry is found by its piece and its place there. -/
theorem getElem?_flatMap_range {α : Type} {f : Nat → List α} {count width i j : Nat}
    (hwidth : ∀ i < count, (f i).length = width) (hi : i < count) (hj : j < width) :
    ((List.range count).flatMap f)[i * width + j]? = (f i)[j]? := by
  induction count with
  | zero => omega
  | succ count ih =>
    have hbefore : ((List.range count).flatMap f).length = count * width := by
      rw [List.length_flatMap, List.map_congr_left fun a ha =>
        hwidth a (by have := List.mem_range.1 ha; omega)]
      simp
    rw [List.range_succ, List.flatMap_append, List.flatMap_singleton]
    rcases Nat.lt_or_ge i count with hlt | hge
    · have hin : i * width + j < count * width :=
        calc i * width + j < (i + 1) * width := by rw [Nat.add_mul]; omega
          _ ≤ count * width := Nat.mul_le_mul_right _ hlt
      rw [List.getElem?_append_left (by omega)]
      exact ih (fun a ha => hwidth a (by omega)) hlt
    · have heq : i = count := by omega
      subst heq
      rw [List.getElem?_append_right (by omega), hbefore, Nat.add_sub_cancel_left]

namespace Grid

/-- The smallest grid that has a position. -/
def upTo (channel row col : Nat) : Grid :=
  ⟨channel + 1, row + 1, col + 1, Nat.succ_pos channel, Nat.succ_pos row, Nat.succ_pos col⟩

/-- A grid is made from its extents. -/
theorem of_extents (g : Grid) : Grid.of g.channels g.rows g.cols = .ok g := by
  obtain ⟨c, r, k, hc, hr, hk⟩ := g
  unfold Grid.of
  rw [dif_pos (by simp only [Int.toNat_natCast]; exact ⟨hc, hr, hk⟩)]
  simp only [Int.toNat_natCast]

/-- The place of a position in the listing of all positions. -/
theorem getElem?_positions {g : Grid} {c r k : Nat} (hc : c < g.channels) (hr : r < g.rows)
    (hk : k < g.cols) : g.positions[(c * g.rows + r) * g.cols + k]? = some (c, r, k) := by
  have hplace : (c * g.rows + r) * g.cols + k = c * (g.rows * g.cols) + (r * g.cols + k) := by
    ring
  have hline : r * g.cols + k < g.rows * g.cols :=
    calc r * g.cols + k < (r + 1) * g.cols := by rw [Nat.add_mul]; omega
      _ ≤ g.rows * g.cols := Nat.mul_le_mul_right _ hr
  have hrow : ∀ r < g.rows,
      ((List.range g.cols).map fun k => (c, r, k)).length = g.cols := by
    intro r _
    rw [List.length_map, List.length_range]
  have hchannel : ∀ c < g.channels, ((List.range g.rows).flatMap fun r =>
      (List.range g.cols).map fun k => (c, r, k)).length = g.rows * g.cols := by
    intro c _
    simp [List.length_flatMap]
  rw [hplace]
  unfold positions
  rw [getElem?_flatMap_range hchannel hc hline, getElem?_flatMap_range hrow hr hk,
    List.getElem?_map, List.getElem?_range hk]
  rfl

/-- A place in the listing is the number of its position. -/
theorem number_getElem {g : Grid} {i : Nat} (hi : i < g.positions.length) :
    (g.positions[i].1 * g.rows + g.positions[i].2.1) * g.cols + g.positions[i].2.2 = i := by
  obtain ⟨hc, hr, hk⟩ := mem_positions_iff.1 (List.getElem_mem hi)
  have hfound := getElem?_positions hc hr hk
  rw [List.getElem?_eq_some_iff] at hfound
  obtain ⟨hlt, hat⟩ := hfound
  exact (g.nodup_positions.getElem_inj_iff).1 hat

/-- The number of a position with integers that are not negative. -/
theorem toNat_index_of_nonneg (g : Grid) (c : Nat) {row col : Int} (hr : 0 ≤ row) (hc : 0 ≤ col) :
    (g.index c row col).toNat = (c * g.rows + row.toNat) * g.cols + col.toNat := by
  have hrow : row = Int.ofNat row.toNat := (Int.toNat_of_nonneg hr).symm
  have hcol : col = Int.ofNat col.toNat := (Int.toNat_of_nonneg hc).symm
  rw [hrow, hcol, toNat_index, Int.ofNat_eq_natCast, Int.ofNat_eq_natCast, Int.toNat_natCast,
    Int.toNat_natCast]
  ring

/-- A sum over all positions, axis by axis. -/
theorem sum_positions (g : Grid) (f : Nat → Nat → Nat → Rat) :
    (g.positions.map fun (c, r, k) => f c r k).sum =
      ∑ c ∈ Finset.range g.channels, ∑ r ∈ Finset.range g.rows, ∑ k ∈ Finset.range g.cols,
        f c r k := by
  have hrange : ∀ (n : Nat) (h : Nat → Rat),
      ((List.range n).map h).sum = ∑ i ∈ Finset.range n, h i := by
    intro n h
    rfl
  have hpieces : ∀ (n : Nat) (h : Nat → List Rat),
      ((List.range n).flatMap h).sum = ∑ i ∈ Finset.range n, (h i).sum := by
    intro n h
    rw [List.flatMap_def, List.sum_flatten, List.map_map]
    rfl
  unfold positions
  simp only [List.map_flatMap, hpieces, List.map_map, Function.comp_def, hrange]

end Grid

/-! ## Pictures -/

/-- A value for every position of a grid. -/
structure Picture where
  grid : Grid
  pixel : Nat → Nat → Nat → Rat

namespace Picture

/-- The values channel by channel, row by row. -/
def cells (p : Picture) : List Rat := p.grid.positions.map fun (c, r, k) => p.pixel c r k

/-- A flat vector read as a picture. -/
def ofCells (g : Grid) (xs : List Rat) : Picture :=
  ⟨g, fun c r k => (xs[(c * g.rows + r) * g.cols + k]?).getD 0⟩

/-- The value at a row and a column, if they lie on the picture. -/
def at? (p : Picture) (channel : Nat) (row col : Int) : Option Rat :=
  if 0 ≤ row ∧ row < p.grid.rows ∧ 0 ≤ col ∧ col < p.grid.cols then
    some (p.pixel channel row.toNat col.toNat)
  else none

/-- A picture with a function applied to every value. -/
def map (f : Rat → Rat) (p : Picture) : Picture := ⟨p.grid, fun c r k => f (p.pixel c r k)⟩

@[simp] theorem length_cells (p : Picture) : p.cells.length = p.grid.size := by
  unfold cells
  rw [List.length_map, Grid.length_positions]

/-- Only the values on the grid are listed. -/
theorem cells_congr {g : Grid} {pixel pixel' : Nat → Nat → Nat → Rat}
    (h : ∀ c r k, c < g.channels → r < g.rows → k < g.cols → pixel c r k = pixel' c r k) :
    (Picture.mk g pixel).cells = (Picture.mk g pixel').cells := by
  apply List.map_congr_left
  rintro ⟨c, r, k⟩ hp
  obtain ⟨hc, hr, hk⟩ := Grid.mem_positions_iff.1 hp
  exact h c r k hc hr hk

/-- The listing, axis by axis. -/
theorem cells_mk (g : Grid) (pixel : Nat → Nat → Nat → Rat) :
    (Picture.mk g pixel).cells = (List.range g.channels).flatMap fun c =>
      (List.range g.rows).flatMap fun r => (List.range g.cols).map fun k => pixel c r k := by
  unfold cells Grid.positions
  simp only [List.map_flatMap, List.map_map, Function.comp_def]

theorem cells_map (f : Rat → Rat) (p : Picture) : (p.map f).cells = p.cells.map f := by
  unfold cells
  rw [List.map_map]
  rfl

/-- A value is found at the number of its position. -/
theorem getElem?_cells (p : Picture) {c r k : Nat} (hc : c < p.grid.channels)
    (hr : r < p.grid.rows) (hk : k < p.grid.cols) :
    p.cells[(c * p.grid.rows + r) * p.grid.cols + k]? = some (p.pixel c r k) := by
  unfold cells
  rw [List.getElem?_map, Grid.getElem?_positions hc hr hk]
  rfl

/-- **Reading and listing.**  A vector read as a picture and listed again is the same vector. -/
theorem cells_ofCells {g : Grid} {xs : List Rat} (h : xs.length = g.size) :
    (ofCells g xs).cells = xs := by
  unfold cells ofCells
  apply List.ext_getElem
  · rw [List.length_map, Grid.length_positions, h]
  · intro i h₁ h₂
    rw [List.getElem_map]
    have hi : i < g.positions.length := by rwa [List.length_map] at h₁
    show (xs[(g.positions[i].1 * g.rows + g.positions[i].2.1) * g.cols +
      g.positions[i].2.2]?).getD 0 = xs[i]
    rw [Grid.number_getElem hi, List.getElem?_eq_getElem h₂]
    rfl

/-- **Looking up a guarded cell.**  A position has a cell if it lies on the picture, and what a
    layer finds under its number is the value of the picture there. -/
theorem map_cell? (p : Picture) {channel : Nat} (hc : channel < p.grid.channels) (row col : Int) :
    (p.grid.cell? channel row col).map (fun i => (p.cells[i]?).getD 0) = p.at? channel row col := by
  unfold Grid.cell? at?
  by_cases h : 0 ≤ row ∧ row < p.grid.rows ∧ 0 ≤ col ∧ col < p.grid.cols
  · rw [if_pos (p.grid.inBounds_iff.2 h), if_pos h, Option.map_some,
      Grid.toNat_index_of_nonneg _ _ h.1 h.2.2.1, p.getElem?_cells hc (by omega) (by omega)]
    rfl
  · rw [if_neg (mt p.grid.inBounds_iff.1 h), if_neg h]
    rfl

/-- Off the picture both are zero. -/
theorem lookup_cell? (p : Picture) {channel : Nat} (hc : channel < p.grid.channels)
    (row col : Int) :
    ((p.grid.cell? channel row col).bind fun i => p.cells[i]?).getD 0 =
      (p.at? channel row col).getD 0 := by
  rw [← p.map_cell? hc]
  cases p.grid.cell? channel row col <;> rfl

end Picture

end Perturb
