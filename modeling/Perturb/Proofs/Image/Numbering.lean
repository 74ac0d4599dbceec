/-
  The numbering of the cells of an image.

  A position is a channel, a row and a column; its number counts whole planes, whole lines and
  cells.  Nothing here asks a channel to exist: every integer is the number of a position, on a
  plane below zero if it is negative, because division and remainder round down.

  1. **A plane** — a row and a column on the image take up fewer than a plane (`Grid.line_add_lt`).
     This one bound is what both directions and the order of the channels need.

  2. **There and back** — the parts of a number give it back (`Grid.index_parts`), where the column
     may be taken off the number itself because a plane is made of whole lines; and the number of a
     position gives back its parts (`channel_index`, `row_index`, `col_index`).

  3. **Order** — earlier channels, rows and columns have smaller numbers (`Grid.index_strictMono`).
-/
import Mathlib.Tactic.Linarith
import Mathlib.Tactic.Ring
import Perturb.Image.Grid

namespace Perturb

namespace Grid

/-! ## Grids from extents -/

/-- A grid made from three integers has these extents. -/
theorem of_ok {a b c : Int} {g : Grid} (h : Grid.of a b c = .ok g) :
    (g.channels : Int) = a ∧ (g.rows : Int) = b ∧ (g.cols : Int) = c := by
  unfold Grid.of at h
  split at h
  · rename_i hpos
    cases h
    obtain ⟨h₁, h₂, h₃⟩ := hpos
    refine ⟨?_, ?_, ?_⟩
    · exact Int.toNat_of_nonneg (by omega)
    · exact Int.toNat_of_nonneg (by omega)
    · exact Int.toNat_of_nonneg (by omega)
  · cases h

/-- A grid exists exactly if its extents are positive. -/
theorem of_eq_error {a b c : Int} (h : ¬ (1 ≤ a ∧ 1 ≤ b ∧ 1 ≤ c)) :
    Grid.of a b c = .error (.gridNotPositive ⟨a, b, c⟩) := by
  unfold Grid.of
  rw [dif_neg (by omega)]

theorem of_succeeds {a b c : Int} (h : 1 ≤ a ∧ 1 ≤ b ∧ 1 ≤ c) : ∃ g, Grid.of a b c = .ok g := by
  unfold Grid.of
  rw [dif_pos (by omega)]
  exact ⟨_, rfl⟩

variable (g : Grid)

theorem cast_cols_pos : (0 : Int) < g.cols := Int.ofNat_lt.2 g.cols_pos

/-- A plane has cells. -/
theorem plane_pos : (0 : Int) < g.rows * g.cols :=
  Int.mul_pos (Int.ofNat_lt.2 g.rows_pos) g.cast_cols_pos

theorem inBounds_iff {row col : Int} :
    g.inBounds row col = true ↔ 0 ≤ row ∧ row < g.rows ∧ 0 ≤ col ∧ col < g.cols := by
  simp [inBounds, and_assoc]

/-! ## From a number to its position -/

/-- The parts of a number give it back. -/
theorem index_parts (i : Int) : g.index (g.channel i) (g.row i) (g.col i) = i := by
  -- a plane is made of whole lines, so the column is the same on the plane
  have hcol : i % (g.rows * g.cols) % g.cols = i % g.cols :=
    Int.emod_emod_of_dvd i (Int.dvd_mul_left _ _)
  unfold index channel row col
  calc (g.rows * g.cols * (i / (g.rows * g.cols)) + g.cols * (i % (g.rows * g.cols) / g.cols) +
        i % g.cols : Int)
      = g.rows * g.cols * (i / (g.rows * g.cols)) +
          (g.cols * (i % (g.rows * g.cols) / g.cols) + i % (g.rows * g.cols) % g.cols) := by
        rw [hcol, Int.add_assoc]
    _ = g.rows * g.cols * (i / (g.rows * g.cols)) + i % (g.rows * g.cols) := by
        rw [Int.mul_ediv_add_emod]
    _ = i := Int.mul_ediv_add_emod i _

/-- Row and column of a number lie on the image. -/
theorem inBounds_parts (i : Int) : g.inBounds (g.row i) (g.col i) = true := by
  have hplane := g.plane_pos
  have hcols := g.cast_cols_pos
  refine g.inBounds_iff.2 ⟨?_, ?_, Int.emod_nonneg _ hcols.ne', Int.emod_lt_of_pos _ hcols⟩
  · exact Int.ediv_nonneg (Int.emod_nonneg _ hplane.ne') hcols.le
  · exact Int.ediv_lt_of_lt_mul hcols (Int.emod_lt_of_pos _ hplane)

/-- The channel of a number exists exactly if the number is that of a cell. -/
theorem channel_mem_iff (i : Int) :
    (0 ≤ g.channel i ∧ g.channel i < g.channels) ↔ 0 ≤ i ∧ i < g.size := by
  have hplane := g.plane_pos
  have hsize : (g.size : Int) = g.channels * (g.rows * g.cols) := by
    unfold size
    push_cast
    ring
  unfold channel
  rw [Int.le_ediv_iff_mul_le hplane, Int.zero_mul, Int.ediv_lt_iff_lt_mul hplane, hsize]

variable {g} {channel channel' row row' col col' : Int}

/-! ## From a position to its number -/

/-- Rows before a row on the image, and a column, make up less than a plane. -/
theorem line_add_lt (hrow : row < g.rows) (hcol : col < g.cols) :
    g.cols * row + col < g.rows * g.cols := by
  have hline : (g.cols : Int) * (row + 1) ≤ g.cols * g.rows :=
    Int.mul_le_mul_of_nonneg_left hrow (Int.natCast_nonneg _)
  rw [Int.mul_comm (g.rows : Int)]
  linarith

theorem line_add_nonneg (hrow : 0 ≤ row) (hcol : 0 ≤ col) : 0 ≤ g.cols * row + col :=
  Int.add_nonneg (Int.mul_nonneg (Int.natCast_nonneg _) hrow) hcol

/-- A number is a place on a plane, and whole planes. -/
theorem index_eq_plane (channel row col : Int) :
    g.index channel row col = g.cols * row + col + g.rows * g.cols * channel := by
  unfold index
  ring

/-- The channel of the number of a position. -/
theorem channel_index (hrow : 0 ≤ row ∧ row < g.rows) (hcol : 0 ≤ col ∧ col < g.cols) :
    g.channel (g.index channel row col) = channel := by
  have hpos : 0 ≤ g.cols * row + col := line_add_nonneg hrow.1 hcol.1
  have hlt := line_add_lt hrow.2 hcol.2
  unfold Grid.channel
  rw [index_eq_plane, Int.add_mul_ediv_left _ _ g.plane_pos.ne', Int.ediv_eq_zero_of_lt hpos hlt,
    Int.zero_add]

/-- The row of the number of a position. -/
theorem row_index (hrow : 0 ≤ row ∧ row < g.rows) (hcol : 0 ≤ col ∧ col < g.cols) :
    g.row (g.index channel row col) = row := by
  have hpos : 0 ≤ g.cols * row + col := line_add_nonneg hrow.1 hcol.1
  have hlt := line_add_lt hrow.2 hcol.2
  unfold Grid.row
  rw [index_eq_plane, Int.add_mul_emod_self_left, Int.emod_eq_of_lt hpos hlt, Int.add_comm,
    Int.add_mul_ediv_left _ _ g.cast_cols_pos.ne', Int.ediv_eq_zero_of_lt hcol.1 hcol.2,
    Int.zero_add]

/-- The column of the number of a position. -/
theorem col_index (hcol : 0 ≤ col ∧ col < g.cols) : g.col (g.index channel row col) = col := by
  unfold Grid.col index
  have hsplit : g.rows * g.cols * channel + g.cols * row + col =
      col + g.cols * (g.rows * channel + row) := by ring
  rw [hsplit, Int.add_mul_emod_self_left, Int.emod_eq_of_lt hcol.1 hcol.2]

/-! ## Order -/

/-- In a channel, the cells of a row come before those of a later one. -/
theorem index_lt_of_row_lt (hrow : row < row') (hcol : col < g.cols) (hcol' : 0 ≤ col') :
    g.index channel row col < g.index channel row' col' := by
  have hline : (g.cols : Int) * (row + 1) ≤ g.cols * row' :=
    Int.mul_le_mul_of_nonneg_left hrow (Int.natCast_nonneg _)
  unfold index
  rw [Int.mul_add, Int.mul_one] at hline
  omega

/-- The cells of a channel come before those of a later one. -/
theorem index_lt_of_channel_lt (hchannel : channel < channel') (hrow : row < g.rows)
    (hcol : col < g.cols) (hrow' : 0 ≤ row') (hcol' : 0 ≤ col') :
    g.index channel row col < g.index channel' row' col' := by
  have hlt := line_add_lt hrow hcol
  have hpos : 0 ≤ g.cols * row' + col' := line_add_nonneg hrow' hcol'
  have hplanes : (g.rows * g.cols : Int) * (channel + 1) ≤ g.rows * g.cols * channel' :=
    Int.mul_le_mul_of_nonneg_left hchannel g.plane_pos.le
  rw [index_eq_plane, index_eq_plane]
  linarith

/-- Positions on the image have their numbers in the order of channel, row and column. -/
theorem index_strictMono (hon : g.inBounds row col = true) (hon' : g.inBounds row' col' = true)
    (hlex : Prod.Lex (· < ·) (Prod.Lex (· < ·) (· < ·)) (channel, row, col)
      (channel', row', col')) :
    g.index channel row col < g.index channel' row' col' := by
  obtain ⟨-, hrow, -, hcol⟩ := g.inBounds_iff.1 hon
  obtain ⟨hrow', -, hcol', -⟩ := g.inBounds_iff.1 hon'
  rcases Prod.lex_def.1 hlex with hchannel | ⟨rfl, hplane⟩
  · exact index_lt_of_channel_lt hchannel hrow hcol hrow' hcol'
  · rcases Prod.lex_def.1 hplane with hline | ⟨rfl, hcell⟩
    · exact index_lt_of_row_lt hline hcol hcol'
    · exact Int.add_lt_add_left hcell _

/-- **The numbering.**  Of three positive integers a grid is made.  Its numbers and its positions
    are in bijection: taken apart and put together again, every integer is the number it was, with
    its row and column on the image, and with a channel there is exactly if it is one of the cells;
    and every position with its row and column on the image, in any channel, is taken off its
    number again.  On these positions the numbers are in the order of channel, row and column. -/
theorem numbers_positions {channels rows cols : Int} (hchannels : 0 < channels) (hrows : 0 < rows)
    (hcols : 0 < cols) :
    ∃ g : Grid, Grid.of channels rows cols = .ok g ∧ g.extents = ⟨channels, rows, cols⟩ ∧
      (g.size : Int) = channels * rows * cols ∧
      (∀ i c r k : Int, g.unravel i = (c, r, k) →
        g.index c r k = i ∧ (0 ≤ r ∧ r < rows ∧ 0 ≤ k ∧ k < cols) ∧
          (0 ≤ c ∧ c < channels ↔ 0 ≤ i ∧ i < g.size)) ∧
      (∀ c r k : Int, g.inBounds r k = true → g.unravel (g.index c r k) = (c, r, k)) ∧
      ∀ c r k c' r' k' : Int, g.inBounds r k = true → g.inBounds r' k' = true →
        Prod.Lex (· < ·) (Prod.Lex (· < ·) (· < ·)) (c, r, k) (c', r', k') →
        g.index c r k < g.index c' r' k' := by
  obtain ⟨g, hg⟩ := of_succeeds (a := channels) (b := rows) (c := cols) ⟨hchannels, hrows, hcols⟩
  obtain ⟨rfl, rfl, rfl⟩ := of_ok hg
  refine ⟨g, hg, rfl, by unfold size; push_cast; rfl, ?_, ?_, ?_⟩
  · intro i c r k hparts
    cases hparts
    exact ⟨g.index_parts i, g.inBounds_iff.1 (g.inBounds_parts i), g.channel_mem_iff i⟩
  · intro c r k hon
    obtain ⟨hr, hrow, hk, hcol⟩ := g.inBounds_iff.1 hon
    unfold unravel
    rw [channel_index ⟨hr, hrow⟩ ⟨hk, hcol⟩, row_index ⟨hr, hrow⟩ ⟨hk, hcol⟩, col_index ⟨hk, hcol⟩]
  · exact fun c r k c' r' k' => index_strictMono

/-- Two planes of six lines of seven cells. -/
def block : Grid := ⟨2, 6, 7, Nat.two_pos, Nat.succ_pos 5, Nat.succ_pos 6⟩

/-- A number on the second plane, the number before the first cell, and the step from the end of a
    plane to the next one. -/
theorem numbers_positions_block : Grid.of 2 6 7 = .ok block ∧
    block.unravel 65 = (1, 3, 2) ∧ block.index 1 3 2 = 65 ∧
    block.index (-1) 5 6 = -1 ∧ block.unravel (-1) = (-1, 5, 6) ∧
    block.index 0 5 6 < block.index 1 0 0 := by
  have hblock : Grid.of 2 6 7 = .ok block := rfl
  obtain ⟨g, hg, -, -, hback, hthere, hmono⟩ :=
    numbers_positions (show (0 : Int) < 2 by decide) (show (0 : Int) < 6 by decide)
      (show (0 : Int) < 7 by decide)
  obtain rfl : block = g := Except.ok.inj (hblock.symm.trans hg)
  have hbefore : block.index (-1) 5 6 = -1 := (hback (-1) (-1) 5 6 rfl).1
  refine ⟨hblock, rfl, (hback 65 1 3 2 rfl).1, hbefore, ?_, ?_⟩
  · rw [← hthere (-1) 5 6 rfl, hbefore]
  · exact hmono 0 5 6 1 0 0 rfl rfl (.left _ _ (by decide))

end Grid

end Perturb
