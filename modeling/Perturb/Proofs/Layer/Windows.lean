/-
  The windows of a pooling geometry.

  1. **One window** — the scan over a square and the guard on every cell list exactly the cells of
     the square that lie on the image, in the order of their numbers (`PoolShape.lists_window`).
     That no window is empty is a question of each axis: the square has to end after the image
     begins, and start before it ends.

  2. **All windows** — a window starts before the image ends because the size rule takes the last
     one back (`Axis.inside_of_lt`), and ends after it begins because the padding is smaller than
     the window; the first window shows that this is needed.  So a geometry exists exactly if there
     is a window along either axis and the padding is smaller than the window, and then, rounded up
     and with strides not larger than the window, no cell of the image is left out
     (`Pooling.make_geometry`).
-/
import Perturb.Proofs.Layer.Positions

namespace Perturb

/-! ## Cells -/

namespace Grid

variable {g : Grid}

/-- The first position. -/
theorem positions_eq_cons (g : Grid) : ∃ rest, g.positions = (0, 0, 0) :: rest := by
  have hfirst := getElem?_positions g.channels_pos g.rows_pos g.cols_pos
  cases hpositions : g.positions with
  | nil =>
    rw [hpositions] at hfirst
    cases hfirst
  | cons p rest =>
    rw [hpositions] at hfirst
    simp only [Nat.zero_mul, Nat.add_zero, List.getElem?_cons_zero, Option.some_inj] at hfirst
    exact ⟨rest, by rw [hfirst]⟩

/-- Every cell has a position. -/
theorem exists_position {i : Nat} (hi : i < g.size) : ∃ channel row col : Nat,
    channel < g.channels ∧ row < g.rows ∧ col < g.cols ∧ (i : Int) = g.index channel row col := by
  rw [← length_positions] at hi
  have hnumber := number_getElem hi
  have hmem := List.getElem_mem hi
  generalize g.positions[i] = position at hnumber hmem
  obtain ⟨channel, row, col⟩ := position
  obtain ⟨hch, hrow, hcol⟩ := mem_positions_iff.1 hmem
  refine ⟨channel, row, col, hch, hrow, hcol, ?_⟩
  rw [← hnumber]
  unfold index
  push_cast
  ring

end Grid

/-! ## One window -/

namespace PoolShape

variable {p : PoolShape} {channel r c : Nat}

/-- How windows lie along either axis. -/
def axis (p : PoolShape) : Axis := ⟨p.kernelDim, p.stride, p.padding⟩

/-- A position of the image lies in the square of the window at `(r, c)`. -/
def Under (p : PoolShape) (r c row col : Nat) : Prop :=
  (p.axis.start r ≤ row ∧ row < p.axis.start r + p.kernelDim) ∧
    p.axis.start c ≤ col ∧ col < p.axis.start c + p.kernelDim

/-- A list of cells is what a window should be: not empty, in strictly increasing order, and made
    of the cells of its channel that lie on the image and in its square. -/
structure Lists (p : PoolShape) (channel r c : Nat) (w : List Nat) : Prop where
  filled : w ≠ []
  increasing : w.Pairwise (· < ·)
  cells : ∀ i, i ∈ w ↔ ∃ row col : Nat, row < p.input.rows ∧ col < p.input.cols ∧
    p.Under r c row col ∧ (i : Int) = p.input.index channel row col

/-- The cells of a window. -/
theorem mem_window_iff {i : Nat} :
    i ∈ p.window channel r c ↔ ∃ row col : Nat, row < p.input.rows ∧ col < p.input.cols ∧
      p.Under r c row col ∧ (i : Int) = p.input.index channel row col := by
  have hk : ∀ {j : Nat}, j < p.kernelDim.toNat ↔ (j : Int) < p.kernelDim := by
    intro j
    omega
  unfold window
  simp only [List.mem_flatMap, List.mem_filterMap, List.mem_range, hk, Grid.cell?_eq_some_iff]
  show _ ↔ ∃ row col : Nat, _ ∧ _ ∧ ((r * p.stride - p.padding ≤ row ∧
    row < r * p.stride - p.padding + p.kernelDim) ∧ c * p.stride - p.padding ≤ col ∧
    col < c * p.stride - p.padding + p.kernelDim) ∧ _
  generalize r * p.stride - p.padding = top
  generalize c * p.stride - p.padding = left
  constructor
  · rintro ⟨i, hi, j, hj, ⟨hrow, hrows, hcol, hcols⟩, hnumber⟩
    refine ⟨(top + i).toNat, (left + j).toNat, by omega, by omega, by omega, ?_⟩
    rw [Int.toNat_of_nonneg hrow, Int.toNat_of_nonneg hcol, hnumber]
  · rintro ⟨row, col, hrow, hcol, ⟨⟨htop, hbottom⟩, hleft, hright⟩, hnumber⟩
    refine ⟨(row - top).toNat, by omega, (col - left).toNat, by omega, ?_⟩
    rw [Int.toNat_of_nonneg (by omega), Int.toNat_of_nonneg (by omega), add_sub_cancel,
      add_sub_cancel]
    exact ⟨by omega, hnumber⟩

/-- The scan meets the cells in the order of their numbers. -/
theorem sorted_window (p : PoolShape) (channel r c : Nat) :
    (p.window channel r c).Pairwise (· < ·) := by
  unfold window
  rw [List.pairwise_flatMap]
  constructor
  · -- along a row
    intro i _
    refine List.pairwise_lt_range.filterMap _ fun j j' hj a ha b hb => ?_
    obtain ⟨-, ha⟩ := Grid.cell?_eq_some_iff.1 ha
    obtain ⟨-, hb⟩ := Grid.cell?_eq_some_iff.1 hb
    unfold Grid.index at ha hb
    omega
  · -- from row to row
    refine List.pairwise_lt_range.imp fun {i i'} hi a ha b hb => ?_
    obtain ⟨j, -, ha⟩ := List.mem_filterMap.1 ha
    obtain ⟨j', -, hb⟩ := List.mem_filterMap.1 hb
    obtain ⟨⟨-, -, -, hcol⟩, ha⟩ := Grid.cell?_eq_some_iff.1 ha
    obtain ⟨⟨-, -, hcol', -⟩, hb⟩ := Grid.cell?_eq_some_iff.1 hb
    have hlt : p.input.index channel _ _ < p.input.index channel _ _ := Grid.index_lt_of_row_lt
      (show r * p.stride - p.padding + i < r * p.stride - p.padding + (i' : Int) by omega)
      hcol hcol'
    omega

/-- A window that reaches the image along both axes is what it should be. -/
theorem lists_window (hk : 1 ≤ p.kernelDim)
    (hr : p.axis.start r < p.input.rows ∧ 0 < p.axis.start r + p.kernelDim)
    (hc : p.axis.start c < p.input.cols ∧ 0 < p.axis.start c + p.kernelDim) :
    p.Lists channel r c (p.window channel r c) := by
  have hrows := p.input.rows_pos
  have hcols := p.input.cols_pos
  refine ⟨?_, p.sorted_window channel r c, fun i => mem_window_iff⟩
  -- the first cell of the square that is not off the leading edges
  have hcorner : ∃ row col : Nat, row < p.input.rows ∧ col < p.input.cols ∧
      p.Under r c row col := by
    refine ⟨(p.axis.start r).toNat, (p.axis.start c).toNat, by omega, by omega, ?_⟩
    unfold Under
    omega
  obtain ⟨row, col, hrow, hcol, hunder⟩ := hcorner
  have hcell : p.input.cell? channel row col = some (p.input.index channel row col).toNat := by
    unfold Grid.cell?
    rw [if_pos (by simp [Grid.inBounds, hrow, hcol])]
  obtain ⟨-, hnumber⟩ := Grid.cell?_eq_some_iff.1 hcell
  exact List.ne_nil_of_mem (mem_window_iff.2 ⟨row, col, hrow, hcol, hunder, hnumber⟩)

/-- The first window is empty if the padding is as large as the window. -/
theorem window_eq_nil (h : p.kernelDim ≤ p.padding) : p.window channel 0 c = [] := by
  rw [List.eq_nil_iff_forall_not_mem]
  intro i hi
  obtain ⟨row, -, -, -, ⟨⟨-, hbottom⟩, -⟩, -⟩ := mem_window_iff.1 hi
  unfold Axis.start axis at hbottom
  dsimp only at hbottom
  omega

end PoolShape

/-! ## All windows -/

namespace Pooling

section

variable {index rows cols : Int} {shape : PoolShape}
  (hrows : windowCount Rat shape.kernelDim shape.input.rows shape.stride shape.padding
    shape.roundUp = .ok rows)
  (hcols : windowCount Rat shape.kernelDim shape.input.cols shape.stride shape.padding
    shape.roundUp = .ok cols)

include hrows hcols

/-- Without a window along either axis there is no geometry. -/
theorem make_of_none (h : ¬ (1 ≤ rows ∧ 1 ≤ cols)) :
    make Rat index shape = .error (.gridNotPositive ⟨shape.input.channels, rows, cols⟩) := by
  unfold make
  rw [hrows, Outcome.ok_bind, hcols, Outcome.ok_bind, Grid.of_eq_error fun hpos => h hpos.2]
  rfl

/-- With windows along both axes it depends on whether one of them is empty. -/
theorem make_of_counts (index : Int) (h : 1 ≤ rows ∧ 1 ≤ cols) : ∃ output : Grid,
    ((output.rows : Int) = rows ∧ (output.cols : Int) = cols) ∧
      ((∀ w ∈ shape.windows output, w ≠ []) → ∃ p, make Rat index shape = .ok p) ∧
      (shape.window 0 0 0 = [] → make Rat index shape = .error (.windowInPadding 0 0 0)) := by
  have hchannels := shape.input.channels_pos
  obtain ⟨output, houtput⟩ :=
    Grid.of_succeeds (a := shape.input.channels) ⟨by omega, h.1, h.2⟩
  obtain ⟨hch, hr, hc⟩ := Grid.of_ok houtput
  have hsame : output.channels = shape.input.channels := by omega
  refine ⟨output, ⟨hr, hc⟩, fun hfilled => ?_, fun hnil => ?_⟩
  · unfold make
    rw [hrows, Outcome.ok_bind, hcols, Outcome.ok_bind, houtput, Outcome.ok_bind, dif_pos hsame,
      dif_pos hfilled]
    exact ⟨_, rfl⟩
  · obtain ⟨rest, hpositions⟩ := output.positions_eq_cons
    have hempty : ¬ ∀ w ∈ shape.windows output, w ≠ [] := by
      intro hfilled
      refine hfilled (shape.window 0 0 0) ?_ hnil
      unfold PoolShape.windows
      rw [hpositions]
      exact List.mem_cons_self ..
    have hfirst : (shape.window 0 0 0).isEmpty = true := by
      rw [hnil]
      rfl
    unfold make
    rw [hrows, Outcome.ok_bind, hcols, Outcome.ok_bind, houtput, Outcome.ok_bind, dif_pos hsame,
      dif_neg hempty, hpositions, List.find?_cons_of_pos]
    exact hfirst

end

/-- The window of an output stands at the number of the output. -/
theorem getElem?_windows (p : Pooling) {channel r c : Nat} (hch : channel < p.output.channels)
    (hr : r < p.output.rows) (hc : c < p.output.cols) :
    p.windows[(p.output.index channel r c).toNat]? = some (p.shape.window channel r c) := by
  rw [windows_eq, Grid.toNat_index_of_nonneg _ _ (Int.natCast_nonneg r) (Int.natCast_nonneg c),
    Int.toNat_natCast, Int.toNat_natCast, List.getElem?_map,
    Grid.getElem?_positions hch hr hc]
  rfl

variable {shape : PoolShape} {count : Int}

/-- Along an axis, a counted window starts before the image ends and ends after it begins. -/
theorem reaches {n t : Nat} (ha : shape.axis.Regular) (hp : shape.padding < shape.kernelDim)
    (h : windowCount Rat shape.kernelDim n shape.stride shape.padding shape.roundUp = .ok count)
    (ht : (t : Int) < count) :
    shape.axis.start t < n ∧ 0 < shape.axis.start t + shape.kernelDim := by
  have hinside := Axis.inside_of_lt (a := shape.axis) ha hp.le h ht
  have hs : 1 ≤ shape.stride := ha.2.1
  have hstart : 0 ≤ (t : Int) * shape.stride := Int.mul_nonneg (Int.natCast_nonneg t) (by omega)
  unfold Axis.Inside PoolShape.axis at hinside
  unfold Axis.start PoolShape.axis
  dsimp only at hinside ⊢
  omega

/-- Rounded up, and with a stride not larger than the window, every cell of the image is in some
    window: a row and a column each lie in a window of their axis. -/
theorem exists_window_of_cell {p : Pooling} (ha : p.shape.axis.Regular)
    (hup : p.shape.roundUp = true) (hs : p.shape.stride ≤ p.shape.kernelDim)
    (hrows : windowCount Rat p.shape.kernelDim p.shape.input.rows p.shape.stride p.shape.padding
      p.shape.roundUp = .ok (p.output.rows : Int))
    (hcols : windowCount Rat p.shape.kernelDim p.shape.input.cols p.shape.stride p.shape.padding
      p.shape.roundUp = .ok (p.output.cols : Int)) {i : Nat} (hi : i < p.shape.input.size) :
    ∃ w ∈ p.windows, i ∈ w := by
  rw [hup] at hrows hcols
  obtain ⟨channel, row, col, hch, hrow, hcol, hnumber⟩ := Grid.exists_position hi
  obtain ⟨r, hr, hunderRow⟩ := Axis.exists_window (a := p.shape.axis) ha hs hrows
    (by have := p.output.rows_pos; omega) hrow
  obtain ⟨c, hc, hunderCol⟩ := Axis.exists_window (a := p.shape.axis) ha hs hcols
    (by have := p.output.cols_pos; omega) hcol
  refine ⟨p.shape.window channel r c, List.mem_map.2 ⟨(channel, r, c), ?_, rfl⟩,
    PoolShape.mem_window_iff.2 ⟨row, col, hrow, hcol, ⟨hunderRow, hunderCol⟩, hnumber⟩⟩
  rw [Grid.mem_positions_iff, p.channels_eq]
  exact ⟨hch, by omega, by omega⟩

/-- **The windows of a pooling geometry.**  With a window side and a stride of at least one and a
    padding that is not negative:

    * a geometry exists exactly if the size rule gives at least one window along either axis and
      the padding is smaller than the window; otherwise a value was refused, either the sizes or
      the first window, which lies in the padding;
    * the window of every output stands at the number of the output and lists, in increasing order,
      the cells of its channel that lie on the image and in its square, of which there is one;
    * rounded up, and with a stride not larger than the window, every cell of the image is in some
      window. -/
theorem make_geometry (index : Int) (shape : PoolShape) (ha : shape.axis.Regular) :
    ∃ rows cols : Int,
      windowCount Rat shape.kernelDim shape.input.rows shape.stride shape.padding shape.roundUp =
        .ok rows ∧
      windowCount Rat shape.kernelDim shape.input.cols shape.stride shape.padding shape.roundUp =
        .ok cols ∧
      ((∃ p, make Rat index shape = .ok p) ↔
        1 ≤ rows ∧ 1 ≤ cols ∧ shape.padding < shape.kernelDim) ∧
      (∀ e, make Rat index shape = .error e → e.kind = .value ∧
        e = if 1 ≤ rows ∧ 1 ≤ cols then .windowInPadding 0 0 0
          else .gridNotPositive ⟨shape.input.channels, rows, cols⟩) ∧
      ∀ p, make Rat index shape = .ok p →
        p.shape = shape ∧ (p.output.channels = shape.input.channels ∧
          (p.output.rows : Int) = rows ∧ (p.output.cols : Int) = cols) ∧
        (∀ channel r c : Nat, channel < p.output.channels → r < p.output.rows →
          c < p.output.cols → ∃ w, p.windows[(p.output.index channel r c).toNat]? = some w ∧
            shape.Lists channel r c w) ∧
        (shape.roundUp = true → shape.stride ≤ shape.kernelDim →
          ∀ i < shape.input.size, ∃ w ∈ p.windows, i ∈ w) := by
  have hcount : ∀ n : Nat, ∃ count, windowCount Rat shape.kernelDim n shape.stride shape.padding
      shape.roundUp = .ok count := fun n => by
    obtain ⟨m, hm, -⟩ :=
      windowCount_spec ha.stride_pos shape.kernelDim n shape.padding shape.roundUp
    exact ⟨_, hm⟩
  obtain ⟨rows, hrows⟩ := hcount shape.input.rows
  obtain ⟨cols, hcols⟩ := hcount shape.input.cols
  have hlists : ∀ {channel r c : Nat}, shape.padding < shape.kernelDim → (r : Int) < rows →
      (c : Int) < cols → shape.Lists channel r c (shape.window channel r c) := fun hp hr hc =>
    PoolShape.lists_window ha.1 (reaches ha hp hrows hr) (reaches ha hp hcols hc)
  have hsuccess : 1 ≤ rows ∧ 1 ≤ cols → shape.padding < shape.kernelDim →
      ∃ p, make Rat index shape = .ok p := fun hpos hp => by
    obtain ⟨output, ⟨hr, hc⟩, hmake, -⟩ := make_of_counts hrows hcols index hpos
    refine hmake fun w hw => ?_
    obtain ⟨⟨channel, r, c⟩, hposition, rfl⟩ := List.mem_map.1 hw
    obtain ⟨-, hr', hc'⟩ := Grid.mem_positions_iff.1 hposition
    exact (hlists hp (by omega) (by omega)).filled
  have hwide : 1 ≤ rows ∧ 1 ≤ cols → ¬ shape.padding < shape.kernelDim →
      make Rat index shape = .error (.windowInPadding 0 0 0) := fun hpos hp => by
    obtain ⟨output, -, -, hmake⟩ := make_of_counts hrows hcols index hpos
    exact hmake (PoolShape.window_eq_nil (not_lt.1 hp))
  have hparts : ∀ p, make Rat index shape = .ok p → p.shape = shape ∧
      ((p.output.rows : Int) = rows ∧ (p.output.cols : Int) = cols) ∧
      (1 ≤ rows ∧ 1 ≤ cols) ∧ shape.padding < shape.kernelDim := fun p h => by
    obtain ⟨-, hshape, hr, hc⟩ := make_ok h
    have hr := Except.ok.inj (hr.symm.trans hrows)
    have hc := Except.ok.inj (hc.symm.trans hcols)
    have hpos : 1 ≤ rows ∧ 1 ≤ cols := by
      have := p.output.rows_pos
      have := p.output.cols_pos
      omega
    refine ⟨hshape, ⟨hr, hc⟩, hpos, by_contra fun hp => ?_⟩
    rw [hwide hpos hp] at h
    cases h
  refine ⟨rows, cols, hrows, hcols, ⟨?_, fun h => hsuccess ⟨h.1, h.2.1⟩ h.2.2⟩, fun e h => ?_,
    fun p h => ?_⟩
  · rintro ⟨p, h⟩
    obtain ⟨-, -, hpos, hp⟩ := hparts p h
    exact ⟨hpos.1, hpos.2, hp⟩
  · by_cases hpos : 1 ≤ rows ∧ 1 ≤ cols
    · have hp : ¬ shape.padding < shape.kernelDim := fun hp => by
        obtain ⟨p, hok⟩ := hsuccess hpos hp
        rw [hok] at h
        cases h
      rw [hwide hpos hp] at h
      cases h
      exact ⟨rfl, (if_pos hpos).symm⟩
    · rw [make_of_none hrows hcols hpos] at h
      cases h
      exact ⟨rfl, (if_neg hpos).symm⟩
  · obtain ⟨rfl, ⟨hr, hc⟩, hpos, hp⟩ := hparts p h
    refine ⟨rfl, ⟨p.channels_eq, hr, hc⟩, fun channel r c hch hr' hc' => ?_, fun hup hs i hi => ?_⟩
    · exact ⟨_, p.getElem?_windows hch hr' hc', hlists hp (by omega) (by omega)⟩
    · exact exists_window_of_cell ha hup hs (hrows.trans (by rw [hr])) (hcols.trans (by rw [hc])) hi

/-- Four rows of five cells. -/
def sheet : Grid := ⟨1, 4, 5, Nat.succ_pos _, Nat.succ_pos _, Nat.succ_pos _⟩

/-- Windows of two by two cells side by side, from one cell outside on. -/
def tiling : PoolShape := ⟨sheet, 2, 2, 1, true⟩

/-- A fourth window along the columns would start at the trailing padding, so there are three by
    three windows, which cover the sheet. -/
theorem make_geometry_tiling :
    tiling.axis.Regular ∧ ∃ p, make Rat 0 tiling = .ok p ∧ p.output.rows = 3 ∧
      p.output.cols = 3 ∧ (∃ w, p.windows[8]? = some w ∧ tiling.Lists 0 2 2 w) ∧
      ∀ i < 20, ∃ w ∈ p.windows, i ∈ w := by
  have ha : tiling.axis.Regular := by decide
  obtain ⟨rows, cols, hrows, hcols, hexists, -, hall⟩ := make_geometry 0 tiling ha
  have hthree : windowCount Rat 2 4 2 1 true = .ok 3 ∧ windowCount Rat 2 5 2 1 true = .ok 3 := by
    decide +kernel
  obtain rfl : rows = 3 := Except.ok.inj (hrows.symm.trans hthree.1)
  obtain rfl : cols = 3 := Except.ok.inj (hcols.symm.trans hthree.2)
  obtain ⟨p, hp⟩ := hexists.2 (by decide)
  obtain ⟨-, ⟨hch, hr, hc⟩, hwindows, hcovers⟩ := hall p hp
  have hr : p.output.rows = 3 := by omega
  have hc : p.output.cols = 3 := by omega
  have hch : p.output.channels = 1 := hch
  refine ⟨ha, p, hp, hr, hc, ?_, hcovers rfl (by decide)⟩
  obtain ⟨w, hw, hlists⟩ := hwindows 0 2 2 (by omega) (by omega) (by omega)
  refine ⟨w, ?_, hlists⟩
  rw [← hw]
  unfold Grid.index
  rw [hr, hc]
  rfl

end Pooling

end Perturb
