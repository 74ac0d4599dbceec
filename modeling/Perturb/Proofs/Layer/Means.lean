/-
  What a mean divides by.

  A mean adds up the cells of a window that lie on the image and divides by one of four counts.
  Here a window is a square of positions, on the image or off it, and every count but the one given
  outright is the number of positions of a set.

  1. **Windows as sets** — the list of a window names every position of its square that lies on the
     image once, so its length is the number of these positions (`length_window`) and a sum along
     it is a sum over them (`sum_window`).

  2. **The padded count** — a square cut off by the image and a border is a square again, so it is
     counted by its two sides.  A side is the way from where the window starts to where window or
     border end, whichever comes first, because no window starts before the leading border
     (`card_squareOn_padding`).

  3. **Between the cells** — a sum divided by the number of its summands lies between the smallest
     and the largest of them, and divided by a larger number it moves towards zero (`toward_zero`).
     No counted divisor is smaller than the number of cells added up (`card_le_divisor`).
-/
import Mathlib.Algebra.Order.BigOperators.Group.Finset
import Mathlib.Order.Interval.Finset.Basic
import Mathlib.Data.Int.Interval
import Perturb.Proofs.Layer.Built
import Perturb.Proofs.Layer.Windows

namespace Perturb

/-! ## Sums and their summands -/

section

variable {ι : Type} {s : Finset ι} {f : ι → Rat} {low high d : Rat}

/-- A sum divided by the number of its summands lies between the smallest and the largest. -/
theorem between_summands (hs : s.Nonempty) (hlow : ∀ i ∈ s, low ≤ f i)
    (hhigh : ∀ i ∈ s, f i ≤ high) :
    low ≤ (∑ i ∈ s, f i) / (s.card : Rat) ∧ (∑ i ∈ s, f i) / (s.card : Rat) ≤ high := by
  have hcard : (0 : Rat) < s.card := Nat.cast_pos.2 hs.card_pos
  have hleast := s.card_nsmul_le_sum f low hlow
  have hmost := s.sum_le_card_nsmul f high hhigh
  rw [nsmul_eq_mul, mul_comm] at hleast hmost
  exact ⟨(le_div_iff₀ hcard).2 hleast, (div_le_iff₀ hcard).2 hmost⟩

/-- Divided by more than the number of its summands it moves towards zero. -/
theorem toward_zero (hs : s.Nonempty) (hlow : ∀ i ∈ s, low ≤ f i) (hhigh : ∀ i ∈ s, f i ≤ high)
    (hd : (s.card : Rat) ≤ d) :
    min 0 low ≤ (∑ i ∈ s, f i) / d ∧ (∑ i ∈ s, f i) / d ≤ max 0 high := by
  have hcard : (0 : Rat) < s.card := Nat.cast_pos.2 hs.card_pos
  have hpos : 0 < d := hcard.trans_le hd
  obtain ⟨hleast, hmost⟩ := between_summands hs hlow hhigh
  rw [le_div_iff₀ hcard] at hleast
  rw [div_le_iff₀ hcard] at hmost
  constructor
  · rw [le_div_iff₀ hpos]
    calc min 0 low * d ≤ min 0 low * s.card :=
          mul_le_mul_of_nonpos_left hd (min_le_left 0 low)
      _ ≤ low * s.card := mul_le_mul_of_nonneg_right (min_le_right 0 low) hcard.le
      _ ≤ ∑ i ∈ s, f i := hleast
  · rw [div_le_iff₀ hpos]
    calc ∑ i ∈ s, f i ≤ high * s.card := hmost
      _ ≤ max 0 high * s.card := mul_le_mul_of_nonneg_right (le_max_right 0 high) hcard.le
      _ ≤ max 0 high * d := mul_le_mul_of_nonneg_left hd (le_max_left 0 high)

end

namespace PoolShape

/-! ## Windows as sets -/

section

-- Intervals of integers have no code over the order of a conditionally complete lattice.
local instance integerOrder : Preorder Int := Int.instLinearOrder.toPreorder

variable (p : PoolShape)

/-- The positions of the window at `(r, c)`, on the image or off it. -/
def square (r c : Nat) : Finset (Int × Int) :=
  Finset.Ico (p.axis.start r) (p.axis.start r + p.kernelDim) ×ˢ
    Finset.Ico (p.axis.start c) (p.axis.start c + p.kernelDim)

/-- The positions of the image and of a border of `margin` cells on every side of it. -/
def sheetWith (margin : Int) : Finset (Int × Int) :=
  Finset.Ico (-margin) (p.input.rows + margin) ×ˢ Finset.Ico (-margin) (p.input.cols + margin)

/-- The positions of a window that lie on the image or on its border. -/
def squareOn (margin : Int) (r c : Nat) : Finset (Int × Int) := p.square r c ∩ p.sheetWith margin

/-- What a channel of an image holds at a position. -/
def cellAt (x : List Rat) (channel : Nat) (q : Int × Int) : Rat :=
  (x[(p.input.index channel q.1 q.2).toNat]?).getD 0

/-- The divisor of the window at `(r, c)`: the one given outright, the number of its positions on
    the padded image, or the number of those on the image, one more if `legacy`. -/
def divisor (legacy includePad : Bool) (override : Option Int) (r c : Nat) : Int :=
  match override with
  | some d => d
  | none =>
    if includePad then (p.squareOn p.padding r c).card
    else (p.squareOn 0 r c).card + if legacy then 1 else 0

end

variable {p : PoolShape} {channel r c : Nat}

theorem mem_squareOn_iff {margin : Int} {q : Int × Int} : q ∈ p.squareOn margin r c ↔
    ((p.axis.start r ≤ q.1 ∧ q.1 < p.axis.start r + p.kernelDim) ∧
      p.axis.start c ≤ q.2 ∧ q.2 < p.axis.start c + p.kernelDim) ∧
    (-margin ≤ q.1 ∧ q.1 < p.input.rows + margin) ∧
      -margin ≤ q.2 ∧ q.2 < p.input.cols + margin := by
  simp only [squareOn, square, sheetWith, Finset.mem_inter, Finset.mem_product, Finset.mem_Ico]

/-- The number of a position on the image. -/
theorem toNat_index_of_mem (channel : Nat) {q : Int × Int} (hq : q ∈ p.squareOn 0 r c) :
    ((p.input.index channel q.1 q.2).toNat : Int) = p.input.index channel q.1 q.2 := by
  obtain ⟨-, ⟨hrow, -⟩, hcol, -⟩ := mem_squareOn_iff.1 hq
  rw [neg_zero] at hrow hcol
  refine Int.toNat_of_nonneg ?_
  unfold Grid.index
  positivity

/-- The cells of a window are the numbers of its positions on the image. -/
theorem toFinset_window : (p.window channel r c).toFinset =
    (p.squareOn 0 r c).image fun q => (p.input.index channel q.1 q.2).toNat := by
  ext i
  rw [List.mem_toFinset, mem_window_iff, Finset.mem_image]
  constructor
  · rintro ⟨row, col, hrow, hcol, hunder, hi⟩
    have hq : ((row : Int), (col : Int)) ∈ p.squareOn 0 r c := by
      refine mem_squareOn_iff.2 ⟨hunder, ?_⟩
      dsimp only
      omega
    refine ⟨_, hq, ?_⟩
    rw [← Int.natCast_inj, toNat_index_of_mem channel hq, hi]
  · rintro ⟨⟨row, col⟩, hq, rfl⟩
    have hnumber := toNat_index_of_mem channel hq
    obtain ⟨hunder, ⟨hrow, hrows⟩, hcol, hcols⟩ := mem_squareOn_iff.1 hq
    dsimp only at hunder hrow hrows hcol hcols hnumber
    lift row to ℕ using (by omega)
    lift col to ℕ using (by omega)
    exact ⟨row, col, by omega, by omega, hunder, hnumber⟩

/-- Different positions on the image have different numbers. -/
theorem index_injOn : Set.InjOn (fun q : Int × Int => (p.input.index channel q.1 q.2).toNat)
    (p.squareOn 0 r c) := by
  rintro ⟨row, col⟩ hq ⟨row', col'⟩ hq' heq
  have heq := Int.natCast_inj.2 heq
  dsimp only at heq
  rw [toNat_index_of_mem channel hq, toNat_index_of_mem channel hq'] at heq
  obtain ⟨-, ⟨hrow, hrows⟩, hcol, hcols⟩ := mem_squareOn_iff.1 hq
  obtain ⟨-, ⟨hrow', hrows'⟩, hcol', hcols'⟩ := mem_squareOn_iff.1 hq'
  dsimp only at hrow hrows hcol hcols hrow' hrows' hcol' hcols'
  lift row to ℕ using (by omega)
  lift col to ℕ using (by omega)
  lift row' to ℕ using (by omega)
  lift col' to ℕ using (by omega)
  rw [Grid.index_natCast, Grid.index_natCast, Int.natCast_inj] at heq
  obtain ⟨-, rfl, rfl⟩ :=
    Grid.number_inj (by omega) (by omega) (by omega) (by omega) heq
  rfl

/-- A window has as many cells as positions on the image. -/
theorem length_window (channel : Nat) : (p.window channel r c).length = (p.squareOn 0 r c).card := by
  have hnodup : (p.window channel r c).Nodup := (p.sorted_window channel r c).imp Nat.ne_of_lt
  rw [← List.toFinset_card_of_nodup hnodup, toFinset_window, Finset.card_image_of_injOn index_injOn]

/-- The sum of what the cells of a window hold. -/
theorem sum_window (x : List Rat) : ((p.window channel r c).map fun i => (x[i]?).getD 0).sum =
    ∑ q ∈ p.squareOn 0 r c, p.cellAt x channel q := by
  have hnodup : (p.window channel r c).Nodup := (p.sorted_window channel r c).imp Nat.ne_of_lt
  rw [← List.sum_toFinset _ hnodup, toFinset_window, Finset.sum_image index_injOn]
  rfl

/-! ## The padded count -/

/-- A window that starts before the image ends has, on the padded image, the positions its two
    sides count: it does not start before the leading border. -/
theorem card_squareOn_padding (ha : p.axis.Regular) (hr : p.axis.start r < p.input.rows)
    (hc : p.axis.start c < p.input.cols) : ((p.squareOn p.padding r c).card : Int) =
      AvgPool.paddedExtent p r p.input.rows * AvgPool.paddedExtent p c p.input.cols := by
  have hpadding : 0 ≤ p.padding := ha.2.2
  have hkernel : 1 ≤ p.kernelDim := ha.1
  have hside : ∀ {o n : Nat}, p.axis.start o < n →
      (((Finset.Ico (max (p.axis.start o) (-p.padding))
        (min (p.axis.start o + p.kernelDim) (n + p.padding))).card : Nat) : Int) =
        AvgPool.paddedExtent p o n := by
    intro o n ho
    have hstart : -p.padding ≤ p.axis.start o := by
      have hway : 0 ≤ (o : Int) * p.stride :=
        Int.mul_nonneg (Int.natCast_nonneg o) ha.stride_pos.le
      unfold Axis.start axis
      dsimp only
      omega
    rw [Int.card_Ico, max_eq_left hstart, Int.toNat_of_nonneg (by omega)]
    rfl
  unfold squareOn square sheetWith
  rw [Finset.product_inter_product, Finset.Ico_inter_Ico, Finset.Ico_inter_Ico,
    Finset.card_product, Nat.cast_mul]
  exact congrArg₂ (· * ·) (hside hr) (hside hc)

/-- Unless it is given outright, the divisor is not smaller than the number of cells. -/
theorem card_le_divisor (hp : 0 ≤ p.padding) (legacy includePad : Bool) :
    ((p.squareOn 0 r c).card : Int) ≤ p.divisor legacy includePad none r c := by
  unfold divisor
  dsimp only
  split
  · refine Int.ofNat_le.2 (Finset.card_le_card fun q hq => ?_)
    have hq := mem_squareOn_iff.1 hq
    exact mem_squareOn_iff.2 (by omega)
  · split <;> omega

end PoolShape

/-! ## Means -/

namespace AvgPool

/-- A number is the mean of the window at `(r, c)` of a channel, for one of the four counts. -/
structure Divides (p : PoolShape) (legacy includePad : Bool) (override : Option Int)
    (x : List Rat) (channel r c : Nat) (mean : Rat) : Prop where
  /-- Every position that is added up holds a cell. -/
  cells : ∀ q ∈ p.squareOn 0 r c,
    x[(p.input.index channel q.1 q.2).toNat]? = some (p.cellAt x channel q)
  /-- It is the sum of the window divided by its divisor. -/
  quotient : 0 < p.divisor legacy includePad override r c ∧
    mean * p.divisor legacy includePad override r c =
      ∑ q ∈ p.squareOn 0 r c, p.cellAt x channel q
  /-- A counted divisor is not smaller than the number of cells that are added up. -/
  enough : override = none →
    ((p.squareOn 0 r c).card : Int) ≤ p.divisor legacy includePad override r c
  /-- With a counted divisor it lies between the smallest and the largest cell, or zero if that is
      beyond them; if the count is that of the cells, between the cells. -/
  between : override = none → ∃ low ∈ p.squareOn 0 r c, ∃ high ∈ p.squareOn 0 r c,
    (∀ q ∈ p.squareOn 0 r c, p.cellAt x channel low ≤ p.cellAt x channel q ∧
      p.cellAt x channel q ≤ p.cellAt x channel high) ∧
    (min 0 (p.cellAt x channel low) ≤ mean ∧ mean ≤ max 0 (p.cellAt x channel high)) ∧
    (legacy = false → includePad = false →
      p.cellAt x channel low ≤ mean ∧ mean ≤ p.cellAt x channel high)

section

variable {p : Pooling} {legacy includePad : Bool} {override : Option Int} {l : AvgPool Rat}

/-- A layer exists over every geometry, unless a divisor is given that is not positive. -/
theorem make_succeeds (p : Pooling) (legacy includePad : Bool)
    (hover : ∀ d, override = some d → 0 < d) :
    ∃ l : AvgPool Rat, make p legacy includePad override = .ok l := by
  unfold make
  cases override with
  | some d =>
    dsimp only
    rw [if_neg (by have := hover d rfl; omega)]
    exact ⟨_, rfl⟩
  | none =>
    have hlen : ((countedDivisors p legacy includePad).map (Scalar.ofInt : Int → Rat)).length =
        p.windows.length := by
      rw [List.length_map, Pooling.length_windows, countedDivisors_eq, List.length_map,
        Grid.length_positions]
    dsimp only
    rw [dif_pos hlen]
    exact ⟨_, rfl⟩

/-- The divisor of a window is the number of positions it counts. -/
theorem divisorAt_eq (ha : p.shape.axis.Regular) {channel r c : Nat}
    (hpos : (channel, r, c) ∈ p.output.positions) :
    divisorAt p.shape legacy includePad override channel r c =
      p.shape.divisor legacy includePad override r c := by
  cases override with
  | some d => rfl
  | none =>
    unfold divisorAt PoolShape.divisor
    cases includePad with
    | true =>
      obtain ⟨-, hr, hc⟩ := p.start_lt hpos
      exact (PoolShape.card_squareOn_padding ha hr hc).symm
    | false =>
      dsimp only
      rw [if_neg Bool.false_ne_true, if_neg Bool.false_ne_true, PoolShape.length_window]
      rfl

/-- The outputs of a mean are its sums divided by its counts. -/
theorem run_recipes (ha : p.shape.axis.Regular) (h : make p legacy includePad override = .ok l)
    (x : List Rat) : l.recipes.map (Recipe.run x) = p.output.positions.map fun (channel, r, c) =>
      (∑ q ∈ p.shape.squareOn 0 r c, p.shape.cellAt x channel q) /
        (p.shape.divisor legacy includePad override r c : Rat) := by
  rw [map_run_recipes h]
  refine List.map_congr_left fun ⟨channel, r, c⟩ hpos => ?_
  dsimp only
  rw [PoolShape.sum_window, divisorAt_eq ha hpos]

/-- No window is without a cell. -/
theorem squareOn_nonempty {channel r c : Nat} (h : (channel, r, c) ∈ p.output.positions) :
    (p.shape.squareOn 0 r c).Nonempty := by
  rw [← Finset.card_pos, ← PoolShape.length_window channel]
  exact List.length_pos_of_ne_nil (p.window_ne_nil h)

/-- No divisor is zero or less. -/
theorem divisor_pos (ha : p.shape.axis.Regular) (h : make p legacy includePad override = .ok l)
    {channel r c : Nat} (hpos : (channel, r, c) ∈ p.output.positions) :
    0 < p.shape.divisor legacy includePad override r c := by
  rw [← divisorAt_eq ha hpos]
  exact divisorAt_pos ha.2.2 (make_ok h).2.1 hpos

/-- What a mean gives for a window. -/
theorem divides (ha : p.shape.axis.Regular) (h : make p legacy includePad override = .ok l)
    {x : List Rat} (hx : x.length = p.shape.input.size) {channel r c : Nat}
    (hpos : (channel, r, c) ∈ p.output.positions) :
    Divides p.shape legacy includePad override x channel r c
      ((∑ q ∈ p.shape.squareOn 0 r c, p.shape.cellAt x channel q) /
        (p.shape.divisor legacy includePad override r c : Rat)) where
  cells q hq := by
    have hch : channel < p.shape.input.channels := by
      rw [← p.channels_eq]
      exact (Grid.mem_positions_iff.1 hpos).1
    obtain ⟨-, hrow, hcol⟩ := PoolShape.mem_squareOn_iff.1 hq
    rw [neg_zero, add_zero] at hrow hcol
    obtain ⟨hzero, hlt⟩ := Grid.index_mem hch hrow hcol
    have hi : (p.shape.input.index channel q.1 q.2).toNat < x.length := by omega
    unfold PoolShape.cellAt
    rw [List.getElem?_eq_getElem hi]
    rfl
  quotient := by
    have hd := divisor_pos ha h hpos
    refine ⟨hd, div_mul_cancel₀ _ ?_⟩
    exact_mod_cast hd.ne'
  enough hnone := by
    rw [hnone]
    exact PoolShape.card_le_divisor ha.2.2 legacy includePad
  between hnone := by
    have hne := squareOn_nonempty hpos
    obtain ⟨low, hlow, hleast⟩ := Finset.exists_min_image _ (p.shape.cellAt x channel) hne
    obtain ⟨high, hhigh, hmost⟩ := Finset.exists_max_image _ (p.shape.cellAt x channel) hne
    refine ⟨low, hlow, high, hhigh, fun q hq => ⟨hleast q hq, hmost q hq⟩, ?_, ?_⟩
    · have henough := PoolShape.card_le_divisor (r := r) (c := c) ha.2.2 legacy includePad
      rw [hnone]
      exact toward_zero hne hleast hmost (by exact_mod_cast henough)
    · rintro rfl rfl
      have hcount : p.shape.divisor false false override r c = (p.shape.squareOn 0 r c).card := by
        rw [hnone]
        exact add_zero _
      rw [hcount, Int.cast_natCast]
      exact between_summands hne hleast hmost

end

/-- **A mean divides by the right number.**  A layer that was made with a window side and a stride of
    at least one and a padding that is not negative gives, on every input of its size, one number
    for every window.  It is the sum of the cells of the window that lie on the image divided by the
    number given outright; without one, by the number of positions of the window on the image with
    its padding on every side, if the padding is included, and otherwise by the number of the cells,
    one more if `legacy`.  A counted divisor is never smaller than the number of cells, so the
    number lies between the smallest and the largest of them, zero included; and between them
    without zero, if the divisor is the number of the cells. -/
theorem make_divides {index : Int} {shape : PoolShape} {p : Pooling} {legacy includePad : Bool}
    {override : Option Int} {l : AvgPool Rat} {x : List Rat} (ha : shape.axis.Regular)
    (hp : Pooling.make Rat index shape = .ok p) (hl : make p legacy includePad override = .ok l)
    (hx : x.length = shape.input.size) :
    ∃ y, (Layer.affine (.stage (.avgPool l))).values x = .ok y ∧ y.length = p.output.size ∧
      ∀ channel r c : Nat, channel < p.output.channels → r < p.output.rows → c < p.output.cols →
        ∃ mean, y[(p.output.index channel r c).toNat]? = some mean ∧
          Divides shape legacy includePad override x channel r c mean := by
  obtain rfl := (Pooling.make_ok hp).2.1
  obtain ⟨rfl, -⟩ := make_ok hl
  have hbuilt : (Stage.avgPool l).Built := .avgPool hp hl
  have hvalues : (Stage.avgPool l).values x = .ok (l.recipes.map (Recipe.run x)) :=
    (Stage.values_ok_iff hbuilt).2 ⟨hx, hbuilt.ready ha, rfl⟩
  refine ⟨l.recipes.map (Recipe.run x), ?_, ?_, fun channel r c hch hr hc => ?_⟩
  · show [Stage.avgPool l].foldlM (fun x s => s.values x) x = _
    rw [List.foldlM_cons, hvalues]
    rfl
  · rw [run_recipes ha hl, List.length_map, Grid.length_positions]
  · have hplace := Grid.getElem?_positions hch hr hc
    refine ⟨_, ?_, divides ha hl hx (List.mem_of_getElem? hplace)⟩
    rw [run_recipes ha hl, List.getElem?_map,
      Grid.toNat_index_of_nonneg _ _ (Int.natCast_nonneg r) (Int.natCast_nonneg c),
      Int.toNat_natCast, Int.toNat_natCast, hplace]
    rfl

/-- Windows of three by three cells, two apart, on a sheet of four rows of five cells.  The last one
    ends a row beyond the padding. -/
def trailing : PoolShape := ⟨Pooling.sheet, 3, 2, 1, true⟩

/-- With its padding the last window has two rows of three positions, of which two cells are on the
    sheet. -/
theorem make_divides_trailing : ∃ (p : Pooling) (l : AvgPool Rat) (y : List Rat),
    Pooling.make Rat 0 trailing = .ok p ∧ make p true true none = .ok l ∧
      (Layer.affine (.stage (.avgPool l))).values ((List.range 20).map fun i => (i : Rat)) =
        .ok y ∧ y[8]? = some (37 / 6) := by
  have ha : trailing.axis.Regular := by decide
  obtain ⟨rows, cols, hrows, hcols, hexists, -, hall⟩ := Pooling.make_geometry 0 trailing ha
  have hthree : windowCount Rat 3 4 2 1 true = .ok 3 ∧ windowCount Rat 3 5 2 1 true = .ok 3 := by
    decide +kernel
  obtain rfl : rows = 3 := Except.ok.inj (hrows.symm.trans hthree.1)
  obtain rfl : cols = 3 := Except.ok.inj (hcols.symm.trans hthree.2)
  obtain ⟨p, hp⟩ := hexists.2 (by decide)
  obtain ⟨-, ⟨hch, hr, hc⟩, -⟩ := hall p hp
  have hr : p.output.rows = 3 := by omega
  have hc : p.output.cols = 3 := by omega
  have hch : p.output.channels = 1 := hch
  have hnone : ∀ d : Int, none = some d → 0 < d := fun d hd => (by cases hd)
  obtain ⟨l, hl⟩ := make_succeeds p true true hnone
  obtain ⟨y, hy, -, hmeans⟩ := make_divides (x := (List.range 20).map fun i => (i : Rat)) ha hp hl rfl
  obtain ⟨mean, hmean, hdivides⟩ := hmeans 0 2 2 (by omega) (by omega) (by omega)
  refine ⟨p, l, y, hp, hl, hy, ?_⟩
  have hnumber : (p.output.index (0 : Nat) (2 : Nat) (2 : Nat)).toNat = 8 := by
    unfold Grid.index
    rw [hr, hc]
    rfl
  have hsix : trailing.divisor true true none 2 2 = 6 := by decide +kernel
  have hsum : ∑ q ∈ trailing.squareOn 0 2 2,
      trailing.cellAt ((List.range 20).map fun i => (i : Rat)) 0 q = 37 := by decide +kernel
  have hquotient := hdivides.quotient.2
  rw [hsix, hsum] at hquotient
  rw [← hnumber, hmean, Option.some_inj]
  exact (eq_div_iff (by decide)).2 hquotient

end AvgPool

end Perturb
