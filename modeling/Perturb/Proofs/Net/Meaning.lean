/-
  Layers do what modules mean.

  A module and the layer made from it, side by side: the layer's outputs, listed, are the values of
  the picture or the vector that the module means (`Reference`).  Per kind of module there are two
  things to see.

  1. **Sizes** — the size rule of layers divides exactly and then rounds, the documented one divides
     with remainder; and layers drop a last window inside the trailing padding even when rounding
     down, which never happens if the padding is smaller than the window
     (`Axis.windowCount_down`, `Axis.windowCount_up`).

  2. **Values** — a sum over a receptive field in kernel order is the threefold sum
     (`ConvLayer.values_cells`), a window of cell numbers looks up the window of the picture
     (`Pooling.map_window`), and what the scan for the maximum ends at is the maximum.
-/
import Perturb.Proofs.Layer.Replay
import Perturb.Proofs.Net.Reference
import Perturb.Proofs.Net.Walk

namespace Perturb

/-! ## Lists and tensors -/

/-- Two lists of one length in step, as an enumeration. -/
theorem zip_eq_map_range {α β : Type} {xs : List α} {ys : List β} {n : Nat} (a : α) (b : β)
    (hx : xs.length = n) (hy : ys.length = n) :
    List.zip xs ys = (List.range n).map fun i => ((xs[i]?).getD a, (ys[i]?).getD b) := by
  apply List.ext_getElem
  · simp [hx, hy]
  · intro i h₁ h₂
    have hi : i < n := by simpa using h₂
    simp [List.getElem?_eq_getElem (show i < xs.length by omega),
      List.getElem?_eq_getElem (show i < ys.length by omega)]

/-- An inner product, as a sum over the places. -/
theorem Scalar.dot_eq_sum_range {xs ys : List Rat} {n : Nat} (hx : xs.length = n)
    (hy : ys.length = n) :
    Scalar.dot xs ys = ∑ j ∈ Finset.range n, (xs[j]?).getD 0 * (ys[j]?).getD 0 := by
  have hzip : List.zipWith (· * ·) xs ys =
      (List.range n).map fun j => (xs[j]?).getD 0 * (ys[j]?).getD 0 := by
    rw [← List.map_uncurry_zip_eq_zipWith, zip_eq_map_range 0 0 hx hy, List.map_map]
    rfl
  rw [Scalar.dot_rat, hzip]
  rfl

namespace Tensor

theorem length_pieces {K : Type} (xs : List K) (width count : Nat) :
    (pieces xs width count).length = count := by
  induction count generalizing xs with
  | zero => rfl
  | succ count ih => rw [pieces, List.length_cons, ih]

/-- A piece starts after all pieces before it. -/
theorem getElem?_pieces {K : Type} {xs : List K} {width count o : Nat} (ho : o < count) :
    (pieces xs width count)[o]? = some ((xs.drop (o * width)).take width) := by
  induction count generalizing xs o with
  | zero => omega
  | succ count ih =>
    rw [pieces]
    cases o with
    | zero => simp
    | succ o =>
      rw [List.getElem?_cons_succ, ih (by omega), List.drop_drop]
      have hplace : width + o * width = (o + 1) * width := by ring
      rw [hplace]

/-- An entry of a row is an entry of the tensor. -/
theorem getElem?_row {K : Type} {t : Tensor K} {count : Nat} {rest : List Nat}
    (hshape : t.shape = count :: rest) {o j : Nat} (ho : o < count)
    (hj : j < rest.foldl (· * ·) 1) :
    ((t.rows[o]?).getD [])[j]? = t.cells[o * rest.foldl (· * ·) 1 + j]? := by
  unfold rows
  rw [hshape]
  dsimp only
  rw [getElem?_pieces ho, Option.getD_some, List.getElem?_take_of_lt hj, List.getElem?_drop]

theorem length_rows {K : Type} {t : Tensor K} {count : Nat} {rest : List Nat}
    (hshape : t.shape = count :: rest) : t.rows.length = count := by
  unfold rows
  rw [hshape]
  exact length_pieces _ _ _

end Tensor

/-- The intercepts a conversion takes are those of the module. -/
theorem Conversion.getD_biasOr (bias : Option (List Rat)) (weight : Tensor Rat) (o : Nat) :
    ((biasOr bias weight)[o]?).getD 0 = biasAt bias o := by
  cases bias with
  | some b => rfl
  | none =>
    show ((List.replicate _ (0 : Rat))[o]?).getD 0 = 0
    rw [List.getElem?_replicate]
    split <;> rfl

/-! ## Sizes -/

namespace Axis

variable {a : Axis}

/-- The last window that is counted ends on the padded axis. -/
theorem count_sub_one_mul_le (ha : a.Regular) (n : Nat) :
    (a.count n - 1) * a.stride ≤ n + 2 * a.padding - a.kernel := by
  unfold count
  rw [Int.add_sub_cancel]
  exact Int.ediv_mul_le _ ha.stride_pos.ne'

/-- Rounded down, the rule gives the number of windows, or takes the last one back if it does not
    start before the trailing padding. -/
theorem windowCount_floor (ha : a.Regular) (n : Nat) :
    windowCount Rat a.kernel n a.stride a.padding false =
      .ok (if n + a.padding ≤ (a.count n - 1) * a.stride then a.count n - 1 else a.count n) := by
  obtain ⟨m, hrule, hdown, -⟩ := windowCount_spec ha.stride_pos a.kernel n a.padding false
  obtain ⟨hlow, hhigh⟩ := hdown rfl
  have hquotient : (n + 2 * a.padding - a.kernel) / a.stride = m - 1 := by
    rw [Int.ediv_eq_iff_of_pos ha.stride_pos]
    constructor <;> linarith
  rw [hrule, count, hquotient, Int.sub_add_cancel]

/-- Rounded down, as long as the padding is smaller than the window. -/
theorem windowCount_down (ha : a.Regular) (hp : a.padding < a.kernel) (n : Nat) :
    windowCount Rat a.kernel n a.stride a.padding false = .ok (a.count n) := by
  have hlast := count_sub_one_mul_le ha n
  rw [windowCount_floor ha, if_neg (by omega)]

/-- Rounded up. -/
theorem windowCount_up (ha : a.Regular) (n : Nat) :
    windowCount Rat a.kernel n a.stride a.padding true = .ok (a.countUp n) := by
  obtain ⟨m, hrule, -, hup⟩ := windowCount_spec ha.stride_pos a.kernel n a.padding true
  obtain ⟨hlow, hhigh⟩ := hup rfl
  have hquotient : (n + 2 * a.padding - a.kernel + (a.stride - 1)) / a.stride = m - 1 := by
    rw [Int.ediv_eq_iff_of_pos ha.stride_pos]
    constructor <;> linarith
  rw [hrule]
  unfold countUp
  rw [hquotient, Int.sub_add_cancel]

/-- The covered cells of a window, counted by its two ends. -/
theorem covered_eq {n o : Nat} (hk : 0 ≤ a.kernel) (hstart : a.start o < n + a.padding) :
    (a.covered n o : Int) = min (a.start o + a.kernel) (n + a.padding) - a.start o := by
  have hcount : ∀ (k : Nat) (s b : Int), s ≤ b →
      (((List.range k).countP fun i : Nat => decide (s + i < b) : Nat) : Int) =
        min (k : Int) (b - s) := by
    intro k s b hsb
    induction k with
    | zero =>
      simp
      omega
    | succ k ih =>
      rw [List.range_succ, List.countP_append, List.countP_singleton]
      by_cases h : s + k < b
      · rw [if_pos (by simpa using h)]
        omega
      · rw [if_neg (by simpa using h)]
        omega
  unfold covered
  rw [hcount _ _ _ (by omega)]
  omega

end Axis

/-! ## The fully connected layer -/

namespace DenseLayer

/-- **`W x + b`.** -/
theorem values_linear {index : Int} {weight : Tensor Rat} {bias : Option (List Rat)}
    {grid : Option Grid} {l : DenseLayer Rat}
    (h : make index weight (Conversion.biasOr bias weight) grid = .ok l) {xs ys : List Rat}
    (hy : linear? weight bias xs = some ys) :
    xs.length = l.width ∧ ys.length = l.weights.length ∧ l.values xs = ys := by
  obtain ⟨-, count, hshape, hweights, hbias⟩ := make_ok h
  unfold linear? at hy
  rw [hshape] at hy
  dsimp only at hy
  split at hy
  swap
  · cases hy
  rename_i hwidth
  cases hy
  have hrows : weight.rows.length = count := Tensor.length_rows hshape
  have hcount : l.weights.length = count := by rw [hweights, hrows]
  refine ⟨hwidth.symm, by rw [List.length_map, List.length_range, hcount], ?_⟩
  have hb : l.bias.length = count := l.bias_length.trans hcount
  unfold values
  rw [← List.map_uncurry_zip_eq_zipWith, zip_eq_map_range [] 0 hcount hb, List.map_map]
  apply List.map_congr_left
  intro o ho
  have ho : o < count := List.mem_range.1 ho
  have hrow : ((l.weights[o]?).getD []).length = l.width := by
    rw [List.getElem?_eq_getElem (by omega), Option.getD_some]
    exact l.row_length _ (List.getElem_mem _)
  show Scalar.dot ((l.weights[o]?).getD []) xs + (l.bias[o]?).getD 0 = _
  rw [hbias, Conversion.getD_biasOr, Scalar.dot_eq_sum_range hrow hwidth.symm]
  congr 1
  refine Finset.sum_congr rfl fun j hj => ?_
  have hj : j < l.width := Finset.mem_range.1 hj
  rw [hweights, Tensor.getElem?_row hshape ho (by simpa using hj)]
  unfold Tensor.entry
  rw [hshape]
  simp

end DenseLayer

/-! ## The convolution -/

namespace ConvLayer

/-- The weight of kernel `o` at a position. -/
def weightAt (l : ConvLayer Rat) (o ch i j : Nat) : Rat :=
  (((l.kernels[o]?).getD [])[(ch * l.kernel.rows + i) * l.kernel.cols + j]?).getD 0

/-- One inner product with a receptive field, as a sum over the kernel. -/
theorem dot_field (l : ConvLayer Rat) (x : Picture) (hx : x.grid = l.input)
    (hch : l.kernel.channels = l.input.channels) {o : Nat} (ho : o < l.kernels.length)
    (r c : Nat) :
    Scalar.dot ((l.kernels[o]?).getD []) (l.field x.cells r c) =
      ∑ ch ∈ Finset.range l.kernel.channels, ∑ i ∈ Finset.range l.kernel.rows,
        ∑ j ∈ Finset.range l.kernel.cols, l.weightAt o ch i j *
          (x.at? ch (r * l.stride - l.padding + i) (c * l.stride - l.padding + j)).getD 0 := by
  have hlen : ((l.kernels[o]?).getD []).length = l.kernel.size := by
    rw [List.getElem?_eq_getElem ho, Option.getD_some]
    exact l.kernel_length _ (List.getElem_mem ho)
  -- the weights of a kernel, listed by position
  have hweights : (l.kernels[o]?).getD [] =
      l.kernel.positions.map fun p => l.weightAt o p.1 p.2.1 p.2.2 :=
    (Picture.cells_ofCells hlen).symm
  have hfield : l.field x.cells r c = l.kernel.positions.map fun p =>
      (x.at? p.1 (r * l.stride - l.padding + p.2.1)
        (c * l.stride - l.padding + p.2.2)).getD 0 := by
    apply List.map_congr_left
    rintro ⟨ch, i, j⟩ hp
    have hlt : ch < x.grid.channels := by
      rw [hx, ← hch]
      exact (Grid.mem_positions_iff.1 hp).1
    have hlook := x.lookup_cell? hlt (r * l.stride - l.padding + i) (c * l.stride - l.padding + j)
    rw [hx] at hlook
    exact hlook
  rw [← Grid.sum_positions, Scalar.dot_rat, hfield, hweights, List.zipWith_map, List.zipWith_self]

/-- **A convolution on a picture.**  Where as many windows fit as there are outputs, the outputs
    are the picture of the sums over the windows. -/
theorem values_cells (l : ConvLayer Rat) (hs : 0 < l.stride) (hp : 0 ≤ l.padding) (hfits : l.Fits)
    (x : Picture) (hx : x.grid = l.input) (hch : l.kernel.channels = l.input.channels) :
    l.values x.cells = .ok (Picture.mk l.output fun o r c =>
      (∑ ch ∈ Finset.range l.kernel.channels, ∑ i ∈ Finset.range l.kernel.rows,
        ∑ j ∈ Finset.range l.kernel.cols, l.weightAt o ch i j *
          (x.at? ch (r * l.stride - l.padding + i) (c * l.stride - l.padding + j)).getD 0) +
        (l.bias[o]?).getD 0).cells := by
  obtain ⟨hr, hc⟩ := hfits hs
  have hguard : ¬ (decide (l.stride ≤ 0) || decide (l.padding < 0)) = true := by
    simp only [Bool.or_eq_true, decide_eq_true_eq]
    omega
  have hkernels : l.kernels.length = l.output.channels := l.kernel_count
  have hbias : l.bias.length = l.output.channels := l.bias_length.trans hkernels
  unfold values
  rw [if_neg hguard]
  refine congrArg Except.ok ?_
  rw [fields_eq l x.cells hr hc, zip_eq_map_range [] 0 hkernels hbias, Picture.cells_mk l.output,
    List.flatMap_map]
  refine List.flatMap_congr fun o ho => ?_
  have ho : o < l.kernels.length := hkernels ▸ List.mem_range.1 ho
  simp only [List.map_flatMap, List.map_map, Function.comp_def, dot_field l x hx hch ho]

/-- The weight at a position of a kernel is the entry of the tensor that the kernels were made of. -/
theorem weightAt_eq_entry {l : ConvLayer Rat} {weight : Tensor Rat} {count : Nat}
    (hkernels : l.kernels = weight.rows)
    (hshape : weight.shape = [count, l.kernel.channels, l.kernel.rows, l.kernel.cols])
    {o ch i j : Nat} (ho : o < count) (hch : ch < l.kernel.channels) (hi : i < l.kernel.rows)
    (hj : j < l.kernel.cols) : l.weightAt o ch i j = weight.entry [o, ch, i, j] := by
  have hplace : (ch * l.kernel.rows + i) * l.kernel.cols + j <
      [l.kernel.channels, l.kernel.rows, l.kernel.cols].foldl (· * ·) 1 := by
    calc (ch * l.kernel.rows + i) * l.kernel.cols + j
        = j + l.kernel.cols * (i + l.kernel.rows * ch) := by ring
      _ < l.kernel.size := Grid.number_lt hch hi hj
      _ = [l.kernel.channels, l.kernel.rows, l.kernel.cols].foldl (· * ·) 1 := by simp [Grid.size]
  unfold weightAt Tensor.entry
  rw [hkernels, Tensor.getElem?_row hshape ho hplace, hshape]
  congr 2
  simp only [List.zip_cons_cons, List.zip_nil_right, List.foldl_cons, List.foldl_nil]
  ring

end ConvLayer

/-- Where two extents stand for one, it is that one. -/
theorem eq_of_square {sides : List Int} {what : String} {s a b : Int}
    (h : square sides what = .ok s) (hs : sides? sides = some (a, b)) : a = s ∧ b = s := by
  unfold sides? at hs
  split at hs
  · cases hs
    cases h
    exact ⟨rfl, rfl⟩
  · cases hs
    unfold square at h
    dsimp only at h
    split at h
    · rename_i hall
      cases h
      exact ⟨rfl, by simpa using hall⟩
    · cases h
  · cases hs

theorem mem_of_sides? {sides : List Int} {a b : Int} (h : sides? sides = some (a, b)) :
    a ∈ sides := by
  unfold sides? at h
  split at h
  · cases h
    exact List.mem_cons_self ..
  · cases h
    exact List.mem_cons_self ..
  · cases h

/-- Where a convolution has a meaning, and which. -/
theorem ConvModule.correlate?_eq_some {m : ConvModule Rat} {x y : Picture}
    (h : m.correlate? x = some y) :
    ∃ (count height width : Nat) (sides : List Int) (sr sc pr pc : Int),
      m.weight.shape = [count, x.grid.channels, height, width] ∧ m.padding = .extents sides ∧
      sides? m.stride = some (sr, sc) ∧ sides? sides = some (pr, pc) ∧
      (Axis.mk height sr pr).Regular ∧
      Grid.of count ((Axis.mk height sr pr).count x.grid.rows)
        ((Axis.mk width sc pc).count x.grid.cols) = .ok y.grid ∧
      y.pixel = fun o r c =>
        (∑ ch ∈ Finset.range x.grid.channels, ∑ i ∈ Finset.range height,
          ∑ j ∈ Finset.range width, m.weight.entry [o, ch, i, j] *
            (x.at? ch ((Axis.mk height sr pr).start r + i)
              ((Axis.mk width sc pc).start c + j)).getD 0) + biasAt m.bias o := by
  unfold correlate? at h
  split at h
  swap
  · cases h
  rename_i count channels height width sides hshape hsides
  obtain ⟨⟨sr, sc⟩, hsr, h⟩ := Option.bind_eq_some_iff.1 h
  obtain ⟨⟨pr, pc⟩, hpr, h⟩ := Option.bind_eq_some_iff.1 h
  dsimp only at h
  split at h
  swap
  · cases h
  rename_i hcond
  obtain ⟨hrows, -, rfl, -⟩ := hcond
  obtain ⟨grid, hgrid, h⟩ := Option.bind_eq_some_iff.1 h
  cases h
  exact ⟨count, height, width, sides, sr, sc, pr, pc, hshape, hsides, hsr, hpr, hrows,
    Outcome.ok_of_toOption hgrid, rfl⟩

namespace Conversion

/-- **A convolution module.**  The layer takes the picture and gives what the module means. -/
theorem convLayer_meaning {plan : ConversionPlan Rat} {index : Int} {m : ConvModule Rat}
    {l : ConvLayer Rat} {x y : Picture} (h : convLayer plan (some x.grid) index m = .ok l)
    (hnarrow : m.Narrow) (hy : m.correlate? x = some y) :
    l.input = x.grid ∧ l.output = y.grid ∧ l.values x.cells = .ok y.cells := by
  obtain ⟨g, sides, kernel, padding, stride, hg, hsides, hkernel, hpadding, hstride, hmake⟩ :=
    convLayer_ok h
  cases hg
  obtain ⟨hin, hstr, hpad, hgrid, hrows, hcols, hker, hbias⟩ := ConvLayer.make_ok hmake
  obtain ⟨count, height, width, sides', sr, sc, pr, pc, hshape, hsides', hsr, hpr, hregular, hout,
    hpixel⟩ := ConvModule.correlate?_eq_some hy
  cases hsides.symm.trans hsides'
  -- one extent for both axes
  rw [hshape] at hkernel
  obtain ⟨hheight, hwidth⟩ := eq_of_square hkernel
    (show sides? [(height : Int), (width : Int)] = some ((height : Int), (width : Int)) from rfl)
  obtain rfl : width = height := by omega
  obtain ⟨rfl, hsc⟩ := eq_of_square hstride hsr
  have hmem := mem_of_sides? hpr
  obtain ⟨rfl, hpc⟩ := eq_of_square hpadding hpr
  subst hsc hpc hwidth
  have hlt : pc < (width : Int) :=
    hnarrow sides hsides pc hmem width (by rw [hshape]; exact List.mem_cons_self ..)
  have hdown := Axis.windowCount_down (a := ⟨width, sc, pc⟩) hregular hlt
  have hr := Except.ok.inj (hrows.symm.trans (hdown x.grid.rows))
  have hc := Except.ok.inj (hcols.symm.trans (hdown x.grid.cols))
  have hcount : l.output.channels = count := by
    rw [← l.kernel_count, hker, Tensor.length_rows hshape]
  have hgrid' : l.output = y.grid := by
    have hext := l.output.of_extents
    rw [hr, hc, hcount] at hext
    exact Except.ok.inj (hext.symm.trans hout)
  refine ⟨hin, hgrid', ?_⟩
  obtain ⟨hkc, hkr, hkk⟩ := Grid.of_ok hgrid
  obtain ⟨-, hs₁, hp₀⟩ := hregular
  dsimp only at hs₁ hp₀
  have hvalues := l.values_cells (by omega) (by omega) (ConvLayer.fits_of_make hmake) x hin.symm
    (by rw [hin]; omega)
  rw [hvalues]
  obtain ⟨grid, pixel⟩ := y
  cases hgrid'
  cases hpixel
  refine congrArg Except.ok (Picture.cells_congr fun o r c ho _ _ => ?_)
  have hkc : l.kernel.channels = x.grid.channels := by omega
  have hkr : l.kernel.rows = width := by omega
  have hkk : l.kernel.cols = width := by omega
  rw [hbias, getD_biasOr, hstr, hpad, hkc, hkr, hkk]
  congr 1
  refine Finset.sum_congr rfl fun ch hch => Finset.sum_congr rfl fun i hi =>
    Finset.sum_congr rfl fun j hj => ?_
  have hentry : l.weightAt o ch i j = m.weight.entry [o, ch, i, j] :=
    ConvLayer.weightAt_eq_entry hker (by rw [hshape, hkc, hkr, hkk]) (by omega)
      (hkc ▸ Finset.mem_range.1 hch) (hkr ▸ Finset.mem_range.1 hi) (hkk ▸ Finset.mem_range.1 hj)
  rw [hentry]
  rfl

end Conversion

/-! ## Pooling -/

/-- The values found under the cell numbers of a window are those of the picture. -/
theorem Pooling.map_window {p : Pooling} {x : Picture} {a : Axis} {up : Bool}
    (hp : p.shape = ⟨x.grid, a.kernel, a.stride, a.padding, up⟩) {ch r c : Nat}
    (hpos : (ch, r, c) ∈ p.output.positions) :
    (p.shape.window ch r c).map (fun i => (x.cells[i]?).getD 0) =
      PoolModule.window x a a ch r c := by
  have hch : ch < x.grid.channels := by
    have hlt := (Grid.mem_positions_iff.1 hpos).1
    rwa [p.channels_eq, hp] at hlt
  rw [hp]
  unfold PoolShape.window PoolModule.window
  rw [List.map_flatMap]
  refine List.flatMap_congr fun i _ => ?_
  rw [List.map_filterMap]
  exact List.filterMap_congr fun j _ => x.map_cell? hch _ _

/-- What the scan for the maximum finds is the maximum. -/
theorem MaxPool.max?_window (x : List Rat) {w : List Nat} (hw : w ≠ []) :
    (w.map fun i => (x[i]?).getD 0).max? = some ((x[winner x w]?).getD 0) := by
  obtain ⟨hmem, hle⟩ := winner_attains x hw
  rw [List.max?_eq_some_iff]
  refine ⟨List.mem_map.2 ⟨_, hmem, rfl⟩, fun b hb => ?_⟩
  obtain ⟨i, hi, rfl⟩ := List.mem_map.1 hb
  exact hle i hi

namespace PoolModule

/-- Where the windows of a module lie. -/
theorem axes?_eq_some {m : PoolModule} {rows cols : Axis} (h : m.axes? = some (rows, cols)) :
    sides? m.kernel = some (rows.kernel, cols.kernel) ∧
      sides? (m.stride.getD m.kernel) = some (rows.stride, cols.stride) ∧
      sides? m.padding = some (rows.padding, cols.padding) ∧
      rows.Regular ∧ 2 * rows.padding ≤ rows.kernel := by
  unfold axes? at h
  obtain ⟨⟨kr, kc⟩, hk, h⟩ := Option.bind_eq_some_iff.1 h
  obtain ⟨⟨sr, sc⟩, hs, h⟩ := Option.bind_eq_some_iff.1 h
  obtain ⟨⟨pr, pc⟩, hp, h⟩ := Option.bind_eq_some_iff.1 h
  dsimp only at h
  split at h
  · rename_i hcond
    cases h
    exact ⟨hk, hs, hp, hcond.1, hcond.2.2.1⟩
  · cases h

end PoolModule

namespace Conversion

/-- **The geometry of a pooling module.**  It is the same along rows and columns, and the grid of
    the layer is the grid of the module. -/
theorem pooling_meaning {title : String} {index : Int} {m : PoolModule} {shape : PoolShape}
    {p : Pooling} {x : Picture} {rows cols : Axis} {grid : Grid}
    (hshape : poolShape (some x.grid) title m = .ok shape)
    (hmake : Pooling.make Rat index shape = .ok p) (haxes : m.axes? = some (rows, cols))
    (hgrid : m.grid? rows cols x.grid = some grid) :
    cols = rows ∧ rows.Regular ∧ p.output = grid ∧
      p.shape = ⟨x.grid, rows.kernel, rows.stride, rows.padding, m.ceilMode⟩ := by
  obtain ⟨input, kernel, stride, padding, up⟩ := shape
  obtain ⟨hinput, hkernel, hstride, hpadding, hup⟩ := poolShape_ok hshape
  cases hinput
  dsimp only at hkernel hstride hpadding hup
  subst hup
  obtain ⟨-, hp, hr, hc⟩ := Pooling.make_ok hmake
  obtain ⟨hk', hs', hp', hregular, hhalf⟩ := PoolModule.axes?_eq_some haxes
  obtain ⟨kr, sr, pr⟩ := rows
  obtain ⟨kc, sc, pc⟩ := cols
  obtain ⟨rfl, hkc⟩ := eq_of_square hkernel hk'
  obtain ⟨rfl, hsc⟩ := eq_of_square hstride hs'
  obtain ⟨rfl, hpc⟩ := eq_of_square hpadding hp'
  dsimp only at hkc hsc hpc hp hr hc hhalf
  subst hkc hsc hpc
  refine ⟨rfl, hregular, ?_, hp⟩
  have hlt : pc < kc := by
    have := hregular.1
    dsimp only at this
    omega
  have hcounts : ∀ n : Nat, windowCount Rat kc n sc pc m.ceilMode =
      .ok (if m.ceilMode then (Axis.mk kc sc pc).countUp n else (Axis.mk kc sc pc).count n) := by
    intro n
    cases m.ceilMode with
    | false => exact Axis.windowCount_down hregular hlt n
    | true => exact Axis.windowCount_up hregular n
  have hr := Except.ok.inj (hr.symm.trans (hcounts x.grid.rows))
  have hc := Except.ok.inj (hc.symm.trans (hcounts x.grid.cols))
  have hext := p.output.of_extents
  have hchannels : p.output.channels = x.grid.channels := by
    rw [p.channels_eq, hp]
  rw [hr, hc, hchannels] at hext
  exact Except.ok.inj (hext.symm.trans (Outcome.ok_of_toOption hgrid))

/-- **A maximum module.** -/
theorem maxPoolLayer_meaning {index : Int} {m : PoolModule} {l : MaxPool} {x y : Picture}
    (h : maxPoolLayer Rat (some x.grid) index m = .ok l) (hy : m.max? x = some y) :
    l.pooling.shape.input = x.grid ∧ l.pooling.output = y.grid ∧ l.values x.cells = y.cells := by
  obtain ⟨p⟩ := l
  obtain ⟨shape, hshape, hmake⟩ := maxPoolLayer_ok h
  unfold PoolModule.max? at hy
  obtain ⟨⟨rows, cols⟩, haxes, hy⟩ := Option.bind_eq_some_iff.1 hy
  dsimp only at hy
  split at hy
  swap
  · cases hy
  obtain ⟨grid, hgrid, hy⟩ := Option.bind_eq_some_iff.1 hy
  cases hy
  obtain ⟨hcols, -, rfl, hp⟩ := pooling_meaning hshape hmake haxes hgrid
  subst hcols
  refine ⟨by rw [hp], rfl, ?_⟩
  unfold MaxPool.values MaxPool.winners Picture.cells
  rw [Pooling.windows_eq, List.map_map, List.map_map]
  apply List.map_congr_left
  rintro ⟨ch, r, c⟩ hpos
  have hmax := MaxPool.max?_window x.cells (p.window_ne_nil hpos)
  rw [Pooling.map_window hp hpos] at hmax
  show _ = ((PoolModule.window x cols cols ch r c).max?).getD 0
  rw [hmax]
  rfl

/-- The divisor a layer takes for a window is the one the module takes. -/
theorem divisor_meaning {m : PoolModule} {p : Pooling} {x : Picture} {a : Axis} (ha : a.Regular)
    (hp : p.shape = ⟨x.grid, a.kernel, a.stride, a.padding, m.ceilMode⟩) {ch r c : Nat}
    (hpos : (ch, r, c) ∈ p.output.positions) :
    (AvgPool.divisorAt p.shape false m.countIncludePad m.divisorOverride ch r c : Rat) =
      m.divisor x a a ch r c := by
  unfold AvgPool.divisorAt PoolModule.divisor
  cases m.divisorOverride with
  | some d => rfl
  | none =>
    dsimp only
    cases m.countIncludePad with
    | true =>
      -- no window starts beyond the padded axis, so its two ends count its cells
      obtain ⟨-, hr, hc⟩ := p.start_lt hpos
      have hk : 0 ≤ a.kernel := by have := ha.1; omega
      have hpad : 0 ≤ a.padding := ha.2.2
      rw [hp] at hr hc ⊢
      dsimp only at hr hc
      have hrows := Axis.covered_eq (n := x.grid.rows) (o := r) hk (by unfold Axis.start; omega)
      have hcols := Axis.covered_eq (n := x.grid.cols) (o := c) hk (by unfold Axis.start; omega)
      rw [if_pos rfl, if_pos rfl, Int.cast_mul]
      exact congrArg₂ (· * ·) (congrArg Int.cast hrows.symm) (congrArg Int.cast hcols.symm)
    | false =>
      have hlen := congrArg List.length (Pooling.map_window hp hpos)
      rw [List.length_map] at hlen
      rw [if_neg Bool.false_ne_true, if_neg Bool.false_ne_true, if_neg Bool.false_ne_true,
        add_zero, hlen]
      rfl

/-- **A mean module.**  No divisor is zero, and the layer gives what the module means. -/
theorem avgPoolLayer_meaning {plan : ConversionPlan Rat} {title : String} {index : Int}
    {m : PoolModule} {shape : PoolShape} {l : AvgPool Rat} {x y : Picture}
    (hshape : poolShape (some x.grid) title m = .ok shape)
    (h : avgPoolLayer plan index shape m = .ok l) (hlegacy : plan.legacyDivisor = false)
    (hy : m.mean? x = some y) :
    l.pooling.shape.input = x.grid ∧ l.pooling.output = y.grid ∧ (∀ d ∈ l.divisors, d ≠ 0) ∧
      l.recipes.map (Recipe.run x.cells) = y.cells := by
  obtain ⟨hmake, -, h⟩ := avgPoolLayer_ok h
  have h := h hlegacy
  unfold PoolModule.mean? at hy
  obtain ⟨⟨rows, cols⟩, haxes, hy⟩ := Option.bind_eq_some_iff.1 hy
  dsimp only at hy
  split at hy
  swap
  · cases hy
  obtain ⟨grid, hgrid, hy⟩ := Option.bind_eq_some_iff.1 hy
  cases hy
  obtain ⟨hcols, hregular, rfl, hp⟩ := pooling_meaning hshape hmake haxes hgrid
  subst hcols
  have hpad : 0 ≤ l.pooling.shape.padding := by
    rw [hp]
    exact hregular.2.2
  refine ⟨by rw [hp], rfl, AvgPool.divisors_ne_zero hpad h, ?_⟩
  rw [AvgPool.map_run_recipes h]
  refine List.map_congr_left fun ⟨ch, r, c⟩ hpos => ?_
  dsimp only
  rw [Pooling.map_window hp hpos, divisor_meaning hregular hp hpos]

end Conversion

end Perturb
