/-
  What the constructors of spatial layers guarantee.

  Convolution and pooling are built from a few integers, and a layer exists only if the integers
  describe a geometry.  Here the constructors are read backwards: from a layer that was made follow
  its sizes (`ConvLayer.make_ok`, `Pooling.make_ok`), and from those

    * a convolution never has more output positions than windows fit (`ConvLayer.fits_of_make`);
    * the divisor of a mean is never zero if the padding is not negative
      (`AvgPool.divisors_ne_zero`), because a window that holds a cell starts on the image.

  `windowCount_rat` is the size rule with its quotient taken exactly, and `windowCount_spec` what it
  comes to without a quotient: rounding settles two inequalities, and no proof after it divides.
-/
import Perturb.Proofs.Image.Numbering
import Perturb.Proofs.Layer.Direct
import Perturb.Proofs.Outcome
import Perturb.Layer.Pool

namespace Perturb

/-! ## Grids -/

namespace Grid

/-- A position has a cell if it lies on the image, and the cell is its number. -/
theorem cell?_eq_some_iff {g : Grid} {channel i : Nat} {row col : Int} :
    g.cell? channel row col = some i ↔
      (0 ≤ row ∧ row < g.rows ∧ 0 ≤ col ∧ col < g.cols) ∧ (i : Int) = g.index channel row col := by
  unfold cell?
  split
  · rename_i h
    obtain ⟨hrow, -, hcol, -⟩ := g.inBounds_iff.1 h
    have hpos : 0 ≤ g.index channel row col := by
      unfold index
      positivity
    rw [Option.some_inj, and_iff_right (g.inBounds_iff.1 h)]
    omega
  · rename_i h
    constructor
    · intro hi
      cases hi
    · rintro ⟨hi, -⟩
      exact absurd (g.inBounds_iff.2 hi) h

/-- There are as many positions as cells. -/
@[simp] theorem length_positions (g : Grid) : g.positions.length = g.size := by
  unfold positions size
  simp [List.length_flatMap, Nat.mul_assoc]

end Grid

/-! ## The size rule -/

/-- The number of windows along an axis, with the quotient as a fraction. -/
theorem windowCount_rat {kernel image stride padding : Int} (roundUp : Bool) (hs : stride ≠ 0) :
    windowCount Rat kernel image stride padding roundUp =
      let q : Rat := ((image + 2 * padding - kernel : Int) : Rat) / (stride : Rat)
      let n : Int := (if roundUp then ⌈q⌉ else ⌊q⌋) + 1
      .ok (if (n - 1) * stride ≥ image + padding then n - 1 else n) := by
  have hfloor : ∀ q : Rat, (Scalar.floor? (q + 1) : Option Int) = some (⌊q⌋ + 1) := by
    intro q
    show some ⌊q + 1⌋ = _
    rw [Int.floor_add_one]
  have hceil : ∀ q : Rat, (Scalar.ceil? (q + 1) : Option Int) = some (⌈q⌉ + 1) := by
    intro q
    rw [← Int.ceil_add_one]
    show some (Rat.ceil (q + 1)) = _
    rw [Rat.ceil_eq_neg_floor_neg]
    rfl
  unfold windowCount
  rw [if_neg hs]
  cases roundUp with
  | false =>
    dsimp only
    rw [if_neg Bool.false_ne_true]
    erw [hfloor]
    rfl
  | true =>
    dsimp only
    rw [if_pos rfl]
    erw [hceil]
    rfl

/-- The size rule without a division: `m` windows, of which the last is taken back if it does not
    start before the trailing padding.  What rounding says about `m` is between which multiples of
    the stride the free length lies. -/
theorem windowCount_spec {stride : Int} (hs : 0 < stride) (kernel image padding : Int)
    (roundUp : Bool) :
    ∃ m : Int,
      windowCount Rat kernel image stride padding roundUp =
        .ok (if image + padding ≤ (m - 1) * stride then m - 1 else m) ∧
      (roundUp = false → (m - 1) * stride ≤ image + 2 * padding - kernel ∧
        image + 2 * padding - kernel < m * stride) ∧
      (roundUp = true → (m - 2) * stride < image + 2 * padding - kernel ∧
        image + 2 * padding - kernel ≤ (m - 1) * stride) := by
  have hpos : (0 : Rat) < (stride : Rat) := Int.cast_pos.2 hs
  generalize hfree : image + 2 * padding - kernel = free
  have hrule : windowCount Rat kernel image stride padding roundUp = _ :=
    windowCount_rat roundUp hs.ne'
  rw [hfree] at hrule
  cases roundUp with
  | false =>
    obtain ⟨hlow, hhigh⟩ := Int.floor_eq_iff.1 (rfl : ⌊(free : Rat) / stride⌋ = _)
    rw [le_div_iff₀ hpos] at hlow
    rw [div_lt_iff₀ hpos] at hhigh
    simp only [Bool.false_eq_true, if_false] at hrule
    generalize ⌊(free : Rat) / stride⌋ = f at hlow hhigh hrule
    refine ⟨f + 1, hrule, fun _ => ⟨?_, ?_⟩, fun h => by cases h⟩
    · rw [Int.add_sub_cancel]
      exact_mod_cast hlow
    · exact_mod_cast hhigh
  | true =>
    obtain ⟨hlow, hhigh⟩ := Int.ceil_eq_iff.1 (rfl : ⌈(free : Rat) / stride⌉ = _)
    rw [lt_div_iff₀ hpos] at hlow
    rw [div_le_iff₀ hpos] at hhigh
    simp only [if_true] at hrule
    generalize ⌈(free : Rat) / stride⌉ = f at hlow hhigh hrule
    refine ⟨f + 1, hrule, (fun h => by cases h), fun _ => ⟨?_, ?_⟩⟩
    · rw [show f + 1 - 2 = f - 1 by ring]
      exact_mod_cast hlow
    · rw [Int.add_sub_cancel]
      exact_mod_cast hhigh

/-- Rounded down, there are no more windows than fit the padded axis. -/
theorem le_of_windowCount {kernel image stride padding count : Int} (hs : 0 < stride)
    (h : windowCount Rat kernel image stride padding false = .ok count) :
    count ≤ Int.fdiv (image + 2 * padding - kernel) stride + 1 := by
  obtain ⟨m, hrule, hdown, -⟩ := windowCount_spec hs kernel image padding false
  have hfits : m - 1 ≤ (image + 2 * padding - kernel) / stride :=
    (Int.le_ediv_iff_mul_le hs).2 (hdown rfl).1
  have hcount := Except.ok.inj (h.symm.trans hrule)
  rw [Int.fdiv_eq_ediv_of_nonneg _ hs.le]
  split at hcount <;> omega

/-! ## Convolutions -/

namespace ConvLayer

/-- What a convolution is made of: its number, its extents and its parameters. -/
theorem eq_of_make {index : Int} {input : Grid} {kernels : Tensor Rat} {bias : List Rat}
    {kernelDim padding stride workers : Int} {l : ConvLayer Rat}
    (h : make index input kernels bias kernelDim padding stride workers = .ok l) :
    l.index = index ∧ l.input = input ∧ l.stride = stride ∧ l.padding = padding ∧
      Grid.of input.channels kernelDim kernelDim = .ok l.kernel ∧
      windowCount Rat kernelDim input.rows stride padding false = .ok (l.output.rows : Int) ∧
      windowCount Rat kernelDim input.cols stride padding false = .ok (l.output.cols : Int) ∧
      l.kernels = kernels.rows ∧ l.bias = bias := by
  unfold make at h
  dsimp only at h
  -- an empty shape and an empty first axis are refused before anything else
  split at h
  · cases h
  · cases h
  obtain ⟨rows, hrowlist, h⟩ := Outcome.bind_ok_iff.1 h
  cases hrowlist
  obtain ⟨kernel, hkernel, h⟩ := Outcome.bind_ok_iff.1 h
  split at h
  · split at h
    · obtain ⟨outRows, hrows, h⟩ := Outcome.bind_ok_iff.1 h
      obtain ⟨outCols, hcols, h⟩ := Outcome.bind_ok_iff.1 h
      obtain ⟨output, houtput, h⟩ := Outcome.bind_ok_iff.1 h
      split at h
      · cases h
        obtain ⟨-, hr, hc⟩ := Grid.of_ok houtput
        exact ⟨rfl, rfl, rfl, rfl, hkernel, by rw [hrows, ← hr], by rw [hcols, ← hc], rfl, rfl⟩
      · cases h
    · cases h
  · cases h

/-- A convolution that was made has the extents and the parameters it was made with. -/
theorem make_ok {index : Int} {input : Grid} {kernels : Tensor Rat} {bias : List Rat}
    {kernelDim padding stride workers : Int} {l : ConvLayer Rat}
    (h : make index input kernels bias kernelDim padding stride workers = .ok l) :
    l.input = input ∧ l.stride = stride ∧ l.padding = padding ∧
      Grid.of input.channels kernelDim kernelDim = .ok l.kernel ∧
      windowCount Rat kernelDim input.rows stride padding false = .ok (l.output.rows : Int) ∧
      windowCount Rat kernelDim input.cols stride padding false = .ok (l.output.cols : Int) ∧
      l.kernels = kernels.rows ∧ l.bias = bias :=
  (eq_of_make h).2

/-- Its kernel has the channels of its image, and is square. -/
theorem kernel_of_make {index : Int} {input : Grid} {kernels : Tensor Rat} {bias : List Rat}
    {kernelDim padding stride workers : Int} {l : ConvLayer Rat}
    (h : make index input kernels bias kernelDim padding stride workers = .ok l) :
    l.kernel.channels = l.input.channels ∧ l.kernel.cols = l.kernel.rows := by
  obtain ⟨rfl, -, -, hkernel, -⟩ := make_ok h
  obtain ⟨hchannels, hrows, hcols⟩ := Grid.of_ok hkernel
  omega

/-- With a positive stride there are no more output positions than windows fit. -/
def Fits (l : ConvLayer Rat) : Prop :=
  0 < l.stride →
    l.output.rows ≤ l.fitting l.input.rows ∧ l.output.cols ≤ l.fitting l.input.cols

theorem fits_of_make {index : Int} {input : Grid} {kernels : Tensor Rat} {bias : List Rat}
    {kernelDim padding stride workers : Int} {l : ConvLayer Rat}
    (h : make index input kernels bias kernelDim padding stride workers = .ok l) : l.Fits := by
  intro hs
  obtain ⟨hi, hstride, hp, hkernel, hr, hc, -, -⟩ := make_ok h
  have hk : (l.kernel.rows : Int) = kernelDim := (Grid.of_ok hkernel).2.1
  subst hi hstride hp hk
  have hrows := le_of_windowCount hs hr
  have hcols := le_of_windowCount hs hc
  unfold fitting
  exact ⟨by omega, by omega⟩

end ConvLayer

/-! ## Pooling -/

namespace Pooling

/-- A pooling geometry that was made has the shape it was made with. -/
theorem make_ok {index : Int} {shape : PoolShape} {p : Pooling}
    (h : make Rat index shape = .ok p) :
    p.index = index ∧ p.shape = shape ∧
      windowCount Rat shape.kernelDim shape.input.rows shape.stride shape.padding shape.roundUp
        = .ok (p.output.rows : Int) ∧
      windowCount Rat shape.kernelDim shape.input.cols shape.stride shape.padding shape.roundUp
        = .ok (p.output.cols : Int) := by
  unfold make at h
  obtain ⟨rows, hrows, h⟩ := Outcome.bind_ok_iff.1 h
  obtain ⟨cols, hcols, h⟩ := Outcome.bind_ok_iff.1 h
  obtain ⟨output, houtput, h⟩ := Outcome.bind_ok_iff.1 h
  obtain ⟨-, hr, hc⟩ := Grid.of_ok houtput
  split at h
  · split at h
    · cases h
      exact ⟨rfl, rfl, by rw [hrows, ← hr], by rw [hcols, ← hc]⟩
    · split at h <;> cases h
  · cases h

/-- The windows are those of the output positions, in order. -/
theorem windows_eq (p : Pooling) :
    p.windows = p.output.positions.map fun (channel, r, c) => p.shape.window channel r c := rfl

/-- There is one window for every output. -/
@[simp] theorem length_windows (p : Pooling) : p.windows.length = p.output.size := by
  rw [windows_eq, List.length_map, Grid.length_positions]

/-- The window of an output has a cell. -/
theorem window_ne_nil (p : Pooling) {channel r c : Nat}
    (h : (channel, r, c) ∈ p.output.positions) : p.shape.window channel r c ≠ [] :=
  p.filled _ (List.mem_map.2 ⟨_, h, rfl⟩)

/-- A window that holds a cell starts above the last row and before the last column, and its side
    is positive. -/
theorem start_lt (p : Pooling) {channel r c : Nat} (h : (channel, r, c) ∈ p.output.positions) :
    0 < p.shape.kernelDim ∧ r * p.shape.stride - p.shape.padding < p.shape.input.rows ∧
      c * p.shape.stride - p.shape.padding < p.shape.input.cols := by
  obtain ⟨cell, hcell⟩ := List.exists_mem_of_ne_nil _ (p.window_ne_nil h)
  obtain ⟨i, hi, hcell⟩ := List.mem_flatMap.1 hcell
  obtain ⟨j, hj, hcell⟩ := List.mem_filterMap.1 hcell
  rw [List.mem_range] at hi hj
  obtain ⟨⟨-, hrow, -, hcol⟩, -⟩ := Grid.cell?_eq_some_iff.1 hcell
  omega

end Pooling

/-! ## Means -/

namespace AvgPool

/-- A window of a geometry with a padding that is not negative reaches a positive way into the
    padded axis. -/
theorem paddedExtent_pos {p : PoolShape} {position extent : Nat} (hk : 0 < p.kernelDim)
    (hp : 0 ≤ p.padding) (hs : position * p.stride - p.padding < extent) :
    0 < paddedExtent p position extent := by
  unfold paddedExtent
  dsimp only
  omega

/-- The divisor of a window: the one given outright, or else the one that is counted. -/
def divisorAt (p : PoolShape) (legacy includePad : Bool) (override : Option Int)
    (channel r c : Nat) : Int :=
  match override with
  | some d => d
  | none =>
    if includePad then paddedExtent p r p.input.rows * paddedExtent p c p.input.cols
    else Int.ofNat (p.window channel r c).length + if legacy then 1 else 0

/-- The counted divisors, window by window. -/
theorem countedDivisors_eq (p : Pooling) (legacy includePad : Bool) :
    countedDivisors p legacy includePad = p.output.positions.map fun (channel, r, c) =>
      divisorAt p.shape legacy includePad none channel r c := by
  unfold countedDivisors
  cases includePad with
  | true => rfl
  | false =>
    rw [if_neg Bool.false_ne_true, Pooling.windows_eq, List.map_map]
    rfl

section

variable {p : Pooling} {legacy includePad : Bool} {override : Option Int} {l : AvgPool Rat}

/-- A mean that was made has the geometry it was made over, and the divisor of every window; one
    given outright is positive. -/
theorem make_ok (h : make p legacy includePad override = .ok l) :
    l.pooling = p ∧ (∀ d, override = some d → 0 < d) ∧
      l.divisors = p.output.positions.map fun (channel, r, c) =>
        (divisorAt p.shape legacy includePad override channel r c : Rat) := by
  unfold make at h
  cases override with
  | some n =>
    dsimp only at h
    split at h
    · cases h
    · rename_i hn
      cases h
      refine ⟨rfl, fun d hd => ?_, ?_⟩
      · cases hd
        omega
      · show p.windows.map (fun _ => (n : Rat)) = _
        rw [Pooling.windows_eq, List.map_map]
        rfl
  | none =>
    dsimp only at h
    split at h
    · cases h
      refine ⟨rfl, fun d hd => (by cases hd), ?_⟩
      show (countedDivisors p legacy includePad).map Scalar.ofInt = _
      rw [countedDivisors_eq, List.map_map]
      rfl
    · cases h

/-- The divisor of a window is positive if the padding is not negative: the window holds a cell, so
    it has a positive way to go on the padded axes. -/
theorem divisorAt_pos (hp : 0 ≤ p.shape.padding) (hover : ∀ d, override = some d → 0 < d)
    {channel r c : Nat} (hpos : (channel, r, c) ∈ p.output.positions) :
    0 < divisorAt p.shape legacy includePad override channel r c := by
  cases override with
  | some d => exact hover d rfl
  | none =>
    unfold divisorAt
    dsimp only
    split
    · obtain ⟨hk, hr, hc⟩ := p.start_lt hpos
      exact Int.mul_pos (paddedExtent_pos hk hp hr) (paddedExtent_pos hk hp hc)
    · have hlen : 0 < (p.shape.window channel r c).length :=
        List.length_pos_of_ne_nil (p.window_ne_nil hpos)
      have hcells : 0 < Int.ofNat (p.shape.window channel r c).length := Int.natCast_pos.2 hlen
      split <;> omega

/-- Made over a geometry with a padding that is not negative, divisors are at least one, whichever of
    the four rules they come from. -/
theorem one_le_divisors (hp : 0 ≤ p.shape.padding)
    (h : make p legacy includePad override = .ok l) : ∀ d ∈ l.divisors, 1 ≤ d := by
  obtain ⟨-, hover, hdivisors⟩ := make_ok h
  intro d hd
  rw [hdivisors] at hd
  obtain ⟨⟨channel, r, c⟩, hpos, rfl⟩ := List.mem_map.1 hd
  exact Int.cast_one_le_of_pos (divisorAt_pos hp hover hpos)

/-- **No mean divides by zero.** -/
theorem divisors_ne_zero (hp : 0 ≤ p.shape.padding)
    (h : make p legacy includePad override = .ok l) : ∀ d ∈ l.divisors, d ≠ 0 := fun d hd =>
  (lt_of_lt_of_le one_pos (one_le_divisors hp h d hd)).ne'

/-- A recipe that adds up a window and divides. -/
theorem run_mean (x : List Rat) (w : List Nat) (d : Rat) :
    Recipe.run x (⟨0, w.map .add ++ [.mul (1 / d)]⟩ : Recipe Rat) =
      (w.map fun i => (x[i]?).getD 0).sum / d := by
  have hadds : ∀ m ∈ (w.map .add : List (Move Rat)), m.adds = true := by
    intro m hm
    obtain ⟨i, -, rfl⟩ := List.mem_map.1 hm
    rfl
  have hsum := Recipe.run_eq_sum (x := x) (r := ⟨0, w.map .add⟩) hadds
  rw [List.map_map, zero_add] at hsum
  have hlast : Recipe.run x (⟨0, w.map .add ++ [.mul (1 / d)]⟩ : Recipe Rat) =
      Recipe.run x ⟨0, w.map .add⟩ * (1 / d) := by
    unfold Recipe.run
    rw [List.foldl_append]
    rfl
  rw [hlast, hsum, mul_one_div]
  rfl

/-- The outputs of a mean are the sums of its windows over their divisors. -/
theorem map_run_recipes (h : make p legacy includePad override = .ok l) (x : List Rat) :
    l.recipes.map (Recipe.run x) = p.output.positions.map fun (channel, r, c) =>
      ((p.shape.window channel r c).map fun i => (x[i]?).getD 0).sum /
        (divisorAt p.shape legacy includePad override channel r c : Rat) := by
  obtain ⟨rfl, -, hdivisors⟩ := make_ok h
  unfold recipes
  rw [hdivisors, Pooling.windows_eq, List.zipWith_map, List.zipWith_self, List.map_map]
  exact List.map_congr_left fun ⟨channel, r, c⟩ _ => run_mean x _ _

end

end AvgPool

end Perturb
