/-
  How many outputs a converted convolution has.

  A convolution module has `⌊(n + 2p - k) / s⌋ + 1` outputs along an axis of `n` cells
  (`Axis.count`).  The layer it is converted to follows the size rule that convolution and pooling
  share, and that rule leaves out a last window which would start inside the trailing padding.

  1. **One axis** (`Axis.trims_of_windowCount`) — the layer has all windows if the last one starts
     before the trailing padding, and one less if only the last one does not.

  2. **One module** (`Conversion.trims_of_convLayer`) — extents that differ along the two axes are
     refused, so the layer has the axes of the module.

  3. **A network** (`Net.ofModules_conv_grid`) — the layer of a module is found behind those of the
     modules before it; modules that leave no layer behind do not count.
-/
import Perturb.Proofs.Net.Wellformed
import Perturb.Proofs.Layer.Positions

namespace Perturb

/-! ## One axis -/

/-- `out` of the windows that a module has on `n` cells are kept. -/
structure Axis.Trims (a : Axis) (n out : Nat) : Prop where
  /-- If the last window starts before the trailing padding, all windows are kept. -/
  whole : (a.count n - 1) * a.stride < n + a.padding → (out : Int) = a.count n
  /-- If the last window is the only one that does not, it is left out. -/
  butLast : n + a.padding ≤ (a.count n - 1) * a.stride →
    (∀ t : Nat, (t : Int) + 1 < a.count n → a.Inside n t) → (out : Int) = a.count n - 1
  /-- With a padding smaller than the kernel, all windows are kept. -/
  narrow : a.padding < a.kernel → (out : Int) = a.count n
  /-- With a padding not larger than the kernel, all windows but the last one start before the
      trailing padding. -/
  wide : a.padding ≤ a.kernel → ∀ t : Nat, (t : Int) + 1 < a.count n → a.Inside n t

theorem Axis.trims_of_windowCount {a : Axis} (ha : a.Regular) {n out : Nat}
    (h : windowCount Rat a.kernel n a.stride a.padding false = .ok (out : Int)) :
    a.Trims n out := by
  have hrule := Except.ok.inj (h.symm.trans (windowCount_floor ha n))
  have hlast := count_sub_one_mul_le ha n
  have hp := ha.2.2
  constructor
  · intro hinside
    rw [hrule, if_neg (by omega)]
  · intro houtside _
    rw [hrule, if_pos houtside]
  · intro hnarrow
    rw [hrule, if_neg (by omega)]
  · intro hwide t ht
    -- the next window still ends on the padded axis
    have hnext : ((t : Int) + 1) * a.stride ≤ (a.count n - 1) * a.stride :=
      mul_stride_mono ha (by omega)
    have hs := ha.2.1
    rw [Int.add_mul, Int.one_mul] at hnext
    unfold Inside
    omega

/-! ## One module -/

/-- How the windows of a convolution module lie along rows and columns. -/
def ConvModule.axes? (m : ConvModule Rat) : Option (Axis × Axis) :=
  match m.weight.shape, m.padding with
  | [_, _, height, width], .extents sides => do
    let (strideRows, strideCols) ← sides? m.stride
    let (padRows, padCols) ← sides? sides
    some (⟨height, strideRows, padRows⟩, ⟨width, strideCols, padCols⟩)
  | _, _ => none

namespace Conversion

theorem trims_of_convLayer {plan : ConversionPlan Rat} {grid : Option Grid} {index : Int}
    {m : ConvModule Rat} {l : ConvLayer Rat} (h : convLayer plan grid index m = .ok l)
    {rows cols : Axis} (haxes : m.axes? = some (rows, cols)) (hr : rows.Regular)
    (hc : cols.Regular) :
    rows.Trims l.input.rows l.output.rows ∧ cols.Trims l.input.cols l.output.cols := by
  obtain ⟨g, sides, kernel, padding, stride, -, hsides, hkernel, hpadding, hstride, hmake⟩ :=
    convLayer_ok h
  obtain ⟨rfl, -, -, -, hrows, hcols, -⟩ := ConvLayer.make_ok hmake
  unfold ConvModule.axes? at haxes
  split at haxes
  swap
  · cases haxes
  rename_i height width sides' hshape hsides'
  cases hsides.symm.trans hsides'
  obtain ⟨⟨sr, sc⟩, hs, haxes⟩ := Option.bind_eq_some_iff.1 haxes
  obtain ⟨⟨pr, pc⟩, hp, haxes⟩ := Option.bind_eq_some_iff.1 haxes
  cases haxes
  rw [hshape] at hkernel
  obtain ⟨rfl, hwidth⟩ := eq_of_square hkernel
    (show sides? [(height : Int), (width : Int)] = some ((height : Int), (width : Int)) from rfl)
  obtain ⟨rfl, rfl⟩ := eq_of_square hstride hs
  obtain ⟨rfl, rfl⟩ := eq_of_square hpadding hp
  rw [hwidth] at hc ⊢
  exact ⟨Axis.trims_of_windowCount hr hrows, Axis.trims_of_windowCount hc hcols⟩

/-! ## The place of a layer -/

section

variable {plan : ConversionPlan Rat} {c c' : Conversion Rat} {m : Module Rat}
  {modules before after : List (Module Rat)} {noted : List Nat}

/-- A module that leaves a layer behind adds one, and any other adds none. -/
theorem length_of_step (h : step plan c m = (noted, .ok c')) :
    c'.layers.length = c.layers.length + if m.isSilent then 0 else 1 := by
  rcases step_ok h with ⟨rfl, rfl⟩ | ⟨rfl, rfl⟩ | ⟨l, grid, hplaces, rfl⟩
  · rfl
  · rfl
  · have hloud : m.isSilent = false := by
      cases hplaces <;> rfl
    rw [hloud]
    exact List.length_append

/-- Every module that leaves a layer behind adds one. -/
theorem length_of_steps (h : steps plan c modules = (noted, .ok c')) :
    c'.layers.length = c.layers.length + modules.countP fun m => !m.isSilent := by
  induction modules generalizing c noted with
  | nil =>
    obtain ⟨-, h⟩ := Prod.mk.inj h
    cases h
    rfl
  | cons m rest ih =>
    obtain ⟨_, c₁, _, hstep, hrest⟩ := steps_cons_ok h
    rw [ih hrest, length_of_step hstep, List.countP_cons]
    cases m.isSilent <;> simp only [Bool.not_true, Bool.not_false, if_true, if_false,
      Bool.false_eq_true] <;> omega

/-- Converting modules is converting the first of them, then one, and then the others. -/
theorem steps_append_ok (h : steps plan c (before ++ m :: after) = (noted, .ok c')) :
    ∃ noted₁ c₁ noted₂ c₂ noted₃, steps plan c before = (noted₁, .ok c₁) ∧
      step plan c₁ m = (noted₂, .ok c₂) ∧ steps plan c₂ after = (noted₃, .ok c') := by
  induction before generalizing c noted with
  | nil =>
    obtain ⟨noted₁, c₁, noted₂, hstep, hrest⟩ := steps_cons_ok h
    exact ⟨[], c, noted₁, c₁, noted₂, rfl, hstep, hrest⟩
  | cons a before ih =>
    obtain ⟨noted₀, c₀, _, hstep, hrest⟩ := steps_cons_ok h
    obtain ⟨noted₁, c₁, noted₂, c₂, noted₃, hbefore, hm, hafter⟩ := ih hrest
    refine ⟨noted₀ ++ noted₁, c₁, noted₂, c₂, noted₃, ?_, hm, hafter⟩
    rw [steps, hstep]
    dsimp only
    rw [hbefore]

/-- What a conversion begins with is the scaling layer, if one is planned. -/
theorem length_of_begin {crop : Option Crop} {start : Conversion Rat}
    (h : begin plan = .ok (crop, start)) : start.layers.length = plan.scale.toList.length := by
  rcases begin_ok h with ⟨-, hscale, -, rfl⟩ | ⟨e, whole, seen, -, -, -, hscale⟩
  · rw [hscale]
    rfl
  · rcases hscale with ⟨hnone, rfl⟩ | ⟨factor, l, hfactor, -, rfl⟩
    · rw [hnone]
      rfl
    · rw [hfactor]
      rfl

end

end Conversion

/-- The number of the layer that a module is converted to: the layers before it are the scaling
    layer, if there is one, and those of the modules before it. -/
def ConversionPlan.place (plan : ConversionPlan Rat) (before : List (Module Rat)) : Nat :=
  plan.scale.toList.length + before.countP fun m => !m.isSilent

/-- The layer of a convolution module stands at its place. -/
theorem Net.ofModules_conv {plan : ConversionPlan Rat} {before after : List (Module Rat)}
    {m : ConvModule Rat} {noted : List Nat} {net : Net Rat}
    (h : Net.ofModules plan (before ++ .conv m :: after) = (noted, .ok net)) :
    ∃ grid l, net.layers[plan.place before]? = some (.affine (.stage (.conv l))) ∧
      Conversion.convLayer plan grid (plan.place before) m = .ok l := by
  obtain ⟨start, _, c, hbegin, hsteps, hlayers⟩ := ofModules_ok h
  obtain ⟨_, c₁, _, c₂, _, hbefore, hstep, hafter⟩ := Conversion.steps_append_ok hsteps
  have hplace : c₁.layers.length = plan.place before := by
    rw [Conversion.length_of_steps hbefore, Conversion.length_of_begin hbegin]
    rfl
  obtain ⟨behind, hbehind⟩ := Conversion.prefix_of_steps hafter
  rcases Conversion.step_ok hstep with ⟨hm, -⟩ | ⟨hm, -⟩ | ⟨l, grid, hplaces, rfl⟩
  · cases hm
  · cases hm
  cases hplaces with
  | @conv _ l hl =>
    refine ⟨c₁.grid, l, ?_, hplace ▸ hl⟩
    rw [hlayers, ← hbehind, ← hplace]
    show (c₁.layers ++ [_] ++ behind)[c₁.layers.length]? = _
    rw [List.append_assoc, List.getElem?_append_right le_rfl, Nat.sub_self]
    rfl

/-- **Converted convolutions have the documented grid, up to a last window in the padding.**  Take
    any modules that the conversion accepts and a convolution among them, with windows and strides
    of at least one and a padding that is not negative.  Its layer stands at the place of the
    module.  Along each axis it has the documented number of outputs if the last window starts
    before the trailing padding, as it does if the padding is smaller than the kernel; and one less
    if the last window is the only one that does not. -/
theorem Net.ofModules_conv_grid {plan : ConversionPlan Rat} {before after : List (Module Rat)}
    {m : ConvModule Rat} {noted : List Nat} {net : Net Rat}
    (h : Net.ofModules plan (before ++ .conv m :: after) = (noted, .ok net)) {rows cols : Axis}
    (haxes : m.axes? = some (rows, cols)) (hr : rows.Regular) (hc : cols.Regular) :
    ∃ l : ConvLayer Rat, net.layers[plan.place before]? = some (.affine (.stage (.conv l))) ∧
      rows.Trims l.input.rows l.output.rows ∧ cols.Trims l.input.cols l.output.cols := by
  obtain ⟨grid, l, hplace, hl⟩ := ofModules_conv h
  exact ⟨l, hplace, Conversion.trims_of_convLayer hl haxes hr hc⟩

/-! ### Convolutions to look at -/

namespace Rim

/-- Windows of one cell on an image with some channels, padded by one cell. -/
def thin (channels : Nat) : ConvModule Rat where
  weight := ⟨[1, channels, 1, 1], List.replicate channels 1⟩
  bias := none
  stride := [1]
  padding := .extents [1]
  dilation := [1]
  groups := 1
  paddingMode := "zeros"

/-- An image of one channel. -/
def plan (side : Int) : ConversionPlan Rat where
  shape := some ⟨1, side, side⟩
  crop := none
  scale := none
  threads := 1
  legacyDivisor := false

/-- Windows of two cells, and behind a rectifier windows of one cell, both padded by one cell. -/
def modules : List (Module Rat) := [.conv Medley.edges, .relu, .conv (thin 2)]

/-- The rows that the layers of a network take and give, where they form images. -/
def rowsOf (net : Net Rat) : List (Option (Nat × Nat)) :=
  net.layers.map fun l => l.inGrid.bind fun g => l.outGrid.map fun g' => (g.rows, g'.rows)

/-- Modules that are accepted, with the rows that come out. -/
theorem exists_net {side : Int} {modules : List (Module Rat)} {rows : List (Option (Nat × Nat))}
    (hnoted : (Net.ofModules (plan side) modules).1 = [])
    (hrows : (Net.ofModules (plan side) modules).2.toOption.map rowsOf = some rows) :
    ∃ net, Net.ofModules (plan side) modules = ([], .ok net) ∧ rowsOf net = rows := by
  obtain ⟨net, hnet, hrows⟩ := Option.map_eq_some_iff.1 hrows
  exact ⟨net, Prod.ext hnoted (Outcome.ok_of_toOption hnet), hrows⟩

/-- The rows of a layer that stands at a place. -/
theorem rows_of_getElem? {net : Net Rat} {i n n' : Nat} {l : ConvLayer Rat}
    (hl : net.layers[i]? = some (.affine (.stage (.conv l))))
    (h : (rowsOf net)[i]? = some (some (n, n'))) : l.input.rows = n ∧ l.output.rows = n' := by
  unfold rowsOf at h
  rw [List.getElem?_map, hl] at h
  cases h
  exact ⟨rfl, rfl⟩

end Rim

/-- Four windows of two cells fit three padded cells, and all are kept.  Six windows of one cell fit
    the four padded cells behind them, and the last of these is left out. -/
theorem Net.ofModules_conv_grid_rim :
    ∃ (net : Net Rat) (l l' : ConvLayer Rat),
      Net.ofModules (Rim.plan 3) Rim.modules = ([], .ok net) ∧
      net.layers[0]? = some (.affine (.stage (.conv l))) ∧ (l.output.rows : Int) = 4 ∧
      net.layers[2]? = some (.affine (.stage (.conv l'))) ∧ (l'.output.rows : Int) = 6 - 1 := by
  have hcomputed : (Net.ofModules (Rim.plan 3) Rim.modules).2.toOption.map Rim.rowsOf =
      some [some (3, 4), some (4, 4), some (4, 5)] := by decide +kernel
  obtain ⟨net, hnet, hrows⟩ := Rim.exists_net (by decide +kernel) hcomputed
  have hedges : Medley.edges.axes? = some (⟨2, 1, 1⟩, ⟨2, 1, 1⟩) := rfl
  have hthin : (Rim.thin 2).axes? = some (⟨1, 1, 1⟩, ⟨1, 1, 1⟩) := rfl
  have hfirst : Net.ofModules (Rim.plan 3)
      ([] ++ .conv Medley.edges :: [.relu, .conv (Rim.thin 2)]) = ([], .ok net) := hnet
  have hlast : Net.ofModules (Rim.plan 3)
      ([.conv Medley.edges, .relu] ++ .conv (Rim.thin 2) :: []) = ([], .ok net) := hnet
  obtain ⟨l, hl, htrims, -⟩ := Net.ofModules_conv_grid hfirst hedges (by decide) (by decide)
  obtain ⟨l', hl', htrims', -⟩ := Net.ofModules_conv_grid hlast hthin (by decide) (by decide)
  have hthree : l.input.rows = 3 := (Rim.rows_of_getElem? hl (by rw [hrows]; rfl)).1
  have hfour : l'.input.rows = 4 := (Rim.rows_of_getElem? hl' (by rw [hrows]; rfl)).1
  rw [hthree] at htrims
  rw [hfour] at htrims'
  exact ⟨net, l, l', hnet, hl, htrims.narrow (by decide), hl',
    htrims'.butLast (by decide) (htrims'.wide (by decide))⟩

/-- **A window that is left out.**  Three windows of one cell fit one padded cell; the layer has
    two. -/
theorem Net.ofModules_conv_leaves_out :
    ∃ (net : Net Rat) (l : ConvLayer Rat),
      Net.ofModules (Rim.plan 1) [.conv (Rim.thin 1)] = ([], .ok net) ∧
      net.layers[0]? = some (.affine (.stage (.conv l))) ∧
      (Rim.thin 1).axes? = some (⟨1, 1, 1⟩, ⟨1, 1, 1⟩) ∧ (Axis.mk 1 1 1).Regular ∧
      l.input.rows = 1 ∧ (Axis.mk 1 1 1).count 1 = 3 ∧ l.output.rows = 2 := by
  have hcomputed : (Net.ofModules (Rim.plan 1) [.conv (Rim.thin 1)]).2.toOption.map Rim.rowsOf =
      some [some (1, 2)] := by decide +kernel
  obtain ⟨net, hnet, hrows⟩ := Rim.exists_net (by decide +kernel) hcomputed
  have honly : Net.ofModules (Rim.plan 1) ([] ++ .conv (Rim.thin 1) :: []) = ([], .ok net) := hnet
  obtain ⟨grid, l, hl, -⟩ := Net.ofModules_conv honly
  obtain ⟨hone, htwo⟩ := Rim.rows_of_getElem? hl (by rw [hrows]; rfl)
  exact ⟨net, l, hnet, hl, rfl, by decide, hone, by decide, htwo⟩

end Perturb
