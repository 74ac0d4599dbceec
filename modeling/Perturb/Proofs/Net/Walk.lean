/-
  What a conversion does, read backwards.

  A conversion that succeeds went through several functions that may fail.  Each of them is opened
  here once, and says everything its success means; proofs about converted networks go on from
  there.

  1. **Constructors and modules** — a layer that was made keeps what it was made of
     (`DenseLayer.make_ok`, `Relu.make_ok`, `DataLayer.make_ok`), and a module was converted from
     values of its own (`convLayer_ok`, `poolShape_ok`, `maxPoolLayer_ok`, `avgPoolLayer_ok`).

  2. **One module (`step_ok`)** — a module that is converted leaves the layers alone, or puts one
     layer behind them (`Places`), with the number and the notes it finds there.

  3. **The walk** — it starts from nothing, or from the image behind the crop (`begin_ok`); it is
     one step after the other (`steps_cons_ok`), so that what a step preserves it preserves
     (`steps_preserves`); and the network has the layers it ends with (`Net.ofModules_ok`).
-/
import Perturb.Net.Modules
import Perturb.Proofs.Layer.Geometry

namespace Perturb

/-! ## Constructors -/

/-- What a fully connected layer is made of. -/
theorem DenseLayer.make_ok {index : Int} {weights : Tensor Rat} {bias : List Rat}
    {grid : Option Grid} {l : DenseLayer Rat} (h : make index weights bias grid = .ok l) :
    (l.index = index ∧ l.grid = grid) ∧
      ∃ count, weights.shape = [count, l.width] ∧ l.weights = weights.rows ∧ l.bias = bias := by
  unfold make at h
  split at h
  · rename_i count width hshape
    dsimp only at h
    split at h
    · split at h
      · split at h
        · cases h
          exact ⟨⟨rfl, rfl⟩, count, hshape, rfl, rfl⟩
        · cases h
      · cases h
    · cases h
  · cases h

/-- What a rectifier is made of. -/
theorem Relu.make_ok {index : Int} {size : Nat} {grid : Option Grid} {l : Relu}
    (h : make index size grid = .ok l) : l.index = index ∧ l.size = size ∧ l.grid = grid := by
  unfold make at h
  split at h
  · cases h
    exact ⟨rfl, rfl, rfl⟩
  · cases h

/-- What an input layer without a mean is made of. -/
theorem DataLayer.make_ok {index : Int} {size : Nat} {scale : Rat} {grid : Option Grid}
    {l : DataLayer Rat} (h : make index size scale none none grid = .ok l) :
    l.index = index ∧ l.size = size ∧ l.scale = scale ∧ l.mean = List.replicate size 0 := by
  unfold make at h
  split at h
  · cases h
    exact ⟨rfl, rfl, rfl, rfl⟩
  · cases h

namespace Conversion

variable {plan : ConversionPlan Rat}

/-! ## Modules -/

/-- What a convolution module is converted to. -/
theorem convLayer_ok {grid : Option Grid} {index : Int} {m : ConvModule Rat} {l : ConvLayer Rat}
    (h : convLayer plan grid index m = .ok l) :
    ∃ g sides kernel padding stride, grid = some g ∧ m.padding = .extents sides ∧
      square ((m.weight.shape.drop 2).map Int.ofNat) "kernels" = .ok kernel ∧
      square sides "paddings" = .ok padding ∧ square m.stride "strides" = .ok stride ∧
      ConvLayer.make index g m.weight (biasOr m.bias m.weight) kernel padding stride plan.threads =
        .ok l := by
  unfold convLayer at h
  split at h
  · cases h
  rename_i g
  obtain ⟨dilation, -, h⟩ := Outcome.bind_ok_iff.1 h
  split at h
  · cases h
  split at h
  · cases h
  split at h
  · cases h
  rename_i sides hsides
  obtain ⟨kernel, hkernel, h⟩ := Outcome.bind_ok_iff.1 h
  obtain ⟨padding, hpadding, h⟩ := Outcome.bind_ok_iff.1 h
  obtain ⟨stride, hstride, h⟩ := Outcome.bind_ok_iff.1 h
  exact ⟨g, sides, kernel, padding, stride, rfl, hsides, hkernel, hpadding, hstride, h⟩

/-- The geometry of a pooling module. -/
theorem poolShape_ok {grid : Option Grid} {title : String} {m : PoolModule} {shape : PoolShape}
    (h : poolShape grid title m = .ok shape) :
    grid = some shape.input ∧ square m.kernel "kernels" = .ok shape.kernelDim ∧
      square (m.stride.getD m.kernel) "strides" = .ok shape.stride ∧
      square m.padding "paddings" = .ok shape.padding ∧ shape.roundUp = m.ceilMode := by
  unfold poolShape at h
  split at h
  · cases h
  obtain ⟨kernel, hkernel, h⟩ := Outcome.bind_ok_iff.1 h
  obtain ⟨stride, hstride, h⟩ := Outcome.bind_ok_iff.1 h
  obtain ⟨padding, hpadding, h⟩ := Outcome.bind_ok_iff.1 h
  cases h
  exact ⟨rfl, hkernel, hstride, hpadding, rfl⟩

/-- What a maximum module is converted to. -/
theorem maxPoolLayer_ok {grid : Option Grid} {index : Int} {m : PoolModule} {l : MaxPool}
    (h : maxPoolLayer Rat grid index m = .ok l) :
    ∃ shape, poolShape grid "MaxPool2d" m = .ok shape ∧
      Pooling.make Rat index shape = .ok l.pooling := by
  unfold maxPoolLayer at h
  obtain ⟨shape, hshape, h⟩ := Outcome.bind_ok_iff.1 h
  obtain ⟨dilation, -, h⟩ := Outcome.bind_ok_iff.1 h
  split at h
  · cases h
  obtain ⟨pooling, hmake, h⟩ := Outcome.bind_ok_iff.1 h
  cases h
  exact ⟨shape, hshape, hmake⟩

/-- What a mean module is converted to, with the legacy divisor or without. -/
theorem avgPoolLayer_ok {index : Int} {shape : PoolShape} {m : PoolModule} {l : AvgPool Rat}
    (h : avgPoolLayer plan index shape m = .ok l) :
    Pooling.make Rat index shape = .ok l.pooling ∧
      (plan.legacyDivisor = true → AvgPool.make l.pooling true false none = .ok l) ∧
      (plan.legacyDivisor = false →
        AvgPool.make l.pooling false m.countIncludePad m.divisorOverride = .ok l) := by
  unfold avgPoolLayer at h
  obtain ⟨pooling, hmake, h⟩ := Outcome.bind_ok_iff.1 h
  cases hlegacy : plan.legacyDivisor with
  | true =>
    rw [hlegacy, if_pos rfl] at h
    obtain ⟨rfl, -⟩ := AvgPool.make_ok h
    exact ⟨hmake, fun _ => h, fun hf => by cases hf⟩
  | false =>
    rw [hlegacy, if_neg Bool.false_ne_true] at h
    obtain ⟨rfl, -⟩ := AvgPool.make_ok h
    exact ⟨hmake, (fun ht => by cases ht), fun _ => h⟩

/-! ## One module -/

/-- The layer that a module is converted to, and the image that is noted after it. -/
inductive Places (plan : ConversionPlan Rat) (c : Conversion Rat) :
    Module Rat → Layer Rat → Option Grid → Prop
  | linear {weight : Tensor Rat} {bias : Option (List Rat)} {l : DenseLayer Rat}
      (h : DenseLayer.make c.layers.length weight (biasOr bias weight) c.grid = .ok l) :
      Places plan c (.linear weight bias) (.affine (.stage (.dense l))) none
  | conv {m : ConvModule Rat} {l : ConvLayer Rat}
      (h : convLayer plan c.grid c.layers.length m = .ok l) :
      Places plan c (.conv m) (.affine (.stage (.conv l))) (some l.output)
  | maxPool {m : PoolModule} {l : MaxPool}
      (h : maxPoolLayer Rat c.grid c.layers.length m = .ok l) :
      Places plan c (.maxPool m) (.maxPool l) (some l.pooling.output)
  | avgPool {m : PoolModule} {shape : PoolShape} {l : AvgPool Rat}
      (hs : poolShape c.grid "AvgPool2d" m = .ok shape)
      (h : avgPoolLayer plan c.layers.length shape m = .ok l) :
      Places plan c (.avgPool m) (.affine (.stage (.avgPool l))) (some l.pooling.output)
  | relu {n : Nat} {l : Relu} (hn : c.size = some n)
      (h : Relu.make c.layers.length n c.grid = .ok l) :
      Places plan c .relu (.relu l) c.grid

/-- **One module.**  A module that is converted leaves the layers alone, or puts one behind them. -/
theorem step_ok {c c' : Conversion Rat} {m : Module Rat} {noted : List Nat}
    (h : step plan c m = (noted, .ok c')) :
    (m = .flatten ∧ c' = { c with grid := none }) ∨ (m = .identity ∧ c' = c) ∨
      ∃ l grid, Places plan c m l grid ∧ c' = c.push l grid := by
  cases m with
  | linear weight bias =>
    obtain ⟨-, h⟩ := Prod.mk.inj h
    obtain ⟨l, hl, h⟩ := Outcome.bind_ok_iff.1 h
    cases h
    exact .inr (.inr ⟨_, _, .linear hl, rfl⟩)
  | conv k =>
    obtain ⟨-, h⟩ := Prod.mk.inj h
    obtain ⟨l, hl, h⟩ := Outcome.bind_ok_iff.1 h
    cases h
    exact .inr (.inr ⟨_, _, .conv hl, rfl⟩)
  | maxPool k =>
    obtain ⟨-, h⟩ := Prod.mk.inj h
    obtain ⟨l, hl, h⟩ := Outcome.bind_ok_iff.1 h
    cases h
    exact .inr (.inr ⟨_, _, .maxPool hl, rfl⟩)
  | avgPool k =>
    unfold step at h
    dsimp only at h
    split at h
    · obtain ⟨-, h⟩ := Prod.mk.inj h
      cases h
    rename_i shape hshape
    obtain ⟨-, h⟩ := Prod.mk.inj h
    obtain ⟨l, hl, h⟩ := Outcome.bind_ok_iff.1 h
    cases h
    exact .inr (.inr ⟨_, _, .avgPool hshape hl, rfl⟩)
  | relu =>
    obtain ⟨-, h⟩ := Prod.mk.inj h
    split at h
    · cases h
    rename_i n hn
    obtain ⟨u, hu, h⟩ := Outcome.bind_ok_iff.1 h
    cases h
    exact .inr (.inr ⟨_, _, .relu hn hu, rfl⟩)
  | flatten =>
    obtain ⟨-, h⟩ := Prod.mk.inj h
    cases h
    exact .inl ⟨rfl, rfl⟩
  | identity =>
    obtain ⟨-, h⟩ := Prod.mk.inj h
    cases h
    exact .inr (.inl ⟨rfl, rfl⟩)
  | other name =>
    obtain ⟨-, h⟩ := Prod.mk.inj h
    cases h

/-! ## The walk -/

/-- A conversion that knows the grid of its input and has no layer yet. -/
def onGrid (g : Grid) : Conversion Rat := ⟨[], some g, some g.size⟩

/-- What a conversion begins with: nothing known, or a grid, behind a crop if one is planned, and
    with a scaling layer if one is planned. -/
theorem begin_ok {crop : Option Crop} {start : Conversion Rat}
    (h : begin plan = .ok (crop, start)) :
    (plan.shape = none ∧ plan.scale = none ∧ crop = none ∧ start = ⟨[], none, none⟩) ∨
      ∃ e whole seen, plan.shape = some e ∧ Grid.of e.channels e.rows e.cols = .ok whole ∧
        (plan.crop = none ∧ crop = none ∧ seen = whole ∨
          ∃ side c, plan.crop = some side ∧ Crop.make whole side = .ok c ∧ crop = some c ∧
            seen = c.output) ∧
        (plan.scale = none ∧ start = onGrid seen ∨
          ∃ factor l, plan.scale = some factor ∧
            DataLayer.make 0 seen.size factor none none (some seen) = .ok l ∧
            start = (onGrid seen).push (.affine (.stage (.data l))) (some seen)) := by
  unfold begin at h
  cases hshape : plan.shape with
  | none =>
    cases hcrop : plan.crop with
    | some side =>
      rw [hshape, hcrop] at h
      cases h
    | none =>
      cases hscale : plan.scale with
      | some factor =>
        rw [hshape, hcrop, hscale] at h
        cases h
      | none =>
        rw [hshape, hcrop, hscale] at h
        cases h
        exact .inl ⟨rfl, rfl, rfl, rfl⟩
  | some e =>
    rw [hshape] at h
    obtain ⟨shape, hread, h⟩ := Outcome.bind_ok_iff.1 h
    obtain ⟨whole, hwhole, rfl⟩ := Outcome.map_ok_iff.1 hread
    dsimp only at h
    refine .inr ⟨e, whole, ?_⟩
    cases hcrop : plan.crop with
    | none =>
      rw [hcrop] at h
      obtain ⟨c', hc', h⟩ := Outcome.bind_ok_iff.1 h
      cases hc'
      refine ⟨whole, rfl, hwhole, ?_⟩
      cases hscale : plan.scale with
      | none =>
        rw [hscale] at h
        cases h
        exact ⟨.inl ⟨rfl, rfl, rfl⟩, .inl ⟨rfl, rfl⟩⟩
      | some factor =>
        rw [hscale] at h
        obtain ⟨l, hl, h⟩ := Outcome.bind_ok_iff.1 h
        cases h
        exact ⟨.inl ⟨rfl, rfl, rfl⟩, .inr ⟨factor, l, rfl, hl, rfl⟩⟩
    | some side =>
      rw [hcrop] at h
      obtain ⟨c', hmake, h⟩ := Outcome.bind_ok_iff.1 h
      obtain ⟨c, hc, rfl⟩ := Outcome.map_ok_iff.1 hmake
      refine ⟨c.output, rfl, hwhole, ?_⟩
      cases hscale : plan.scale with
      | none =>
        rw [hscale] at h
        cases h
        exact ⟨.inr ⟨side, c, rfl, hc, rfl, rfl⟩, .inl ⟨rfl, rfl⟩⟩
      | some factor =>
        rw [hscale] at h
        obtain ⟨l, hl, h⟩ := Outcome.bind_ok_iff.1 h
        cases h
        exact ⟨.inr ⟨side, c, rfl, hc, rfl, rfl⟩, .inr ⟨factor, l, rfl, hl, rfl⟩⟩

/-- Converting several modules is converting the first one and then the others. -/
theorem steps_cons_ok {c c' : Conversion Rat} {m : Module Rat} {rest : List (Module Rat)}
    {noted : List Nat} (h : steps plan c (m :: rest) = (noted, .ok c')) :
    ∃ noted₁ c₁ noted₂, step plan c m = (noted₁, .ok c₁) ∧
      steps plan c₁ rest = (noted₂, .ok c') := by
  rw [steps] at h
  split at h
  · obtain ⟨-, h⟩ := Prod.mk.inj h
    cases h
  rename_i noted₁ c₁ hstep
  obtain ⟨-, h⟩ := Prod.mk.inj h
  exact ⟨noted₁, c₁, _, hstep, Prod.ext rfl h⟩

/-- What converting one module preserves, converting modules preserves. -/
theorem steps_preserves {P : Conversion Rat → Prop}
    (hstep : ∀ {c c' m noted}, step plan c m = (noted, .ok c') → P c → P c')
    {modules : List (Module Rat)} {c c' : Conversion Rat} {noted : List Nat}
    (h : steps plan c modules = (noted, .ok c')) (hc : P c) : P c' := by
  induction modules generalizing c noted with
  | nil =>
    obtain ⟨-, h⟩ := Prod.mk.inj h
    cases h
    exact hc
  | cons m rest ih =>
    obtain ⟨_, c₁, _, hone, hrest⟩ := steps_cons_ok h
    exact ih hrest (hstep hone hc)

end Conversion

/-- A network that was made has the layers and the crop it was made of. -/
theorem Net.make_ok {layers : List (Layer Rat)} {crop : Option Crop} {net : Net Rat}
    (h : Net.make layers crop = .ok net) : net.layers = layers ∧ net.crop = crop := by
  unfold Net.make at h
  split at h
  · cases h
  split at h
  · cases h
  split at h
  · cases h
    exact ⟨rfl, rfl⟩
  · cases h

/-- A network that was converted has the layers of a walk and the crop the walk began with. -/
theorem Net.ofModules_ok {plan : ConversionPlan Rat} {modules : List (Module Rat)}
    {noted : List Nat} {net : Net Rat} (h : Net.ofModules plan modules = (noted, .ok net)) :
    ∃ start noted' c, Conversion.begin plan = .ok (net.crop, start) ∧
      Conversion.steps plan start modules = (noted', .ok c) ∧ net.layers = c.layers := by
  unfold Net.ofModules at h
  split at h
  · obtain ⟨-, h⟩ := Prod.mk.inj h
    cases h
  rename_i crop start hbegin
  split at h
  · obtain ⟨-, h⟩ := Prod.mk.inj h
    cases h
  rename_i noted' c hsteps
  obtain ⟨-, h⟩ := Prod.mk.inj h
  obtain ⟨hlayers, rfl⟩ := Net.make_ok h
  exact ⟨start, noted', c, hbegin, hsteps, hlayers⟩

end Perturb
