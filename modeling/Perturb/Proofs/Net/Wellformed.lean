/-
  What the layers of a converted network have in common.

  A conversion walks over modules with two notes: the image that the values between the layers
  form, as long as it is known, and how many values there are.  Every kind of module treats the
  notes differently, so what holds of all layers is an invariant of the walk.

  1. **One module** (`Conversion.Places`) — the layer that a module puts behind the others has the
     number of layers before it as its index, and fits the notes it finds there.

  2. **The invariant (`Ordered`)** — layers carry their places as indices, spatial layers take the
     image that the spatial layer before them gives, and the image that is noted, if there is one,
     is that one.

  3. **The declared shape** — the first layer takes as many values as were declared, unless
     `flatten` took the image off the notes and a linear module, which looks at nothing else, came
     next (`ConversionPlan.Forgets`).

  The theorem is `Net.ofModules_wellformed`.
-/
import Perturb.Proofs.Net.Conversion

namespace Perturb

/-! ## Layers -/

namespace Layer

variable {K : Type}

/-- Whether a layer is a convolution or a pooling layer. -/
def isSpatial : Layer K → Bool
  | .affine (.stage (.conv _)) => true
  | .affine (.stage (.avgPool _)) => true
  | .maxPool _ => true
  | _ => false

/-- The image that the last spatial layer gives, or the image there was before. -/
def imageAfter (image : Option Grid) (layers : List (Layer K)) : Option Grid :=
  layers.foldl (fun image l => if l.isSpatial then l.outGrid else image) image

theorem imageAfter_append (image : Option Grid) (layers : List (Layer K)) (l : Layer K) :
    imageAfter image (layers ++ [l]) =
      if l.isSpatial then l.outGrid else imageAfter image layers := by
  unfold imageAfter
  rw [List.foldl_append]
  rfl

end Layer

/-! ## One module -/

/-- Whether a module leaves no layer behind. -/
def Module.isSilent {K : Type} : Module K → Bool
  | .flatten => true
  | .identity => true
  | _ => false

namespace Conversion

section

variable {plan : ConversionPlan Rat} {c : Conversion Rat} {m : Module Rat} {l : Layer Rat}
  {grid : Option Grid}

/-- A convolution has its number, and is one on the image that is noted. -/
theorem convLayer_place {index : Int} {k : ConvModule Rat} {p : ConvLayer Rat}
    (h : convLayer plan c.grid index k = .ok p) : p.index = index ∧ c.grid = some p.input := by
  obtain ⟨g, _, _, _, _, hgrid, -, -, -, -, hmake⟩ := convLayer_ok h
  obtain ⟨hindex, rfl, -⟩ := ConvLayer.eq_of_make hmake
  exact ⟨hindex, hgrid⟩

/-- So has a maximum. -/
theorem maxPoolLayer_place {index : Int} {k : PoolModule} {p : MaxPool}
    (h : maxPoolLayer Rat c.grid index k = .ok p) :
    p.pooling.index = index ∧ c.grid = some p.pooling.shape.input := by
  obtain ⟨shape, hshape, hmake⟩ := maxPoolLayer_ok h
  obtain ⟨hindex, rfl, -⟩ := Pooling.make_ok hmake
  exact ⟨hindex, (poolShape_ok hshape).1⟩

/-- So has a mean. -/
theorem avgPoolLayer_place {index : Int} {title : String} {shape : PoolShape} {k : PoolModule}
    {p : AvgPool Rat} (hs : poolShape c.grid title k = .ok shape)
    (h : avgPoolLayer plan index shape k = .ok p) :
    p.pooling.index = index ∧ c.grid = some p.pooling.shape.input := by
  obtain ⟨hindex, rfl, -⟩ := Pooling.make_ok (avgPoolLayer_ok h).1
  exact ⟨hindex, (poolShape_ok hs).1⟩

/-- A layer has the number of layers before it as its index. -/
theorem Places.index_eq (h : Places plan c m l grid) : l.index = c.layers.length := by
  cases h with
  | linear h => exact (DenseLayer.make_ok h).1.1
  | conv h => exact (convLayer_place h).1
  | maxPool h => exact (maxPoolLayer_place h).1
  | avgPool hs h => exact (avgPoolLayer_place hs h).1
  | relu hn h => exact (Relu.make_ok h).1

/-- A spatial layer takes the image that is noted. -/
theorem Places.inGrid_eq (h : Places plan c m l grid) (hl : l.isSpatial = true) :
    ∃ g, c.grid = some g ∧ l.inGrid = some g := by
  cases h with
  | linear h => cases hl
  | conv h => exact ⟨_, (convLayer_place h).2, rfl⟩
  | maxPool h => exact ⟨_, (maxPoolLayer_place h).2, rfl⟩
  | avgPool hs h => exact ⟨_, (avgPoolLayer_place hs h).2, rfl⟩
  | relu hn h => cases hl

/-- The image noted after a layer is its own if it is spatial; otherwise it is the one from before,
    or none. -/
theorem Places.grid_eq (h : Places plan c m l grid) :
    grid = none ∨ grid = if l.isSpatial then l.outGrid else c.grid := by
  cases h with
  | linear h => exact .inl rfl
  | _ => exact .inr rfl

/-- A layer takes as many values as the image that is noted has cells. -/
theorem Places.inDim_eq (h : Places plan c m l grid) {g : Grid} (hg : c.grid = some g) :
    l.inDim = g.size := by
  cases h with
  | @linear _ _ d h =>
    have hgrid : d.grid = some g := (DenseLayer.make_ok h).1.2.trans hg
    exact (d.grid_size g hgrid).symm
  | conv h =>
    cases hg.symm.trans (convLayer_place h).2
    rfl
  | maxPool h =>
    cases hg.symm.trans (maxPoolLayer_place h).2
    rfl
  | avgPool hs h =>
    cases hg.symm.trans (avgPoolLayer_place hs h).2
    rfl
  | @relu _ u hn h =>
    have hgrid : u.grid = some g := (Relu.make_ok h).2.2.trans hg
    exact (u.grid_size g hgrid).symm

/-- Where no image is noted, a layer that is not linear takes as many values as are noted. -/
theorem Places.inDim_of_none (h : Places plan c m l grid) (hg : c.grid = none) :
    (∃ weight bias, m = .linear weight bias) ∨ c.size = some l.inDim := by
  cases h with
  | linear h => exact .inl ⟨_, _, rfl⟩
  | conv h => cases hg.symm.trans (convLayer_place h).2
  | maxPool h => cases hg.symm.trans (maxPoolLayer_place h).2
  | avgPool hs h => cases hg.symm.trans (avgPoolLayer_place hs h).2
  | relu hn h => exact .inr (hn.trans (congrArg some (Relu.make_ok h).2.1.symm))

end

/-! ## The walk -/

/-- Layers carry their places as indices, spatial ones take the image that the spatial layer before
    them gives, and an image that is noted is the one the last of them gives. -/
structure Ordered (image : Option Grid) (c : Conversion Rat) : Prop where
  index : ∀ {i : Nat} {l : Layer Rat}, c.layers[i]? = some l → l.index = i
  inGrid : ∀ {i : Nat} {l : Layer Rat}, c.layers[i]? = some l → l.isSpatial = true →
    l.inGrid = Layer.imageAfter image (c.layers.take i)
  grid : ∀ {g : Grid}, c.grid = some g → Layer.imageAfter image c.layers = some g

/-- One more layer keeps the order if it has its place as its index and takes the image that is
    noted, and the image noted after it is its own. -/
theorem Ordered.push {image : Option Grid} {c : Conversion Rat} (hc : c.Ordered image)
    {l : Layer Rat} {grid : Option Grid} (hindex : l.index = c.layers.length)
    (hin : l.isSpatial = true → ∃ g, c.grid = some g ∧ l.inGrid = some g)
    (hout : grid = none ∨ grid = if l.isSpatial then l.outGrid else c.grid) :
    (c.push l grid).Ordered image := by
  -- a layer is one of those before, or the new one at the end
  have hsplit : ∀ {i : Nat} {a : Layer Rat}, (c.layers ++ [l])[i]? = some a →
      c.layers[i]? = some a ∧ (c.layers ++ [l]).take i = c.layers.take i ∨
        i = c.layers.length ∧ a = l ∧ (c.layers ++ [l]).take i = c.layers := by
    intro i a ha
    have hi : i < c.layers.length + 1 := by
      simpa using (List.getElem?_eq_some_iff.1 ha).1
    rcases Nat.lt_succ_iff_lt_or_eq.1 hi with hlt | rfl
    · rw [List.getElem?_append_left hlt] at ha
      exact .inl ⟨ha, List.take_append_of_le_length hlt.le⟩
    · rw [List.getElem?_concat_length, Option.some_inj] at ha
      exact .inr ⟨rfl, ha.symm, List.take_left⟩
  constructor
  · intro i a ha
    rcases hsplit ha with ⟨ha, -⟩ | ⟨rfl, rfl, -⟩
    · exact hc.index ha
    · exact hindex
  · intro i a ha hspatial
    show a.inGrid = Layer.imageAfter image ((c.layers ++ [l]).take i)
    rcases hsplit ha with ⟨ha, htake⟩ | ⟨-, rfl, htake⟩
    · rw [htake]
      exact hc.inGrid ha hspatial
    · obtain ⟨g, hg, hag⟩ := hin hspatial
      rw [htake, hag, hc.grid hg]
  · intro g hg
    show Layer.imageAfter image (c.layers ++ [l]) = some g
    have hg : grid = some g := hg
    rw [Layer.imageAfter_append]
    rcases hout with hnone | hgrid
    · cases hnone.symm.trans hg
    · rw [hgrid] at hg
      cases hl : l.isSpatial with
      | true =>
        rw [hl, if_pos rfl] at hg
        rw [if_pos rfl, hg]
      | false =>
        rw [hl, if_neg Bool.false_ne_true] at hg
        rw [if_neg Bool.false_ne_true, hc.grid hg]

/-- Converting one module keeps the layers in order. -/
theorem Ordered.step {plan : ConversionPlan Rat} {image : Option Grid} {c c' : Conversion Rat}
    (hc : c.Ordered image) {m : Module Rat} {noted : List Nat}
    (h : Conversion.step plan c m = (noted, .ok c')) : c'.Ordered image := by
  rcases step_ok h with ⟨-, rfl⟩ | ⟨-, rfl⟩ | ⟨l, grid, hplaces, rfl⟩
  · exact ⟨hc.index, hc.inGrid, fun hg => by cases hg⟩
  · exact hc
  · exact hc.push hplaces.index_eq hplaces.inGrid_eq hplaces.grid_eq

/-- Converting modules keeps the layers in order. -/
theorem Ordered.steps {plan : ConversionPlan Rat} {image : Option Grid}
    {modules : List (Module Rat)} {c c' : Conversion Rat} (hc : c.Ordered image)
    {noted : List Nat} (h : Conversion.steps plan c modules = (noted, .ok c')) :
    c'.Ordered image :=
  steps_preserves (fun hstep hc => hc.step hstep) h hc

/-- A step leaves the layers there are in place. -/
theorem prefix_of_step {plan : ConversionPlan Rat} {c c' : Conversion Rat} {m : Module Rat}
    {noted : List Nat} (h : step plan c m = (noted, .ok c')) : c.layers <+: c'.layers := by
  rcases step_ok h with ⟨-, rfl⟩ | ⟨-, rfl⟩ | ⟨l, grid, -, rfl⟩
  · exact List.prefix_rfl
  · exact List.prefix_rfl
  · exact List.prefix_append ..

/-- And so does converting modules. -/
theorem prefix_of_steps {plan : ConversionPlan Rat} {modules : List (Module Rat)}
    {c c' : Conversion Rat} {noted : List Nat} (h : steps plan c modules = (noted, .ok c')) :
    c.layers <+: c'.layers :=
  steps_preserves (P := fun d => c.layers <+: d.layers)
    (fun hstep hd => hd.trans (prefix_of_step hstep)) h List.prefix_rfl

end Conversion

/-! ## The declared shape -/

/-- The image a plan declares. -/
def ConversionPlan.image? (plan : ConversionPlan Rat) : Option Grid :=
  plan.shape.bind fun e => (Grid.of e.channels e.rows e.cols).toOption

/-- Nothing compares a declared shape with the first layer: there is neither a crop nor a scaling
    layer, and the first module that leaves a layer behind is linear and comes after `flatten`. -/
def ConversionPlan.Forgets (plan : ConversionPlan Rat) (modules : List (Module Rat)) : Prop :=
  plan.crop = none ∧ plan.scale = none ∧ ∃ silent weight bias rest,
    modules = silent ++ .linear weight bias :: rest ∧ (∀ m ∈ silent, m.isSilent = true) ∧
      .flatten ∈ silent

namespace Conversion

/-- The first layer of a conversion that starts from an image takes as many values as the image has
    cells, or it is linear and comes after the image was taken off the notes. -/
theorem inDim_of_steps {plan : ConversionPlan Rat} {g : Grid} {modules : List (Module Rat)}
    {c c' : Conversion Rat} {noted : List Nat} (h : steps plan c modules = (noted, .ok c'))
    (hnone : c.layers = []) (hsize : c.size = some g.size) (hgrid : ∀ g' ∈ c.grid, g' = g)
    {l : Layer Rat} (hl : c'.layers.head? = some l) :
    l.inDim = g.size ∨ ∃ silent weight bias rest, modules = silent ++ .linear weight bias :: rest ∧
      (∀ m ∈ silent, m.isSilent = true) ∧ (c.grid = none ∨ .flatten ∈ silent) := by
  induction modules generalizing c noted with
  | nil =>
    obtain ⟨-, h⟩ := Prod.mk.inj h
    cases h
    rw [hnone] at hl
    cases hl
  | cons m rest ih =>
    obtain ⟨_, c₁, _, hstep, hrest⟩ := steps_cons_ok h
    rcases step_ok hstep with ⟨rfl, rfl⟩ | ⟨rfl, rfl⟩ | ⟨a, grid, hplaces, rfl⟩
    · refine (ih hrest hnone hsize fun g' hg' => by cases hg').imp_right ?_
      rintro ⟨silent, weight, bias, others, rfl, hsilent, -⟩
      exact ⟨.flatten :: silent, weight, bias, others, rfl,
        List.forall_mem_cons.2 ⟨rfl, hsilent⟩, .inr (List.mem_cons_self ..)⟩
    · refine (ih hrest hnone hsize hgrid).imp_right ?_
      rintro ⟨silent, weight, bias, others, rfl, hsilent, hforgot⟩
      exact ⟨.identity :: silent, weight, bias, others, rfl,
        List.forall_mem_cons.2 ⟨rfl, hsilent⟩, hforgot.imp_right (List.mem_cons_of_mem _)⟩
    · -- this is the first layer, and it stays the first
      obtain ⟨behind, hbehind⟩ := prefix_of_steps hrest
      have hlayers : c'.layers = a :: behind := by
        rw [← hbehind]
        show c.layers ++ [a] ++ behind = _
        rw [hnone]
        rfl
      rw [hlayers] at hl
      cases hl
      cases hnoted : c.grid with
      | some g' =>
        obtain rfl := hgrid g' hnoted
        exact .inl (hplaces.inDim_eq hnoted)
      | none =>
        rcases hplaces.inDim_of_none hnoted with ⟨weight, bias, rfl⟩ | hdim
        · exact .inr ⟨[], weight, bias, rest, rfl, List.forall_mem_nil _, .inl rfl⟩
        · exact .inl (Option.some.inj (hdim.symm.trans hsize))

end Conversion

/-- What a conversion begins with is in order behind the crop. -/
theorem Conversion.ordered_begin {plan : ConversionPlan Rat} {crop : Option Crop}
    {start : Conversion Rat} (h : begin plan = .ok (crop, start)) :
    start.Ordered ((crop.map Crop.output).or plan.image?) := by
  have hempty : ∀ {image : Option Grid} (c : Conversion Rat), c.layers = [] →
      (∀ g ∈ c.grid, image = some g) → c.Ordered image := by
    intro image c hnone hgrid
    refine ⟨fun hl => ?_, fun hl => ?_, fun hg => ?_⟩
    · rw [hnone] at hl
      cases hl
    · rw [hnone] at hl
      cases hl
    · rw [hnone]
      exact hgrid _ hg
  rcases begin_ok h with ⟨-, -, rfl, rfl⟩ | ⟨e, whole, seen, hshape, hwhole, hcrop, hscale⟩
  · exact hempty _ rfl fun g hg => by cases hg
  have himage : plan.image? = some whole := by
    unfold ConversionPlan.image?
    rw [hshape, Option.bind_some, hwhole]
    rfl
  have hseen : (crop.map Crop.output).or plan.image? = some seen := by
    rcases hcrop with ⟨-, rfl, rfl⟩ | ⟨side, c, -, -, rfl, rfl⟩
    · exact himage
    · rfl
  rw [hseen]
  have honGrid : (onGrid seen).Ordered (some seen) :=
    hempty _ rfl fun g hg => by cases hg; rfl
  rcases hscale with ⟨-, rfl⟩ | ⟨factor, l, -, hl, rfl⟩
  · exact honGrid
  · exact honGrid.push (DataLayer.make_ok hl).1 (fun h => by cases h) (.inr rfl)

/-- A network takes as many values as the declared image has cells, unless the conversion forgets
    it. -/
theorem Net.fullDim_ofModules {plan : ConversionPlan Rat} {modules : List (Module Rat)}
    {noted : List Nat} {net : Net Rat} (h : Net.ofModules plan modules = (noted, .ok net))
    {e : Extents} (he : plan.shape = some e) (hforgets : ¬ plan.Forgets modules) :
    (net.fullDim : Int) = e.channels * e.rows * e.cols := by
  obtain ⟨start, noted', c, hbegin, hsteps, hlayers⟩ := ofModules_ok h
  rcases Conversion.begin_ok hbegin with
    ⟨hnone, -⟩ | ⟨e', whole, seen, hshape, hwhole, hcrop, hscale⟩
  · cases hnone.symm.trans he
  cases hshape.symm.trans he
  have hsize : (whole.size : Int) = e.channels * e.rows * e.cols := by
    obtain ⟨hchannels, hrows, hcols⟩ := Grid.of_ok hwhole
    rw [← hchannels, ← hrows, ← hcols]
    unfold Grid.size
    push_cast
    rfl
  rw [← hsize, Nat.cast_inj]
  rcases hcrop with ⟨hnocrop, hnet, rfl⟩ | ⟨side, crop, -, hmake, hnet, -⟩
  swap
  · unfold fullDim
    rw [hnet]
    show crop.image.size = _
    rw [(Crop.make_ok hmake).1]
  -- without a crop, it is up to the first layer
  have hfull : net.fullDim = net.first.inDim := by
    unfold fullDim
    rw [hnet]
    rfl
  have hhead : c.layers.head? = some net.first := by
    rw [← hlayers]
    rfl
  rw [hfull]
  rcases hscale with ⟨hnoscale, rfl⟩ | ⟨factor, l, -, hl, rfl⟩
  · rcases Conversion.inDim_of_steps hsteps rfl rfl (fun g hg => by cases hg; rfl) hhead with
      hdim | ⟨silent, weight, bias, rest, hmodules, hsilent, hnone | hflatten⟩
    · exact hdim
    · cases hnone
    · exact absurd ⟨hnocrop, hnoscale, silent, weight, bias, rest, hmodules, hsilent, hflatten⟩
        hforgets
  · obtain ⟨behind, hbehind⟩ := Conversion.prefix_of_steps hsteps
    rw [← hbehind] at hhead
    have hfirst : .affine (.stage (.data l)) = net.first := Option.some.inj hhead
    rw [← hfirst]
    exact (DataLayer.make_ok hl).2.1

/-- **Converted networks are well formed.**  Take any plan and any modules that the conversion
    accepts.  The layers carry their places as indices; each takes as many values as the one before
    gives; every spatial layer takes the image that the spatial layer before it gives, or that of
    the input behind the crop; and inputs are accepted exactly if they have the full length of the
    network.  That is the number of cells of a declared shape, unless the conversion forgets it. -/
theorem Net.ofModules_wellformed {plan : ConversionPlan Rat} {modules : List (Module Rat)}
    {noted : List Nat} {net : Net Rat} (h : Net.ofModules plan modules = (noted, .ok net)) :
    (∀ (i : Nat) (l : Layer Rat), net.layers[i]? = some l → l.index = i ∧
      (l.isSpatial = true → l.inGrid =
        Layer.imageAfter ((net.crop.map Crop.output).or plan.image?) (net.layers.take i))) ∧
    net.layers.IsChain (fun a b => a.outDim = b.inDim) ∧
    (∀ x : List Rat, (∃ z, net.cropped x = .ok z ∧ z.length = net.inDim) ↔
      x.length = net.fullDim) ∧
    ∀ e, plan.shape = some e → ¬ plan.Forgets modules →
      (net.fullDim : Int) = e.channels * e.rows * e.cols := by
  obtain ⟨start, noted', c, hbegin, hsteps, hlayers⟩ := ofModules_ok h
  have hordered := (Conversion.ordered_begin hbegin).steps hsteps
  refine ⟨fun i l hl => ?_, isChain_of_misfit? net.fits, fun x => cropped_ok_iff,
    fun e he hforgets => fullDim_ofModules h he hforgets⟩
  rw [hlayers] at hl ⊢
  exact ⟨hordered.index hl, hordered.inGrid hl⟩

/-- Three rows of three pixels go into the crop, and layers are numbered from the scaling on. -/
theorem Net.ofModules_wellformed_medley :
    ∃ net : Net Rat, Net.ofModules Medley.plan Medley.modules = ([], .ok net) ∧
      net.fullDim = 9 ∧
      (∀ (i : Nat) (l : Layer Rat), net.layers[i]? = some l → l.index = i) ∧
      ∀ x : List Rat, x.length = 9 → ∃ z, net.cropped x = .ok z ∧ z.length = net.inDim := by
  obtain ⟨net, hnet⟩ := Medley.accepted
  obtain ⟨hlayers, -, hlength, hshape⟩ := Net.ofModules_wellformed hnet
  have hnine : (net.fullDim : Int) = 9 :=
    hshape ⟨1, 3, 3⟩ rfl fun hforgets => by cases hforgets.1
  have hnine : net.fullDim = 9 := by exact_mod_cast hnine
  exact ⟨net, hnet, hnine, fun i l hl => (hlayers i l hl).1,
    fun x hx => (hlength x).2 (hx.trans hnine.symm)⟩

namespace Strip

/-- Two rows of two pixels. -/
def plan : ConversionPlan Rat where
  shape := some ⟨1, 2, 2⟩
  crop := none
  scale := none
  threads := 1
  legacyDivisor := false

/-- The sum of five values. -/
def total : Module Rat := .linear ⟨[1, 5], [1, 1, 1, 1, 1]⟩ (some [0])

end Strip

/-- **A shape that is forgotten.**  A module that takes five values does not fit four pixels, and is
    refused; after `flatten` it is accepted, and the network takes five values. -/
theorem Net.ofModules_forgets_shape :
    (∃ net, Net.ofModules Strip.plan [.flatten, Strip.total] = ([], .ok net) ∧
      (net.fullDim : Int) = 5 ∧ Strip.plan.shape = some ⟨1, 2, 2⟩ ∧ (5 : Int) ≠ 1 * 2 * 2) ∧
    Net.ofModules Strip.plan [Strip.total] =
      ([], .error (.gridCoverage .dense ⟨1, 2, 2⟩ 5)) :=
  ⟨⟨_, rfl, rfl, rfl, by decide⟩, rfl⟩

end Perturb
