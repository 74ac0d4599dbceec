/-
  Converting modules preserves what they mean.

  A conversion walks a list of modules and collects layers; what modules mean is said without layers
  (`Reference`), and what a single layer does is compared with it in `Meaning`.  What is left is the
  walk.

  1. **The invariant (`Carries`)** — the layers collected so far give, at the cropped input, the
     values of the signal that the modules so far mean; the conversion knows the picture these
     values form exactly if they do form one, and knows no wrong length.

  2. **Its steps** — it holds once the crop and the scaling are in place (`carries_begin`), and
     converting one more module keeps it (`carries_step`): one lemma per kind of layer that a module
     puts behind the others (`Places`), while `flatten` and the identity leave none.

  3. **The walk** (`carries_steps`) is an induction over the modules, and `ofModules_meaning` puts it
     between the crop and the network.
-/
import Perturb.Proofs.Net.Exactness
import Perturb.Proofs.Net.Meaning

namespace Perturb

/-! ## Before the first module -/

/-- A crop takes a picture out of a picture. -/
theorem Crop.take_cells (c : Crop) {p : Picture} (hp : p.grid = c.image) :
    c.take p.cells =
      .ok (Picture.mk c.output fun ch r k => p.pixel ch (c.top + r) (c.left + k)).cells := by
  have hlen : p.cells.length = c.inDim := by
    rw [Picture.length_cells, hp]
    rfl
  unfold take
  rw [if_pos hlen, cells_eq, List.map_map]
  refine congrArg Except.ok (List.map_congr_left ?_)
  rintro ⟨ch, r, k⟩ hpos
  obtain ⟨hch, hr, hk⟩ := c.shifted_lt hpos
  rw [← hp] at hch hr hk
  have hcell := p.getElem?_cells hch hr hk
  have hplace : (ch * p.grid.rows + (c.top + r)) * p.grid.cols + (c.left + k) =
      (c.left + k) + c.image.cols * ((c.top + r) + c.image.rows * ch) := by
    rw [hp]
    ring
  rw [hplace] at hcell
  show (p.cells[(c.left + k) + c.image.cols * ((c.top + r) + c.image.rows * ch)]?).getD 0 = _
  rw [hcell]
  rfl

/-- The crop of a side takes out the centre. -/
theorem Crop.take_centre {side : Int} {c : Crop} {p q : Picture}
    (h : Crop.make p.grid side = .ok c) (hq : p.centre? side = some q) :
    c.output = q.grid ∧ c.take p.cells = .ok q.cells := by
  unfold Crop.make at h
  split at h
  swap
  · cases h
  cases h
  unfold Picture.centre? at hq
  obtain ⟨grid, hgrid, hq⟩ := Option.bind_eq_some_iff.1 hq
  split at hq
  swap
  · cases hq
  cases hq
  obtain ⟨hch, hr, hc⟩ := Grid.of_ok (Outcome.ok_of_toOption hgrid)
  obtain ⟨channels, rows, cols, h₁, h₂, h₃⟩ := grid
  dsimp only at hch hr hc
  obtain rfl : channels = p.grid.channels := by omega
  obtain rfl : rows = side.toNat := by omega
  obtain rfl : cols = side.toNat := by omega
  exact ⟨rfl, Crop.take_cells _ rfl⟩

/-- Without a mean, the input layer scales. -/
theorem DataLayer.values_scale {index : Int} {size : Nat} {scale : Rat} {grid : Option Grid}
    {l : DataLayer Rat} (h : make index size scale none none grid = .ok l) {xs : List Rat}
    (hlen : xs.length = size) : l.values xs = xs.map (· * scale) := by
  obtain ⟨-, -, hscale, hmean⟩ := make_ok h
  unfold values
  rw [hscale, hmean]
  apply List.ext_getElem
  · simp [hlen]
  · intro i h₁ h₂
    simp

namespace Conversion

/-- The layers so far give the values of a signal, and the conversion knows its shape. -/
structure Carries (c : Conversion Rat) (x : List Rat) (s : Signal) : Prop where
  values : Net.through c.layers x = .ok s.values
  grid : c.grid = s.grid?
  size : ∀ n ∈ c.size, s.values.length = n

/-- One more layer carries the signal on. -/
theorem Carries.push {c : Conversion Rat} {x : List Rat} {s s' : Signal} (hc : c.Carries x s)
    {l : Layer Rat} {grid : Option Grid} (hl : l.values s.values = .ok s'.values)
    (hgrid : grid = s'.grid?) (hdim : s'.values.length = l.outDim) :
    (c.push l grid).Carries x s' := by
  refine ⟨?_, hgrid, fun n hn => ?_⟩
  · show Net.through (c.layers ++ [l]) x = _
    unfold Net.through
    rw [List.foldlM_append]
    have hvalues : c.layers.foldlM (fun x l => l.values x) x = .ok s.values := hc.values
    rw [hvalues, Outcome.ok_bind, List.foldlM_cons, hl]
    rfl
  · cases hn
    exact hdim

/-- A single stage gives what it gives after its check, which passes on an input of its length. -/
theorem values_stage {s : Stage Rat} {x y : List Rat} {f : Unit → Outcome (List Rat)}
    (hf : s.values x = s.check x >>= f) (hlen : x.length = s.inDim)
    (hdiv : s.checkDivisors = .ok ()) (hy : f () = .ok y) :
    (Layer.affine (.stage s)).values x = .ok y := by
  show [s].foldlM (fun x s => s.values x) x = _
  rw [List.foldlM_cons, hf, Stage.check_ok_iff.2 ⟨hlen, hdiv⟩, Outcome.ok_bind, hy]
  rfl

/-! ## The steps -/

section

variable {plan : ConversionPlan Rat} {c c' : Conversion Rat} {x : List Rat} {s s' : Signal}

/-- A fully connected layer carries on the values that a linear module means. -/
theorem Carries.linear (hc : c.Carries x s) {index : Int} {weight : Tensor Rat}
    {bias : Option (List Rat)} {grid : Option Grid} {l : DenseLayer Rat}
    (hl : DenseLayer.make index weight (biasOr bias weight) grid = .ok l)
    (hs : Module.meaning? (.linear weight bias) s = some s') :
    (c.push (.affine (.stage (.dense l))) none).Carries x s' := by
  cases s with
  | picture p => cases hs
  | vector xs =>
    obtain ⟨ys, hys, rfl⟩ := Option.map_eq_some_iff.1 hs
    obtain ⟨hlen, hdim, hvalues⟩ := DenseLayer.values_linear hl hys
    exact hc.push (values_stage rfl hlen rfl (congrArg Except.ok hvalues)) rfl hdim

/-- A convolution carries on the picture that its module means. -/
theorem Carries.conv (hc : c.Carries x s) {index : Int} {k : ConvModule Rat} {l : ConvLayer Rat}
    (hl : convLayer plan c.grid index k = .ok l) (hnarrow : k.Narrow)
    (hs : Module.meaning? (.conv k) s = some s') :
    (c.push (.affine (.stage (.conv l))) (some l.output)).Carries x s' := by
  cases s with
  | vector xs => cases hs
  | picture p =>
    obtain ⟨q, hq, rfl⟩ := Option.map_eq_some_iff.1 hs
    rw [hc.grid] at hl
    obtain ⟨hin, hout, hvalues⟩ := convLayer_meaning hl hnarrow hq
    have hlen : p.cells.length = l.input.size := by rw [Picture.length_cells, hin]
    have hdim : q.cells.length = l.output.size := by rw [Picture.length_cells, hout]
    exact hc.push (values_stage rfl hlen rfl hvalues) (congrArg some hout) hdim

/-- A maximum carries on the picture that its module means. -/
theorem Carries.maxPool (hc : c.Carries x s) {index : Int} {k : PoolModule} {l : MaxPool}
    (hl : maxPoolLayer Rat c.grid index k = .ok l)
    (hs : Module.meaning? (.maxPool k) s = some s') :
    (c.push (.maxPool l) (some l.pooling.output)).Carries x s' := by
  cases s with
  | vector xs => cases hs
  | picture p =>
    obtain ⟨q, hq, rfl⟩ := Option.map_eq_some_iff.1 hs
    rw [hc.grid] at hl
    obtain ⟨hin, hout, hvalues⟩ := maxPoolLayer_meaning hl hq
    have hlen : p.cells.length = l.pooling.shape.input.size := by rw [Picture.length_cells, hin]
    have hdim : q.cells.length = l.pooling.output.size := by rw [Picture.length_cells, hout]
    exact hc.push (Layer.maxPool_values_ok_iff.2 ⟨hlen, hvalues.symm⟩) (congrArg some hout) hdim

/-- A mean carries on the picture that its module means. -/
theorem Carries.avgPool (hc : c.Carries x s) (hlegacy : plan.legacyDivisor = false) {index : Int}
    {title : String} {k : PoolModule} {shape : PoolShape} {l : AvgPool Rat}
    (hshape : poolShape c.grid title k = .ok shape) (hl : avgPoolLayer plan index shape k = .ok l)
    (hs : Module.meaning? (.avgPool k) s = some s') :
    (c.push (.affine (.stage (.avgPool l))) (some l.pooling.output)).Carries x s' := by
  cases s with
  | vector xs => cases hs
  | picture p =>
    obtain ⟨q, hq, rfl⟩ := Option.map_eq_some_iff.1 hs
    rw [hc.grid] at hshape
    obtain ⟨hin, hout, hdiv, hvalues⟩ := avgPoolLayer_meaning hshape hl hlegacy hq
    have hlen : p.cells.length = l.pooling.shape.input.size := by rw [Picture.length_cells, hin]
    have hdim : q.cells.length = l.pooling.output.size := by rw [Picture.length_cells, hout]
    have hready : (Stage.avgPool l).Ready := hdiv
    exact hc.push (values_stage rfl hlen hready.checkDivisors (congrArg Except.ok hvalues))
      (congrArg some hout) hdim

/-- A rectifier carries on what was there, cut off at zero. -/
theorem Carries.relu (hc : c.Carries x s) {index : Int} {n : Nat} {l : Relu}
    (hn : c.size = some n) (hl : Relu.make index n c.grid = .ok l)
    (hs : Module.meaning? .relu s = some s') : (c.push (.relu l) c.grid).Carries x s' := by
  cases hs
  have hlen : s.values.length = l.size := (hc.size n hn).trans (Relu.make_ok hl).2.1.symm
  have hvalues : (s.map fun a => max a 0).values = Relu.values s.values := by
    rw [Signal.values_map]
    refine List.map_congr_left fun a _ => ?_
    split
    · exact max_eq_left ‹_›
    · exact max_eq_right (le_of_not_ge ‹_›)
  refine hc.push (Layer.relu_values_ok_iff.2 ⟨hlen, hvalues⟩) ?_ ?_
  · rw [hc.grid, Signal.grid?_map]
  · rw [Signal.values_map, List.length_map]
    exact hlen

/-- Converting one module carries the signal through it. -/
theorem carries_step (hlegacy : plan.legacyDivisor = false) {m : Module Rat} {noted : List Nat}
    (h : step plan c m = (noted, .ok c')) (hnarrow : ∀ k, m = .conv k → k.Narrow)
    (hc : c.Carries x s) (hs : m.meaning? s = some s') : c'.Carries x s' := by
  rcases step_ok h with ⟨rfl, rfl⟩ | ⟨rfl, rfl⟩ | ⟨l, grid, hplaces, rfl⟩
  · -- `flatten` forgets the image, and so does what it means
    cases hs
    exact ⟨hc.values, rfl, hc.size⟩
  · cases hs
    exact hc
  · cases hplaces with
    | linear hl => exact hc.linear hl hs
    | conv hl => exact hc.conv hl (hnarrow _ rfl) hs
    | maxPool hl => exact hc.maxPool hl hs
    | avgPool hshape hl => exact hc.avgPool hlegacy hshape hl hs
    | relu hn hl => exact hc.relu hn hl hs

/-- Converting modules carries the signal through all of them. -/
theorem carries_steps (hlegacy : plan.legacyDivisor = false) {modules : List (Module Rat)}
    {noted : List Nat} (h : steps plan c modules = (noted, .ok c'))
    (hnarrow : ∀ k, .conv k ∈ modules → k.Narrow) (hc : c.Carries x s)
    (hs : modules.foldlM (fun s m => m.meaning? s) s = some s') : c'.Carries x s' := by
  induction modules generalizing c noted s with
  | nil =>
    obtain ⟨-, h⟩ := Prod.mk.inj h
    cases h
    cases hs
    exact hc
  | cons m rest ih =>
    rw [List.foldlM_cons] at hs
    obtain ⟨s₁, hone, hs⟩ := Option.bind_eq_some_iff.1 hs
    obtain ⟨_, c₁, _, hstep, hrest⟩ := steps_cons_ok h
    have hc₁ : c₁.Carries x s₁ :=
      carries_step hlegacy hstep (fun k hk => hnarrow k (hk ▸ List.mem_cons_self ..)) hc hone
    exact ih hrest (fun k hk => hnarrow k (List.mem_cons_of_mem m hk)) hc₁ hs

end

/-- **Before the first module.**  Where the plan gives an input a meaning, cropping succeeds, and the
    conversion starts out carrying it. -/
theorem carries_begin {plan : ConversionPlan Rat} {crop : Option Crop} {start : Conversion Rat}
    (h : begin plan = .ok (crop, start)) {x : List Rat} {s : Signal} (hs : plan.input? x = some s) :
    ∃ z, (match crop with | some c => c.take x | none => .ok x) = .ok z ∧ start.Carries z s := by
  unfold ConversionPlan.input? at hs
  rcases begin_ok h with
    ⟨hshape, -, rfl, rfl⟩ | ⟨e, whole, seen, hshape, hwhole, hcrop, hscale⟩
  · rw [hshape] at hs
    cases hs
    exact ⟨x, rfl, rfl, rfl, fun n hn => by cases hn⟩
  rw [hshape] at hs
  obtain ⟨grid, hgrid, hs⟩ := Option.bind_eq_some_iff.1 hs
  obtain rfl : grid = whole := Except.ok.inj ((Outcome.ok_of_toOption hgrid).symm.trans hwhole)
  split at hs
  swap
  · cases hs
  rename_i hlen
  obtain ⟨p, hp, rfl⟩ := Option.map_eq_some_iff.1 hs
  -- the crop
  have htake : (match crop with | some c => c.take x | none => .ok x) = .ok p.cells ∧
      seen = p.grid := by
    unfold ConversionPlan.cropped? at hp
    rcases hcrop with ⟨hnone, rfl, rfl⟩ | ⟨side, c, hside, hc, rfl, rfl⟩
    · rw [hnone] at hp
      cases hp
      exact ⟨congrArg Except.ok (Picture.cells_ofCells hlen).symm, rfl⟩
    · rw [hside] at hp
      obtain ⟨hout, htake⟩ := Crop.take_centre (p := Picture.ofCells grid x) hc hp
      rw [Picture.cells_ofCells hlen] at htake
      exact ⟨htake, hout⟩
  obtain ⟨htake, rfl⟩ := htake
  have hstart : (onGrid p.grid).Carries p.cells (.picture p) :=
    ⟨rfl, rfl, fun n hn => by cases hn; exact p.length_cells⟩
  refine ⟨p.cells, htake, ?_⟩
  -- the scaling
  unfold ConversionPlan.scaled
  rcases hscale with ⟨hnone, rfl⟩ | ⟨factor, l, hfactor, hl, rfl⟩
  · rw [hnone]
    exact hstart
  · rw [hfactor]
    have hsize : l.size = p.grid.size := (DataLayer.make_ok hl).2.1
    have hvalues := DataLayer.values_scale hl p.length_cells
    have hlen : p.cells.length = l.size := p.length_cells.trans hsize.symm
    refine hstart.push (values_stage rfl hlen rfl (congrArg Except.ok ?_)) rfl ?_
    · exact hvalues.trans (p.cells_map _).symm
    · exact (Picture.length_cells _).trans hsize.symm

end Conversion

/-- **Conversion preserves meaning.**  Take a plan and modules that the conversion accepts, without
    the legacy divisor, every convolution padded by less than its kernel.  Wherever the modules mean
    something, cropping an input and running the network gives exactly that. -/
theorem Net.ofModules_meaning {plan : ConversionPlan Rat} {modules : List (Module Rat)}
    {noted : List Nat} {net : Net Rat} (h : Net.ofModules plan modules = (noted, .ok net))
    (hlegacy : plan.legacyDivisor = false) (hnarrow : ∀ m, .conv m ∈ modules → m.Narrow)
    {x : List Rat} {s : Signal} (hs : plan.meaning? modules x = some s) :
    ∃ z, net.cropped x = .ok z ∧ net.values z = .ok s.values := by
  unfold Net.ofModules at h
  split at h
  · obtain ⟨-, h⟩ := Prod.mk.inj h
    cases h
  rename_i crop start hbegin
  split at h
  · obtain ⟨-, h⟩ := Prod.mk.inj h
    cases h
  rename_i noted' c hsteps
  obtain ⟨-, h⟩ := Prod.mk.inj h
  obtain ⟨s₀, hinput, hs⟩ := Option.bind_eq_some_iff.1 hs
  obtain ⟨z, hz, hstart⟩ := Conversion.carries_begin hbegin hinput
  have hend := Conversion.carries_steps hlegacy hsteps hnarrow hstart hs
  obtain ⟨hlayers, hcrop⟩ := Net.make_ok h
  refine ⟨z, ?_, ?_⟩
  · unfold Net.cropped
    rw [hcrop]
    exact hz
  · unfold Net.values
    rw [hlayers]
    exact hend.values

/-! ### Every kind of module -/

namespace Medley

/-- Three rows of three pixels, of which the first two rows and columns are kept and halved. -/
def plan : ConversionPlan Rat where
  shape := some ⟨1, 3, 3⟩
  crop := some 2
  scale := some (1 / 2)
  threads := 1
  legacyDivisor := false

/-- Two kernels of side two, padded by one. -/
def edges : ConvModule Rat where
  weight := ⟨[2, 1, 2, 2], [1, -1, 0, 2, 0, 1, 1, 0]⟩
  bias := some [0, -1]
  stride := [1]
  padding := .extents [1, 1]
  dilation := [1]
  groups := 1
  paddingMode := "zeros"

/-- Windows of side two, rounded up, with one cell of padding. -/
def windows : PoolModule where
  kernel := [2]
  stride := none
  padding := [1]
  dilation := [1]
  ceilMode := true
  countIncludePad := true
  divisorOverride := none

/-- One module of every kind. -/
def modules : List (Module Rat) :=
  [.conv edges, .relu, .maxPool windows, .identity, .avgPool windows, .flatten,
    .linear ⟨[1, 8], [1, 0, 1, 0, 1, 0, 1, 1]⟩ none]

/-- The convolution is padded by less than its kernel. -/
theorem narrow : ∀ m, .conv m ∈ modules → m.Narrow := by
  intro m hm
  simp only [modules, List.mem_cons, List.not_mem_nil, or_false, Module.conv.injEq, reduceCtorEq,
    or_self] at hm
  subst hm
  intro sides hsides p hp k hk
  cases hsides
  simp only [List.mem_cons, List.not_mem_nil, or_false, or_self] at hp
  have hk : k ∈ [2, 2] := hk
  simp only [List.mem_cons, List.not_mem_nil, or_false, or_self] at hk
  subst hp hk
  decide

/-- The conversion accepts the modules. -/
theorem accepted : ∃ net, Net.ofModules plan modules = ([], .ok net) := by
  have hok : (Net.ofModules plan modules).2.isOk = true := by decide +kernel
  have hnoted : (Net.ofModules plan modules).1 = [] := by decide +kernel
  cases hresult : Net.ofModules plan modules with
  | mk noted result =>
    rw [hresult] at hok hnoted
    cases result with
    | error e => cases hok
    | ok net =>
      cases hnoted
      exact ⟨net, rfl⟩

end Medley

/-- The modules mean `15 / 8` there, and so the network gives it. -/
theorem Net.ofModules_meaning_medley :
    ∃ (net : Net Rat) (z : List Rat), Net.ofModules Medley.plan Medley.modules = ([], .ok net) ∧
      net.cropped [1, 2, 3, 4, 5, 6, 7, 8, 9] = .ok z ∧ net.values z = .ok [15 / 8] := by
  obtain ⟨net, hnet⟩ := Medley.accepted
  have hmeaning : (Medley.plan.meaning? Medley.modules [1, 2, 3, 4, 5, 6, 7, 8, 9]).map
      Signal.values = some [15 / 8] := by decide +kernel
  obtain ⟨s, hs, hvalues⟩ := Option.map_eq_some_iff.1 hmeaning
  obtain ⟨z, hz, hnetz⟩ := Net.ofModules_meaning hnet rfl Medley.narrow hs
  exact ⟨net, z, hnet, hz, hvalues ▸ hnetz⟩

end Perturb
