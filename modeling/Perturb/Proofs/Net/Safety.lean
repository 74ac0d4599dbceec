/-
  Evaluation never fails.

  A network of layers that were built, with windows and strides of at least one and paddings that
  are not negative, has a value at every input of its length, and can be replayed along what was
  recorded there.  What could go wrong on the way is ruled out one after the other:

  1. **Indices** — crops and spatial layers look cells up by numbers that they compute.  A number
     below zero, or beyond the input, would be a fault or, worse, a wrong value.  `Lookup` keeps the
     numbers as integers, as they are computed, apart from the cells that are looked up in the end;
     `Lookup.Safe` says that every number is that of a cell and every cell has such a number.

  2. **Divisors** — a mean divides by at least one if its padding is not negative
     (`Layer.Built.one_le_divisors`), and that of a regular layer is not.

  3. **Lengths** — what a layer gives has the length that was compared when the layers were put
     together, so layers make a relay, and so do the stages inside a layer (`Layer.Built.passes`).

  The theorem is `Net.evaluation_never_fails`.
-/
import Perturb.Proofs.Layer.Correlation
import Perturb.Proofs.Net.Resolution

namespace Perturb

/-! ## Indices -/

/-- A place where a network looks cells up by number: how many cells there are, the numbers as they
    are computed, and the cells that are looked up. -/
structure Lookup where
  length : Nat
  Computed : Int → Prop
  cells : List Nat

/-- Every number that is computed is that of a cell, and every cell that is looked up has a number
    that was computed. -/
structure Lookup.Safe (k : Lookup) : Prop where
  inside : ∀ n, k.Computed n → 0 ≤ n ∧ n < k.length
  computed : ∀ cell ∈ k.cells, k.Computed (cell : Int)

namespace Grid

variable {g : Grid}

/-- A number that a walk over square windows computes: that of the position `(i, j)` of the window
    at `(r, c)`, in some channel, if the guard of the walk has found the position on the image. -/
def WalkIndex (g : Grid) (side stride padding n : Int) : Prop :=
  ∃ channel r c i j : Nat, channel < g.channels ∧ i < side ∧ j < side ∧
    (0 ≤ r * stride - padding + i ∧ r * stride - padding + i < g.rows ∧
      0 ≤ c * stride - padding + j ∧ c * stride - padding + j < g.cols) ∧
    n = g.index channel (r * stride - padding + i) (c * stride - padding + j)

/-- A walk computes numbers of cells only. -/
theorem WalkIndex.mem {side stride padding n : Int} (h : g.WalkIndex side stride padding n) :
    0 ≤ n ∧ n < g.size := by
  obtain ⟨channel, r, c, i, j, hch, -, -, ⟨htop, hbottom, hleft, hright⟩, rfl⟩ := h
  exact index_mem hch ⟨htop, hbottom⟩ ⟨hleft, hright⟩

/-- The cell that a walk finds has a number that the walk computes. -/
theorem WalkIndex.of_cell? {side stride padding : Int} {channel r c i j cell : Nat}
    (hch : channel < g.channels) (hi : i < side) (hj : j < side)
    (h : g.cell? channel (r * stride - padding + i) (c * stride - padding + j) = some cell) :
    g.WalkIndex side stride padding cell := by
  obtain ⟨hon, hnumber⟩ := cell?_eq_some_iff.1 h
  exact ⟨channel, r, c, i, j, hch, hi, hj, hon, hnumber⟩

end Grid

namespace ConvLayer

/-- The cells that the receptive fields of all windows that fit are filled from. -/
def fieldCells {K : Type} (l : ConvLayer K) : List Nat :=
  (List.range (l.fitting l.input.rows)).flatMap fun r =>
    (List.range (l.fitting l.input.cols)).flatMap fun c =>
      l.kernel.positions.filterMap fun (channel, i, j) => l.cell? channel r c i j

/-- A convolution looks up what its recipes read and what its receptive fields are filled from. -/
def lookup {K : Type} [Scalar K] (l : ConvLayer K) : Lookup :=
  ⟨l.input.size, l.input.WalkIndex l.kernel.rows l.stride l.padding,
    l.recipes.flatMap Recipe.reads ++ l.fieldCells⟩

theorem lookup_safe {l : ConvLayer Rat} (hch : l.kernel.channels = l.input.channels)
    (hside : l.kernel.cols = l.kernel.rows) : l.lookup.Safe where
  inside _ h := h.mem
  computed cell hcell := by
    have hfound : ∃ channel r c i j, (channel, i, j) ∈ l.kernel.positions ∧
        l.cell? channel r c i j = some cell := by
      rcases List.mem_append.1 hcell with hcell | hcell
      · obtain ⟨recipe, hrecipe, hcell⟩ := List.mem_flatMap.1 hcell
        exact exists_cell?_of_mem_reads hrecipe hcell
      · obtain ⟨r, -, hcell⟩ := List.mem_flatMap.1 hcell
        obtain ⟨c, -, hcell⟩ := List.mem_flatMap.1 hcell
        obtain ⟨⟨channel, i, j⟩, hposition, hcell⟩ := List.mem_filterMap.1 hcell
        exact ⟨channel, r, c, i, j, hposition, hcell⟩
    obtain ⟨channel, r, c, i, j, hposition, hfound⟩ := hfound
    obtain ⟨hchannel, hi, hj⟩ := Grid.mem_positions_iff.1 hposition
    exact .of_cell? (hch ▸ hchannel) (Int.ofNat_lt.2 hi) (Int.ofNat_lt.2 (hside ▸ hj)) hfound

end ConvLayer

namespace Pooling

/-- A geometry looks up the cells of its windows. -/
def lookup (p : Pooling) : Lookup :=
  ⟨p.shape.input.size, p.shape.input.WalkIndex p.shape.kernelDim p.shape.stride p.shape.padding,
    p.windows.flatten⟩

theorem lookup_safe (p : Pooling) : p.lookup.Safe where
  inside _ h := h.mem
  computed cell hcell := by
    obtain ⟨w, hw, hcell⟩ := List.mem_flatten.1 hcell
    obtain ⟨⟨channel, r, c⟩, hposition, rfl⟩ := List.mem_map.1 hw
    obtain ⟨i, hi, hcell⟩ := List.mem_flatMap.1 hcell
    obtain ⟨j, hj, hcell⟩ := List.mem_filterMap.1 hcell
    have hchannel := (Grid.mem_positions_iff.1 hposition).1
    rw [List.mem_range] at hi hj
    exact .of_cell? (p.channels_eq ▸ hchannel) (by omega) (by omega) hcell

end Pooling

namespace Crop

/-- A crop computes the number of every position of the cropped image on the full one.  It has no
    guard. -/
def lookup (c : Crop) : Lookup where
  length := c.inDim
  Computed n := ∃ channel r k : Nat, channel < c.image.channels ∧ r < c.size ∧ k < c.size ∧
    n = c.image.index channel ((c.image.rows : Int) / 2 - (c.size : Int) / 2 + r)
      ((c.image.cols : Int) / 2 - (c.size : Int) / 2 + k)
  cells := c.cells

theorem lookup_safe (c : Crop) : c.lookup.Safe where
  inside n h := by
    obtain ⟨channel, r, k, hch, hr, hk, rfl⟩ := h
    have hrows := c.size_le_rows
    have hcols := c.size_le_cols
    exact Grid.index_mem hch ⟨by omega, by omega⟩ ⟨by omega, by omega⟩
  computed cell hcell := by
    obtain ⟨⟨channel, r, k⟩, hposition, rfl⟩ := List.mem_map.1 hcell
    obtain ⟨-, hr, hk⟩ := Grid.mem_positions_iff.1 hposition
    obtain ⟨hch, hrow, hcol⟩ := c.shifted_lt hposition
    have hrows := c.size_le_rows
    have hcols := c.size_le_cols
    -- the first row and the first column are differences that are not cut off at zero
    have htop : ((c.top + r : Nat) : Int) = (c.image.rows : Int) / 2 - (c.size : Int) / 2 + r := by
      unfold top
      omega
    have hleft : ((c.left + k : Nat) : Int) =
        (c.image.cols : Int) / 2 - (c.size : Int) / 2 + k := by
      unfold left
      omega
    have hnumber := (Grid.index_mem hch ⟨Int.natCast_nonneg _, Int.ofNat_lt.2 hrow⟩
      ⟨Int.natCast_nonneg _, Int.ofNat_lt.2 hcol⟩).1
    refine ⟨channel, r, k, hch, hr, hk, ?_⟩
    rw [← htop, ← hleft]
    exact Int.toNat_of_nonneg hnumber

end Crop

/-- The lookup of a stage, if it is spatial. -/
def Stage.lookup? {K : Type} [Scalar K] : Stage K → Option Lookup
  | .conv l => some l.lookup
  | .avgPool p => some p.pooling.lookup
  | _ => none

/-- The lookups of a layer. -/
def Layer.lookups {K : Type} [Scalar K] : Layer K → List Lookup
  | .affine a => a.stages.filterMap Stage.lookup?
  | .relu _ => []
  | .maxPool m => [m.pooling.lookup]

/-- The lookups of a network. -/
def Net.lookups {K : Type} [Scalar K] (net : Net K) : List Lookup :=
  (net.crop.map Crop.lookup).toList ++ net.layers.flatMap Layer.lookups

theorem Stage.Built.lookup_safe {s : Stage Rat} (hb : s.Built) {k : Lookup}
    (hk : s.lookup? = some k) : k.Safe := by
  cases hb with
  | data _ => cases hk
  | dense _ => cases hk
  | conv h =>
    cases hk
    exact ConvLayer.lookup_safe (ConvLayer.kernel_of_make h).1 (ConvLayer.kernel_of_make h).2
  | avgPool _ _ =>
    cases hk
    exact Pooling.lookup_safe _

theorem Layer.Built.lookups_safe {l : Layer Rat} (hb : l.Built) : ∀ k ∈ l.lookups, k.Safe := by
  intro k hk
  cases l with
  | affine a =>
    obtain ⟨s, hs, hk⟩ := List.mem_filterMap.1 hk
    exact (hb.sound.built s hs).lookup_safe hk
  | relu u => cases hk
  | maxPool m =>
    rw [List.mem_singleton.1 hk]
    exact m.pooling.lookup_safe

/-- **Every lookup of a network is safe.** -/
theorem Net.lookups_safe {net : Net Rat} (hb : ∀ l ∈ net.layers, l.Built) :
    ∀ k ∈ net.lookups, k.Safe := by
  intro k hk
  rcases List.mem_append.1 hk with hk | hk
  · obtain ⟨c, -, rfl⟩ := Option.map_eq_some_iff.1 (Option.mem_toList.1 hk)
    exact c.lookup_safe
  · obtain ⟨l, hl, hk⟩ := List.mem_flatMap.1 hk
    exact (hb l hl).lookups_safe k hk

/-! ## Divisors -/

/-- The padding of a mean inside a regular layer is not negative. -/
theorem Layer.Regular.padding_nonneg {l : Layer Rat} (hr : l.Regular) {p : AvgPool Rat}
    (hp : p ∈ l.means) : 0 ≤ p.pooling.shape.padding := by
  cases l with
  | affine a =>
    have hregular : (Stage.avgPool p).Regular := hr _ (AffineLayer.mem_means_iff.1 hp)
    exact hregular.2.2
  | _ => cases hp

/-! ## Lengths -/

/-- An entry of two lists taken together comes from an entry of each. -/
theorem exists_of_mem_zipWith {α β γ : Type} {f : α → β → γ} {xs : List α} {ys : List β} {z : γ}
    (h : z ∈ List.zipWith f xs ys) : ∃ x ∈ xs, ∃ y ∈ ys, z = f x y := by
  rw [← List.map_uncurry_zip_eq_zipWith] at h
  obtain ⟨⟨x, y⟩, hxy, rfl⟩ := List.mem_map.1 h
  exact ⟨x, (List.of_mem_zip hxy).1, y, (List.of_mem_zip hxy).2, rfl⟩

theorem DataLayer.reads_lt (l : DataLayer Rat) :
    ∀ recipe ∈ l.recipes, ∀ i ∈ recipe.reads, i < l.size := by
  intro recipe hrecipe i hi
  obtain ⟨⟨m, j⟩, hj, rfl⟩ := List.mem_map.1 hrecipe
  have hlt := List.snd_lt_of_mem_zipIdx hj
  rw [l.mean_length] at hlt
  rw [List.mem_singleton.1 hi]
  exact hlt

theorem DenseLayer.reads_lt (l : DenseLayer Rat) :
    ∀ recipe ∈ l.recipes, ∀ i ∈ recipe.reads, i < l.width := by
  intro recipe hrecipe i hi
  obtain ⟨row, hrow, b, -, rfl⟩ := exists_of_mem_zipWith hrecipe
  obtain ⟨move, hmove, hread⟩ := List.mem_filterMap.1 hi
  obtain ⟨⟨w, j⟩, hj, rfl⟩ := List.mem_map.1 hmove
  have hlt := List.snd_lt_of_mem_zipIdx (List.mem_of_mem_filter hj)
  rw [l.row_length row hrow] at hlt
  cases hread
  exact hlt

theorem AvgPool.reads_lt (l : AvgPool Rat) :
    ∀ recipe ∈ l.recipes, ∀ i ∈ recipe.reads, i < l.pooling.shape.input.size := by
  intro recipe hrecipe i hi
  obtain ⟨w, hw, d, -, rfl⟩ := exists_of_mem_zipWith hrecipe
  obtain ⟨move, hmove, hread⟩ := List.mem_filterMap.1 hi
  rcases List.mem_append.1 hmove with hmove | hmove
  · obtain ⟨cell, hcell, rfl⟩ := List.mem_map.1 hmove
    cases hread
    have hsafe := l.pooling.lookup_safe
    exact Int.ofNat_lt.1 (hsafe.inside i (hsafe.computed i (List.mem_flatten.2 ⟨w, hw, hcell⟩))).2
  · rw [List.mem_singleton.1 hmove] at hread
    cases hread

/-- The recipes of a stage read inputs of the stage. -/
theorem Stage.Built.reads_lt {s : Stage Rat} (hb : s.Built) :
    ∀ recipe ∈ s.recipes, ∀ i ∈ recipe.reads, i < s.inDim := by
  cases hb with
  | data _ => exact DataLayer.reads_lt _
  | dense _ => exact DenseLayer.reads_lt _
  | conv h => exact ConvLayer.reads_lt (ConvLayer.kernel_of_make h).1
  | avgPool _ _ => exact AvgPool.reads_lt _

/-- How values pass a stage: they have its length, its own formula and the walk over its recipes
    give the same, and that has the length of its outputs. -/
structure Stage.Passes (s : Stage Rat) (x y : List Rat) : Prop where
  takes : x.length = s.inDim
  gives : s.values x = .ok y
  walks : Recipe.runAll x s.recipes = .ok y
  returns : y.length = s.outDim

theorem Stage.Built.passes {s : Stage Rat} (hb : s.Built) (hr : s.Regular) {x : List Rat}
    (hx : x.length = s.inDim) : ∃ y, s.Passes x y ∧ y.length = s.outDim := by
  have hlen : (s.recipes.map (Recipe.run x)).length = s.outDim :=
    (List.length_map _).trans s.length_recipes
  have hwalk : Recipe.runAll x s.recipes = .ok (s.recipes.map (Recipe.run x)) :=
    Recipe.runAll_ok fun recipe hrecipe i hi => hx ▸ hb.reads_lt recipe hrecipe i hi
  exact ⟨_, ⟨hx, (Stage.values_ok_iff hb).2 ⟨hx, hb.ready hr, rfl⟩, hwalk, hlen⟩, hlen⟩

/-- How values pass a layer: they have its length, it gives values of the length of its outputs, and
    inside an affine layer they pass from stage to stage. -/
structure Layer.Passes (l : Layer Rat) (x y : List Rat) : Prop where
  takes : x.length = l.inDim
  gives : l.values x = .ok y
  returns : y.length = l.outDim
  within : ∀ a, l = .affine a → Relay Stage.Passes a.stages x y

/-- **One layer.**  Values of its length pass a regular layer that was built. -/
theorem Layer.Built.passes {l : Layer Rat} (hb : l.Built) (hr : l.Regular) {x : List Rat}
    (hx : x.length = l.inDim) : ∃ y, l.Passes x y ∧ y.length = l.outDim := by
  cases l with
  | affine a =>
    obtain ⟨rest, hstages⟩ := a.stages_eq_cons
    have hlast := a.getLast?_stages
    have hbuilt := hb.sound.built
    have hchain := hb.sound.chain
    have hregular : ∀ s ∈ a.stages, s.Regular := hr
    rw [hstages] at hlast hbuilt hchain hregular
    obtain ⟨y, hrelay, hlen⟩ := Relay.of_isChain (R := Stage.Passes)
      (fun s hs _ hx => (hbuilt s hs).passes (hregular s hs) hx) hchain hx
    rw [List.getLast?_cons, Option.some_inj] at hlast
    rw [hlast] at hlen
    rw [← hstages] at hrelay
    refine ⟨y, ⟨hx, hrelay.foldlM_ok fun h => h.gives, hlen, ?_⟩, hlen⟩
    rintro _ ⟨⟩
    exact hrelay
  | _ =>
    obtain ⟨y, hy, hlen⟩ := Layer.values_ok hb.sound hr hx
    exact ⟨y, ⟨hx, hy, hlen, fun a ha => by cases ha⟩, hlen⟩

/-! ## Networks -/

/-- **Evaluation never fails.**  Take a network of layers that were built, with windows and strides
    of at least one and paddings that are not negative, behind a crop or not.

    Every number it computes to look a cell up is that of a cell, and no mean divides by less than
    one.  An input of its full length can be cropped; the values then pass from layer to layer, each
    taking and giving as many as it says, and the network gives as many as it has outputs.  If no
    two layers have one index, it also records a trace at every input, and along this trace every
    replay, on terms over any space, gives as many terms as the network has outputs. -/
theorem Net.evaluation_never_fails (net : Net Rat) (hb : ∀ l ∈ net.layers, l.Built)
    (hr : ∀ l ∈ net.layers, l.Regular) :
    (∀ k ∈ net.lookups, k.Safe) ∧
    (∀ l ∈ net.layers, ∀ p ∈ l.means, ∀ d ∈ p.divisors, 1 ≤ d) ∧
    (∀ x : List Rat, x.length = net.fullDim → ∃ z ys, net.cropped x = .ok z ∧
      z.length = net.inDim ∧ Relay Layer.Passes net.layers z ys ∧ net.values z = .ok ys ∧
      ys.length = net.outDim) ∧
    ((net.layers.map Layer.index).Nodup → ∀ x₀ : List Rat, x₀.length = net.inDim →
      ∃ trace, net.trace x₀ = .ok trace ∧ ∀ {S : Type} [Source S Rat] {n : Nat}
        (ts : List (Affine Rat n)) (ratio : Rat) (r : Replay S Rat n), ts.length = net.inDim →
          ∃ outs r', net.replay trace ratio ts r = .ok (outs, r') ∧ outs.length = net.outDim) := by
  have hpass : ∀ z : List Rat, z.length = net.inDim → ∃ ys, Relay Layer.Passes net.layers z ys ∧
      net.values z = .ok ys ∧ ys.length = net.outDim := by
    intro z hz
    obtain ⟨ys, hrelay, hlen⟩ := Relay.of_isChain (R := Layer.Passes)
      (fun l hl _ hx => (hb l hl).passes (hr l hl) hx) (isChain_of_misfit? net.fits) hz
    exact ⟨ys, hrelay, hrelay.foldlM_ok fun h => h.gives, hlen⟩
  have hdivisors : ∀ l ∈ net.layers, ∀ p ∈ l.means, ∀ d ∈ p.divisors, 1 ≤ d := fun l hl p hp =>
    (hb l hl).one_le_divisors hp ((hr l hl).padding_nonneg hp)
  refine ⟨lookups_safe hb, hdivisors, fun x hx => ?_, fun hidx x₀ hx₀ => ?_⟩
  · obtain ⟨z, hz, hlen⟩ := cropped_ok_iff.2 hx
    obtain ⟨ys, hys⟩ := hpass z hlen
    exact ⟨z, ys, hz, hlen, hys⟩
  · obtain ⟨ys, -, hvalues, hlen⟩ := hpass x₀ hx₀
    have hthrough : through net.layers x₀ = .ok ys := hvalues
    obtain ⟨trace, htraced⟩ := pass_of_through .empty hthrough
    refine ⟨trace, by rw [Net.trace, traced, htraced]; rfl, fun ts ratio r hts => ?_⟩
    obtain ⟨cs, outs, houts, -, hrun⟩ := layers_replays (fun l hl => (hb l hl).sound)
      (pass_recorded hidx htraced) hthrough (hts.trans hx₀.symm)
    obtain ⟨r', hreplay, -⟩ := hrun ratio r
    exact ⟨outs, r', hreplay, houts.trans hlen⟩

/-! ### A network to look at -/

namespace Sieve

/-- A square image. -/
def image : Grid := .upTo 0 3 3

/-- Its middle. -/
def patch : Grid := .upTo 0 2 2

/-- What is left of it. -/
def rest : Grid := .upTo 0 1 1

/-- The middle is a crop. -/
def crop : Crop := ⟨image, 3, Nat.succ_pos 2, Nat.le_succ 3, Nat.le_succ 3⟩

/-- One kernel of side two. -/
def kernels : List (List Rat) := [[1, 2, 3, 4]]

theorem kernel_count : kernels.length = image.channels := rfl

theorem bias_length : ([0] : List Rat).length = kernels.length := rfl

theorem kernel_length : ∀ w ∈ kernels, w.length = rest.size := by
  decide

/-- The kernel over the middle, with a cell of padding around it. -/
def conv : ConvLayer Rat :=
  ⟨0, patch, rest, image, kernels, [0], 1, 1, 1, kernel_count, bias_length, kernel_length⟩

/-- Windows of side two side by side. -/
def tiles : PoolShape := ⟨image, 2, 2, 0, true⟩

theorem tiles_filled : ∀ w ∈ tiles.windows rest, w ≠ [] := by
  decide

def pool : MaxPool := ⟨⟨1, tiles, rest, rfl, tiles_filled⟩⟩

/-- Windows of side two that reach over the rim. -/
def corners : PoolShape := ⟨rest, 2, 2, 1, false⟩

theorem corners_filled : ∀ w ∈ corners.windows rest, w ≠ [] := by
  decide

def means : Pooling := ⟨2, corners, rest, rfl, corners_filled⟩

def mean : AvgPool Rat := ⟨means, [4, 4, 4, 4], rfl⟩

/-- A convolution, maxima and means behind a crop. -/
def net : Net Rat where
  first := .affine (.stage (.conv conv))
  rest := [.maxPool pool, .affine (.stage (.avgPool mean))]
  crop := some crop
  fits := rfl
  crop_fits := by decide

theorem forall_layers {P : Layer Rat → Prop} (hconv : P (.affine (.stage (.conv conv))))
    (hpool : P (.maxPool pool)) (hmean : P (.affine (.stage (.avgPool mean)))) :
    ∀ l ∈ net.layers, P l :=
  List.forall_mem_cons.2 ⟨hconv, List.forall_mem_cons.2 ⟨hpool, List.forall_mem_singleton.2 hmean⟩⟩

theorem built : ∀ l ∈ net.layers, l.Built := by
  have hconv : ConvLayer.make 0 patch ⟨[1, 1, 2, 2], [1, 2, 3, 4]⟩ [0] 2 1 1 1 = .ok conv := by
    have hrows : windowCount Rat 2 patch.rows 1 1 false = .ok 4 := by decide +kernel
    have hcols : windowCount Rat 2 patch.cols 1 1 false = .ok 4 := hrows
    unfold ConvLayer.make
    simp only [hrows, hcols]
    rfl
  have hpool : Pooling.make Rat 1 tiles = .ok pool.pooling := by
    have hside : windowCount Rat 2 (4 : Nat) 2 0 true = .ok 2 := by decide +kernel
    unfold Pooling.make
    show (windowCount Rat 2 (4 : Nat) 2 0 true >>= fun _ =>
      windowCount Rat 2 (4 : Nat) 2 0 true >>= _) = _
    rw [hside]
    rfl
  have hmeans : Pooling.make Rat 2 corners = .ok means := by
    have hside : windowCount Rat 2 (2 : Nat) 2 1 false = .ok 2 := by decide +kernel
    unfold Pooling.make
    show (windowCount Rat 2 (2 : Nat) 2 1 false >>= fun _ =>
      windowCount Rat 2 (2 : Nat) 2 1 false >>= _) = _
    rw [hside]
    rfl
  have hmean : AvgPool.make means false true none = .ok mean := rfl
  exact forall_layers (.stage (.conv hconv)) (.maxPool hpool) (.stage (.avgPool hmeans hmean))

theorem regular : ∀ l ∈ net.layers, l.Regular :=
  forall_layers (List.forall_mem_singleton.2 ⟨by decide, by decide, by decide⟩)
    ⟨by decide, by decide, by decide⟩
    (List.forall_mem_singleton.2 ⟨by decide, by decide, by decide⟩)

end Sieve

/-- Sixteen pixels are cropped to nine, and four numbers come out; along the trace of the empty
    picture the four outputs are terms over a space of nine variables. -/
theorem Net.evaluation_never_fails_sieve :
    (∃ z ys : List Rat, Sieve.net.cropped (List.replicate 16 1) = .ok z ∧ z.length = 9 ∧
      Sieve.net.values z = .ok ys ∧ ys.length = 4) ∧
    ∃ trace, Sieve.net.trace (List.replicate 9 0) = .ok trace ∧
      ∃ outs r', Sieve.net.replay trace 1 ((List.range 9).map (Affine.var : Nat → Affine Rat 9))
        (Replay.start Quad.draws) = .ok (outs, r') ∧ outs.length = 4 := by
  obtain ⟨-, -, hvalues, hreplay⟩ :=
    Net.evaluation_never_fails Sieve.net Sieve.built Sieve.regular
  obtain ⟨z, ys, hz, hlen, -, hys, hcount⟩ := hvalues (List.replicate 16 1) rfl
  obtain ⟨trace, htrace, hruns⟩ := hreplay (by decide) (List.replicate 9 0) rfl
  exact ⟨⟨z, ys, hz, hlen, hys, hcount⟩, trace, htrace, hruns _ 1 (Replay.start Quad.draws) rfl⟩

end Perturb
