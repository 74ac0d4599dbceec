/-
  The two modes of everything affine agree.

  An affine layer can be evaluated at a point or on affine terms, and so can a crop.  The first mode
  has formulas of its own (shifting and scaling, matrix products, products with receptive fields,
  reading cells by number), the second runs recipes.

  1. **Layers** (`Layer.affine_modes`) — replayed on terms of its length, an affine layer that was
     built and is regular gives terms and leaves the replay as it was: nothing is demanded, nothing
     is drawn.  Evaluated at any point, these terms are what the layer gives there.  Layers joined
     into one are no different, whatever their nesting: they are chains of stages.

  2. **Crops** (`Crop.modes`) — reading the cells by recipes gives terms whose values are the cells
     read directly.  No recipe reads beyond the image because the crop fits it.

  The terms put in are arbitrary: they need not be variables, and they may share variables.
-/
import Perturb.Proofs.Layer.Replay
import Perturb.Proofs.Net.Crop

namespace Perturb

variable {n : Nat}

/-- **An affine layer in both modes.**  On terms it gives terms, adds nothing to what the replay has
    collected, and these terms have the values that the layer gives at the values put in. -/
theorem Layer.affine_modes {l : Layer Rat} (haffine : l.isAffine = true) (hb : l.Built)
    (hr : l.Regular) (ts : List (Affine Rat n)) (hlen : ts.length = l.inDim) :
    ∃ us : List (Affine Rat n), us.length = l.outDim ∧
      (∀ {S : Type} [Source S Rat] (trace : Trace) (ratio : Rat) (r : Replay S Rat n),
        Replay.layer trace ratio l ts r = .ok (us, r)) ∧
      ∀ v : Vector Rat n, l.values (ts.map fun t => t.eval v) = .ok (us.map fun t => t.eval v) := by
  cases l with
  | relu u => cases haffine
  | maxPool m => cases haffine
  | affine a =>
    have hs : a.Sound := hb.sound
    -- that the layer succeeds at all is known at points: any one of the right length will do
    have hzeros : (List.replicate ts.length (0 : Rat)).length = a.head.inDim := by
      rw [List.length_replicate]
      exact hlen
    obtain ⟨y, hy, hdim⟩ := Layer.values_ok hb.sound hr hzeros
    obtain ⟨us, hus, hlast, heval⟩ :=
      Stage.foldlM_eval hs.built hy ts (List.length_replicate ..).symm
    refine ⟨us, hlast.trans hdim, ?_, heval⟩
    intro S _ trace ratio r
    simp only [Replay.layer, hus, Outcome.ok_bind]

namespace Crop

/-- The recipe that reads one cell. -/
theorem run_read (x : List Rat) (i : Nat) :
    Recipe.run x (⟨0, [.add i]⟩ : Recipe Rat) = (x[i]?).getD 0 := by
  have hsum := Recipe.run_eq_sum (x := x) (r := ⟨0, [.add i]⟩)
    (fun m hm => by rw [List.mem_singleton.1 hm]; rfl)
  rw [hsum, List.map_singleton, List.sum_singleton, zero_add]
  rfl

/-- **A crop in both modes.**  On terms its recipes read only what is there, and the terms they give
    have the values that the crop takes at the values put in. -/
theorem modes (c : Crop) (ts : List (Affine Rat n)) (hlen : ts.length = c.inDim) :
    ∃ us : List (Affine Rat n), us.length = c.outDim ∧
      Recipe.runAll ts (c.recipes Rat) = .ok us ∧
      ∀ v : Vector Rat n, c.take (ts.map fun t => t.eval v) = .ok (us.map fun t => t.eval v) := by
  have hreads : ∀ r ∈ c.recipes Rat, ∀ i ∈ r.reads, i < ts.length := by
    intro r hr i hi
    obtain ⟨cell, hcell, rfl⟩ := List.mem_map.1 hr
    rw [List.mem_singleton.1 hi, hlen]
    exact c.cells_lt cell hcell
  refine ⟨(c.recipes Rat).map (Recipe.run ts), ?_, Recipe.runAll_ok hreads, fun v => ?_⟩
  · rw [List.length_map, recipes, List.length_map, length_cells]
  · have hvalues : ((c.recipes Rat).map (Recipe.run ts)).map (fun t => t.eval v) =
        c.cells.map fun i => ((ts.map fun t => t.eval v)[i]?).getD 0 := by
      rw [List.map_map, recipes, List.map_map]
      apply List.map_congr_left
      intro i _
      show (Recipe.run ts (⟨0, [.add i]⟩ : Recipe Rat)).eval v = _
      rw [Recipe.eval_run, run_read]
    unfold take
    rw [if_pos ((List.length_map _).trans hlen), hvalues]

end Crop

/-- **Both modes agree on everything affine.**  For an affine layer that was built and is regular,
    and for a crop, on any terms of the right length: the terms given have, at every point, the
    values given at the values put in, and a layer leaves the replay as it was. -/
theorem modes_agree (n : Nat) :
    (∀ l : Layer Rat, l.isAffine = true → l.Built → l.Regular →
      ∀ ts : List (Affine Rat n), ts.length = l.inDim →
        ∃ us : List (Affine Rat n), us.length = l.outDim ∧
          (∀ {S : Type} [Source S Rat] (trace : Trace) (ratio : Rat) (r : Replay S Rat n),
            Replay.layer trace ratio l ts r = .ok (us, r)) ∧
          ∀ v : Vector Rat n,
            l.values (ts.map fun t => t.eval v) = .ok (us.map fun t => t.eval v)) ∧
    (∀ (c : Crop) (ts : List (Affine Rat n)), ts.length = c.inDim →
      ∃ us : List (Affine Rat n), us.length = c.outDim ∧
        Recipe.runAll ts (c.recipes Rat) = .ok us ∧
        ∀ v : Vector Rat n,
          c.take (ts.map fun t => t.eval v) = .ok (us.map fun t => t.eval v)) :=
  ⟨fun _ haffine hb hr ts hlen => Layer.affine_modes haffine hb hr ts hlen,
    fun c ts hlen => c.modes ts hlen⟩

/-! ### A crop and two layers as one -/

namespace Tent

/-- One row of three pixels, of which the middle one is kept. -/
def strip : Grid := ⟨1, 1, 3, by decide, by decide, by decide⟩

/-- The middle pixel. -/
def middle : Crop := ⟨strip, 1, by decide, by decide, by decide⟩

/-- `(x - 1) · 2`. -/
def centred : DataLayer Rat := ⟨0, 1, none, 2, [1], by decide, by decide⟩

/-- The value doubled, and a constant behind a zero weight. -/
def pair : DenseLayer Rat := ⟨1, 1, none, [[2], [0]], [0, 5], rfl, by decide, by decide⟩

/-- Both layers as one. -/
def layer : Layer Rat := .affine (.fused (.stage (.data centred)) [.stage (.dense pair)])

theorem built : layer.Built := by
  have hcentred : DataLayer.make 0 1 2 (some [1]) none none = .ok centred := rfl
  have hpair : DenseLayer.make 1 ⟨[2, 1], [2, 0]⟩ [0, 5] none = .ok pair := rfl
  have hfuse : Layer.fuse [.affine (.stage (.data centred)), .affine (.stage (.dense pair))] =
      .ok layer := rfl
  refine .fused (fun l hl => ?_) hfuse
  rcases List.mem_cons.1 hl with rfl | hl
  · exact .stage (.data hcentred)
  · rw [List.mem_singleton.1 hl]
    exact .stage (.dense hpair)

theorem regular : layer.Regular := by
  intro s hs
  have hmem : s ∈ [Stage.data centred, Stage.dense pair] := hs
  rcases List.mem_cons.1 hmem with rfl | hmem
  · trivial
  · rw [List.mem_singleton.1 hmem]
    trivial

end Tent

/-- The middle pixel of `x, x + x, 3` is `x + x`, and behind the layers it is `4 · (x + x - 1)`. -/
theorem modes_agree_tent :
    (∃ us : List (Affine Rat 1),
      Recipe.runAll [.var 0, (Affine.var 0).add (.var 0), .const 3] (Tent.middle.recipes Rat) =
        .ok us ∧
      us.map (fun t => t.eval #v[3]) = [6]) ∧
    ∃ us : List (Affine Rat 1),
      (∀ r : Replay (Cyclic Rat) Rat 1,
        Replay.layer .empty 0 Tent.layer [(Affine.var 0).add (.var 0)] r = .ok (us, r)) ∧
      us.map (fun t => t.eval #v[3]) = [20, 5] := by
  obtain ⟨hlayer, hcrop⟩ := modes_agree 1
  constructor
  · obtain ⟨us, -, hus, hvalues⟩ := hcrop Tent.middle
      [.var 0, (Affine.var 0).add (.var 0), .const 3] rfl
    have htake : Tent.middle.take [3, 6, 3] = .ok ([6] : List Rat) := by decide +kernel
    have hpoint := hvalues #v[3]
    have hin : ([.var 0, (Affine.var 0).add (.var 0), .const 3] : List (Affine Rat 1)).map
        (fun t => t.eval #v[3]) = [3, 6, 3] := by decide +kernel
    rw [hin, htake] at hpoint
    exact ⟨us, hus, (Except.ok.inj hpoint).symm⟩
  · obtain ⟨us, -, hus, hvalues⟩ := hlayer Tent.layer rfl Tent.built Tent.regular
      [(Affine.var 0).add (.var 0)] rfl
    have hgive : Tent.layer.values [6] = .ok [20, 5] := by decide +kernel
    have hpoint := hvalues #v[3]
    have hin : ([(Affine.var 0).add (.var 0)] : List (Affine Rat 1)).map
        (fun t => t.eval #v[3]) = [6] := by decide +kernel
    rw [hin, hgive] at hpoint
    exact ⟨us, fun r => hus .empty 0 r, (Except.ok.inj hpoint).symm⟩

end Perturb
