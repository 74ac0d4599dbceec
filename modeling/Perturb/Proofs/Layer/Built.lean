/-
  Layers as their constructors make them, and what evaluating them amounts to.

  `Stage.Built` and `Layer.Built` say that a layer came out of its constructor; several layers as
  one are built if each of them is and `Layer.fuse` accepted the list.  `Regular` adds what a
  well-posed spatial layer has: a window side and a stride of at least one, and a padding that is
  not negative.

  The main statements:

    * `Stage.values_ok_iff`, `Stage.terms_ok_iff`: a stage can be evaluated exactly on inputs of its
      length, if it is `Ready`, and then gives what its recipes run to.  So whether a stage succeeds
      depends on the length of the input only;
    * `Stage.foldlM_eval`: a chain of stages that succeeds at one point succeeds on terms, and the
      values of these terms are what it gives at every other point;
    * `Layer.values_ok`: a regular layer that was built succeeds on every input of its length.
-/
import Perturb.Proofs.Layer.Geometry
import Perturb.Proofs.Layer.Shape
import Perturb.Layer.Basic

namespace Perturb

/-! ## Stages -/

namespace Stage

/-- A stage that came out of its constructor. -/
inductive Built : Stage Rat → Prop
  | data {index : Int} {size : Nat} {scale : Rat} {meanImage meanChannel : Option (List Rat)}
      {grid : Option Grid} {l : DataLayer Rat}
      (h : DataLayer.make index size scale meanImage meanChannel grid = .ok l) : Built (.data l)
  | dense {index : Int} {weights : Tensor Rat} {bias : List Rat} {grid : Option Grid}
      {l : DenseLayer Rat} (h : DenseLayer.make index weights bias grid = .ok l) :
      Built (.dense l)
  | conv {index : Int} {input : Grid} {kernels : Tensor Rat} {bias : List Rat}
      {kernelDim padding stride workers : Int} {l : ConvLayer Rat}
      (h : ConvLayer.make index input kernels bias kernelDim padding stride workers = .ok l) :
      Built (.conv l)
  | avgPool {index : Int} {shape : PoolShape} {p : Pooling} {legacy includePad : Bool}
      {override : Option Int} {l : AvgPool Rat} (hp : Pooling.make Rat index shape = .ok p)
      (h : AvgPool.make p legacy includePad override = .ok l) : Built (.avgPool l)

/-- A spatial stage whose window side and stride are at least one and whose padding is not
    negative; other stages have nothing to ask for. -/
def Regular : Stage Rat → Prop
  | .conv l => 1 ≤ l.kernel.rows ∧ 1 ≤ l.stride ∧ 0 ≤ l.padding
  | .avgPool l =>
    1 ≤ l.pooling.shape.kernelDim ∧ 1 ≤ l.pooling.shape.stride ∧ 0 ≤ l.pooling.shape.padding
  | _ => True

/-- A stage that can be evaluated on every input of its length: receptive fields exist, and no
    divisor is zero. -/
def Ready : Stage Rat → Prop
  | .conv l => 0 < l.stride ∧ 0 ≤ l.padding
  | .avgPool l => ∀ d ∈ l.divisors, d ≠ 0
  | _ => True

theorem Built.ready {s : Stage Rat} (hb : s.Built) (hr : s.Regular) : s.Ready := by
  cases hb with
  | data h => trivial
  | dense h => trivial
  | conv h => exact ⟨by have := hr.2.1; omega, hr.2.2⟩
  | avgPool hp h =>
    have hpool := (AvgPool.make_ok h).1
    subst hpool
    exact AvgPool.divisors_ne_zero hr.2.2 h

/-- The check of the divisors passes exactly if none is zero. -/
theorem checkDivisors_ok_iff {s : Stage Rat} :
    s.checkDivisors = .ok () ↔ ∀ l, s = .avgPool l → ∀ d ∈ l.divisors, d ≠ 0 := by
  cases s with
  | avgPool l =>
    have hany : (l.divisors.any (· == 0)) = true ↔ ∃ d ∈ l.divisors, d = 0 := by
      rw [List.any_eq_true]
      constructor
      · rintro ⟨d, hd, h⟩
        exact ⟨d, hd, of_decide_eq_true h⟩
      · rintro ⟨d, hd, h⟩
        exact ⟨d, hd, decide_eq_true h⟩
    simp only [checkDivisors]
    split
    · rename_i h
      obtain ⟨d, hd, h0⟩ := hany.1 h
      constructor
      · intro h'
        cases h'
      · intro h'
        exact absurd h0 (h' l rfl d hd)
    · rename_i h
      constructor
      · intro _ l' hl' d hd h0
        cases hl'
        exact h (hany.2 ⟨d, hd, h0⟩)
      · intro _
        rfl
  | _ =>
    constructor
    · intro _ l hl
      cases hl
    · intro _
      rfl

/-- A stage that is ready passes the check of its divisors. -/
theorem Ready.checkDivisors {s : Stage Rat} (h : s.Ready) : s.checkDivisors = .ok () := by
  rw [checkDivisors_ok_iff]
  rintro l rfl
  exact h

/-- **Evaluating a stage.**  A stage that was built gives a result exactly if the input has its
    length and it is ready, and the result is what its recipes run to. -/
theorem values_ok_iff {s : Stage Rat} (hb : s.Built) {x y : List Rat} :
    s.values x = .ok y ↔ x.length = s.inDim ∧ s.Ready ∧ y = s.recipes.map (Recipe.run x) := by
  unfold values
  rw [Outcome.bind_ok_iff]
  constructor
  · rintro ⟨⟨⟩, hcheck, h⟩
    obtain ⟨hlen, hdiv⟩ := check_ok_iff.1 hcheck
    refine ⟨hlen, ?_⟩
    cases hb with
    | data hm =>
      cases h
      exact ⟨trivial, DataLayer.values_eq _ hlen⟩
    | dense hm =>
      cases h
      exact ⟨trivial, DenseLayer.values_eq _ hlen⟩
    | @conv _ _ _ _ _ _ _ _ l hm =>
      by_cases hg : l.stride ≤ 0 ∨ l.padding < 0
      · have herr : l.values x = .error .tensorGeometry := by
          unfold ConvLayer.values
          rw [if_pos (by simpa using hg)]
        change l.values x = .ok y at h
        rw [herr] at h
        cases h
      · obtain ⟨hs, hp⟩ := not_or.1 hg
        have hfits := ConvLayer.fits_of_make hm (by omega)
        have hval := ConvLayer.values_eq l x hfits.1 hfits.2
        rw [if_neg (by simpa using hg)] at hval
        change l.values x = .ok y at h
        rw [hval] at h
        cases h
        exact ⟨⟨by omega, by omega⟩, rfl⟩
    | avgPool hp hm =>
      cases h
      exact ⟨checkDivisors_ok_iff.1 hdiv _ rfl, rfl⟩
  · rintro ⟨hlen, hready, rfl⟩
    refine ⟨(), check_ok_iff.2 ⟨hlen, hready.checkDivisors⟩, ?_⟩
    cases hb with
    | data hm => exact congrArg Except.ok (DataLayer.values_eq _ hlen)
    | dense hm => exact congrArg Except.ok (DenseLayer.values_eq _ hlen)
    | @conv _ _ _ _ _ _ _ _ l hm =>
      have hfits := ConvLayer.fits_of_make hm hready.1
      have hval := ConvLayer.values_eq l x hfits.1 hfits.2
      have hs : ¬ l.stride ≤ 0 := not_le.2 hready.1
      have hp : ¬ l.padding < 0 := not_lt.2 hready.2
      rw [if_neg (by simp [hs, hp])] at hval
      exact hval
    | avgPool hp hm => rfl

/-- Replaying a stage gives a result exactly if the input has its length and no divisor is zero,
    and the result is what its recipes run to. -/
theorem terms_ok_iff {K : Type} [Scalar K] {n : Nat} {s : Stage K} {ts us : List (Affine K n)} :
    s.terms ts = .ok us ↔
      ts.length = s.inDim ∧ s.checkDivisors = .ok () ∧ us = s.recipes.map (Recipe.run ts) := by
  unfold terms
  rw [Outcome.bind_ok_iff]
  constructor
  · rintro ⟨⟨⟩, hcheck, h⟩
    cases h
    obtain ⟨hlen, hdiv⟩ := check_ok_iff.1 hcheck
    exact ⟨hlen, hdiv, rfl⟩
  · rintro ⟨hlen, hdiv, rfl⟩
    exact ⟨(), check_ok_iff.2 ⟨hlen, hdiv⟩, rfl⟩

/-- A stage has one recipe for every output. -/
theorem length_recipes {K : Type} [Scalar K] (s : Stage K) : s.recipes.length = s.outDim := by
  cases s with
  | data l =>
    show l.recipes.length = l.size
    unfold DataLayer.recipes
    rw [List.length_map, List.length_zipIdx, l.mean_length]
  | dense l =>
    show l.recipes.length = l.weights.length
    unfold DenseLayer.recipes
    rw [List.length_zipWith, l.bias_length, Nat.min_self]
  | conv l =>
    show l.recipes.length = l.output.size
    have hb := l.bias_length
    have hk := l.kernel_count
    unfold ConvLayer.recipes Grid.size
    simp [List.length_flatMap, hb, hk, Nat.mul_assoc]
  | avgPool l =>
    show l.recipes.length = l.pooling.output.size
    unfold AvgPool.recipes
    rw [List.length_zipWith, l.divisor_count, Nat.min_self, Pooling.length_windows]

/-! ### Chains of stages -/

/-- **A chain of stages on terms.**  A chain that succeeds at one point succeeds on any terms of
    that length, and at every point it gives the values of the resulting terms. -/
theorem foldlM_eval {n : Nat} {ss : List (Stage Rat)} (hb : ∀ s ∈ ss, s.Built)
    {x₀ y₀ : List Rat} (h : ss.foldlM (fun x s => s.values x) x₀ = .ok y₀)
    (ts : List (Affine Rat n)) (hlen : ts.length = x₀.length) :
    ∃ us : List (Affine Rat n), ss.foldlM (fun x s => s.terms x) ts = .ok us ∧
      us.length = y₀.length ∧
      ∀ v : Vector Rat n, ss.foldlM (fun x s => s.values x) (ts.map fun t => t.eval v) =
        .ok (us.map fun t => t.eval v) := by
  induction ss generalizing x₀ ts with
  | nil =>
    cases h
    exact ⟨ts, rfl, hlen, fun v => rfl⟩
  | cons s ss ih =>
    rw [List.foldlM_cons] at h
    obtain ⟨x₁, hx₁, hrest⟩ := Outcome.bind_ok_iff.1 h
    have hs := hb s (List.mem_cons_self ..)
    obtain ⟨hdim, hready, rfl⟩ := (values_ok_iff hs).1 hx₁
    have hterms : s.terms ts = .ok (s.recipes.map (Recipe.run ts)) :=
      terms_ok_iff.2 ⟨hlen.trans hdim, hready.checkDivisors, rfl⟩
    obtain ⟨us, hus, hlast, heval⟩ := ih (fun s' hs' => hb s' (List.mem_cons_of_mem s hs')) hrest
      (s.recipes.map (Recipe.run ts)) (by rw [List.length_map, List.length_map])
    refine ⟨us, ?_, hlast, fun v => ?_⟩
    · rw [List.foldlM_cons, hterms]
      exact hus
    · have hvalues : s.values (ts.map fun t => t.eval v) =
          .ok ((s.recipes.map (Recipe.run ts)).map fun t => t.eval v) := by
        rw [values_ok_iff hs]
        refine ⟨by rw [List.length_map, hlen, hdim], hready, ?_⟩
        rw [List.map_map]
        exact List.map_congr_left fun r _ => Recipe.eval_run ts r v
      rw [List.foldlM_cons, hvalues]
      exact heval v

/-- A regular stage that was built gives values on every input of its length. -/
theorem Built.values_ok {s : Stage Rat} (hb : s.Built) (hr : s.Regular) {x : List Rat}
    (hx : x.length = s.inDim) : ∃ y, s.values x = .ok y ∧ y.length = s.outDim :=
  ⟨s.recipes.map (Recipe.run x), (values_ok_iff hb).2 ⟨hx, hb.ready hr, rfl⟩,
    (List.length_map _).trans s.length_recipes⟩

/-- A chain of regular stages that fit together succeeds on every input of the first one's
    length, and gives as many values as the last one has outputs. -/
theorem foldlM_values_ok {s : Stage Rat} {ss : List (Stage Rat)}
    (hb : ∀ a ∈ s :: ss, a.Built) (hr : ∀ a ∈ s :: ss, a.Regular)
    (hlink : (s :: ss).IsChain fun a b => a.outDim = b.inDim) {x : List Rat}
    (hx : x.length = s.inDim) :
    ∃ y, (s :: ss).foldlM (fun x s => s.values x) x = .ok y ∧
      y.length = (((s :: ss).getLast?).getD s).outDim := by
  obtain ⟨y, hy, hlen⟩ := Relay.of_isChain (R := fun s x y => s.values x = .ok y)
    (fun a ha _ hx => (hb a ha).values_ok (hr a ha) hx) hlink hx
  refine ⟨y, hy.foldlM_ok id, ?_⟩
  rw [hlen, List.getLast?_cons]
  rfl

end Stage

/-! ## Several layers as one -/

namespace AffineLayer

/-- The stages of several layers are those of one after the other. -/
theorem stagesOfAll_eq {K : Type} (ls : List (AffineLayer K)) :
    stagesOfAll ls = (ls.map stages).flatten := by
  induction ls with
  | nil => rfl
  | cons l ls ih => rw [stagesOfAll, ih, List.map_cons, List.flatten_cons]

/-- The last stage is the last of the stages. -/
theorem getLast?_stages {K : Type} (l : AffineLayer K) : l.stages.getLast? = some l.last := by
  unfold last
  rw [List.getLast?_eq_some_getLast l.stages_ne_nil]
  rfl

/-- A layer whose stages were built and take what the one before gives. -/
structure Sound (l : AffineLayer Rat) : Prop where
  built : ∀ s ∈ l.stages, s.Built
  chain : l.stages.IsChain fun a b => a.outDim = b.inDim

/-- Several sound layers that fit together are sound as one. -/
theorem sound_fused {first : AffineLayer Rat} {rest : List (AffineLayer Rat)}
    (hs : ∀ l ∈ first :: rest, l.Sound)
    (hfit : (first :: rest).IsChain fun a b => a.last.outDim = b.head.inDim) :
    (AffineLayer.fused first rest).Sound := by
  have hstages : (AffineLayer.fused first rest).stages =
      ((first :: rest).map stages).flatten := by
    rw [stages, stagesOfAll_eq, List.map_cons, List.flatten_cons]
  constructor
  · rw [hstages]
    intro s hmem
    obtain ⟨ss, hss, hmem⟩ := List.mem_flatten.1 hmem
    obtain ⟨l, hl, rfl⟩ := List.mem_map.1 hss
    exact (hs l hl).built s hmem
  · have hnil : [] ∉ (first :: rest).map stages := by
      intro h
      obtain ⟨l, -, hl⟩ := List.mem_map.1 h
      exact l.stages_ne_nil hl
    rw [hstages, List.isChain_flatten hnil]
    constructor
    · intro ss hss
      obtain ⟨l, hl, rfl⟩ := List.mem_map.1 hss
      exact (hs l hl).chain
    · rw [List.isChain_map]
      refine hfit.imp fun a b hab x hx y hy => ?_
      rw [getLast?_stages, Option.mem_some_iff] at hx
      rw [head?_stages, Option.mem_some_iff] at hy
      rw [← hx, ← hy]
      exact hab

end AffineLayer

/-! ## Layers -/

namespace Layer

/-- A layer that came out of its constructor. -/
inductive Built : Layer Rat → Prop
  | stage {s : Stage Rat} (h : s.Built) : Built (.affine (.stage s))
  | fused {layers : List (Layer Rat)} {l : Layer Rat} (hs : ∀ l ∈ layers, Built l)
      (h : fuse layers = .ok l) : Built l
  | relu {index : Int} {size : Nat} {grid : Option Grid} {l : Relu}
      (h : Relu.make index size grid = .ok l) : Built (.relu l)
  | maxPool {index : Int} {shape : PoolShape} {p : Pooling}
      (h : Pooling.make Rat index shape = .ok p) : Built (.maxPool ⟨p⟩)

/-- A layer all of whose spatial parts have a window side and a stride of at least one and a
    padding that is not negative. -/
def Regular : Layer Rat → Prop
  | .affine l => ∀ s ∈ l.stages, s.Regular
  | .relu _ => True
  | .maxPool l =>
    1 ≤ l.pooling.shape.kernelDim ∧ 1 ≤ l.pooling.shape.stride ∧ 0 ≤ l.pooling.shape.padding

/-- What building guarantees: the affine part, if the layer is affine, is sound. -/
def Sound : Layer Rat → Prop
  | .affine l => l.Sound
  | _ => True

/-- Neighbours, listed as pairs, make a chain. -/
theorem isChain_of_zip {α : Type} {R : α → α → Prop} {a : α} {l : List α}
    (h : ∀ x y, (x, y) ∈ List.zip (a :: l) l → R x y) : (a :: l).IsChain R := by
  induction l generalizing a with
  | nil => exact List.isChain_singleton a
  | cons b l ih =>
    refine List.isChain_cons_cons.2 ⟨h a b (List.mem_cons_self ..), ih fun x y hxy => ?_⟩
    exact h x y (List.mem_cons_of_mem _ hxy)

/-- What was joined: affine layers that fit together. -/
theorem fuse_ok {layers : List (Layer Rat)} {l : Layer Rat} (h : fuse layers = .ok l) :
    ∃ first rest, layers = (first :: rest).map Layer.affine ∧ l = .affine (.fused first rest) ∧
      (first :: rest).IsChain fun a b => a.last.outDim = b.head.inDim := by
  unfold fuse at h
  split at h
  · cases h
  rename_i first rest
  split at h
  · cases h
  rename_i hfind
  split at h
  · cases h
  rename_i hmisfit
  split at h
  rotate_left
  · cases h
  rename_i a ha
  cases h
  have haffine : ∀ l ∈ first :: rest, ∃ b, l = Layer.affine b := by
    intro l hl
    have hnot := List.find?_eq_none.1 hfind l hl
    cases l with
    | affine b => exact ⟨b, rfl⟩
    | relu u => exact absurd rfl hnot
    | maxPool m => exact absurd rfl hnot
  have hrest : ∀ ls : List (Layer Rat), (∀ l ∈ ls, ∃ b, l = Layer.affine b) →
      (ls.filterMap affine?).map Layer.affine = ls := by
    intro ls
    induction ls with
    | nil => intro _; rfl
    | cons l ls ih =>
      intro hl
      obtain ⟨b, rfl⟩ := hl l (List.mem_cons_self ..)
      have hls := ih fun l' h' => hl l' (List.mem_cons_of_mem _ h')
      show Layer.affine b :: (ls.filterMap affine?).map Layer.affine = _
      rw [hls]
  obtain ⟨b, rfl⟩ := haffine first (List.mem_cons_self ..)
  cases ha
  have hall := hrest rest fun l hl => haffine l (List.mem_cons_of_mem _ hl)
  refine ⟨a, rest.filterMap affine?, by rw [List.map_cons, hall], rfl, ?_⟩
  have hfit : (Layer.affine a :: rest).IsChain fun x y => x.outDim = y.inDim := by
    apply isChain_of_zip
    intro x y hxy
    have hnot := List.find?_eq_none.1 hmisfit (x, y) hxy
    exact not_not.1 fun hne => hnot (bne_iff_ne.2 hne)
  rw [← hall, ← List.map_cons, List.isChain_map] at hfit
  exact hfit

theorem Built.sound {l : Layer Rat} (h : l.Built) : l.Sound := by
  induction h with
  | stage h =>
    exact ⟨fun s hs => by rw [List.mem_singleton.1 hs]; exact h, List.isChain_singleton _⟩
  | fused hs h ih =>
    obtain ⟨first, rest, rfl, rfl, hfit⟩ := fuse_ok h
    exact AffineLayer.sound_fused (fun b hb => ih _ (List.mem_map_of_mem hb)) hfit
  | relu h => trivial
  | maxPool h => trivial

/-- **Evaluation does not fail.**  A regular layer that was built gives, on every input of its
    length, as many values as it has outputs. -/
theorem values_ok {l : Layer Rat} (hs : l.Sound) (hr : l.Regular) {x : List Rat}
    (hx : x.length = l.inDim) : ∃ y, l.values x = .ok y ∧ y.length = l.outDim := by
  cases l with
  | affine a =>
    obtain ⟨rest, hrest⟩ := a.stages_eq_cons
    have hs : a.Sound := hs
    have hbuilt := hs.built
    have hchain := hs.chain
    have hlast := a.getLast?_stages
    have hr : ∀ s ∈ a.stages, s.Regular := hr
    rw [hrest] at hbuilt hchain hlast hr
    obtain ⟨y, hy, hlen⟩ := Stage.foldlM_values_ok hbuilt hr hchain hx
    refine ⟨y, ?_, ?_⟩
    · show a.stages.foldlM (fun x s => s.values x) x = _
      rw [hrest, hy]
    · rw [hlen, hlast]
      rfl
  | relu u =>
    exact ⟨_, relu_values_ok_iff.2 ⟨hx, rfl⟩, (List.length_map _).trans hx⟩
  | maxPool m =>
    refine ⟨_, maxPool_values_ok_iff.2 ⟨hx, rfl⟩, ?_⟩
    show (m.values x).length = m.pooling.output.size
    unfold MaxPool.values MaxPool.winners
    rw [List.length_map, List.length_map, Pooling.length_windows]

end Layer

end Perturb
