/-
  The replay of a network along its own trace.

  1. **Recording** — if no index occurs twice, a pass leaves behind the branches of every layer at
     the input that layer was given (`Recorded`, `pass_recorded`): nothing that is recorded is
     overwritten later.

  2. **Following** — `Follows` asks of an input that every layer, at what the layers before it give
     there, makes the recorded choices.  The recorded input is followed (`Recorded.follows`).

  3. **The crux (`layers_replays`)** — one induction over the layers.  A layer's terms stand for its
     values only where its own constraints hold, so what the next layer demands of terms is a
     demand on values exactly there; `Stands.trans` is this step.

  The theorem about a whole network is `replay_exact`; it speaks of every point of every space
  whose first variables are the inputs.
-/
import Perturb.Proofs.Layer.Replay
import Perturb.Net.Basic

namespace Perturb

/-! ## Recording -/

namespace Trace

/-- What was recorded last under an index is found there. -/
theorem find?_record_self (t : Trace) (i : Int) (b : Branches) :
    (t.record i b).find? i = some b := by
  show (put i b t.entries).lookup i = some b
  generalize t.entries = entries
  induction entries with
  | nil => simp [put]
  | cons e rest ih =>
    obtain ⟨j, old⟩ := e
    by_cases h : j = i
    · simp [put, h]
    · have hji : (i == j) = false := beq_eq_false_iff_ne.2 (Ne.symm h)
      simp [put, h, List.lookup_cons, hji, ih]

/-- Recording under one index changes nothing under another. -/
theorem find?_record_ne (t : Trace) {i j : Int} (h : j ≠ i) (b : Branches) :
    (t.record j b).find? i = t.find? i := by
  show (put j b t.entries).lookup i = t.entries.lookup i
  generalize t.entries = entries
  induction entries with
  | nil =>
    have hij : (i == j) = false := beq_eq_false_iff_ne.2 (Ne.symm h)
    simp [put, List.lookup_cons, hij]
  | cons e rest ih =>
    obtain ⟨k, old⟩ := e
    by_cases hk : k = j
    · subst hk
      have hik : (i == k) = false := beq_eq_false_iff_ne.2 (Ne.symm h)
      simp [put, List.lookup_cons, hik]
    · simp [put, hk, List.lookup_cons, ih]

end Trace

namespace Net

/-- The outputs of several layers, one after the other. -/
def through (layers : List (Layer Rat)) (x : List Rat) : Outcome (List Rat) :=
  layers.foldlM (fun x l => l.values x) x

theorem through_cons (l : Layer Rat) (layers : List (Layer Rat)) (x : List Rat) :
    through (l :: layers) x = l.values x >>= through layers := by
  unfold through
  rw [List.foldlM_cons]

theorem through_cons_ok_iff {l : Layer Rat} {layers : List (Layer Rat)} {x ys : List Rat} :
    through (l :: layers) x = .ok ys ↔ ∃ y, l.values x = .ok y ∧ through layers y = .ok ys := by
  rw [through_cons, Outcome.bind_ok_iff]

/-- A trace holds the branches that layers take on the way of an input. -/
def Recorded (trace : Trace) (x : List Rat) : List (Layer Rat) → Prop
  | [] => True
  | l :: rest => trace.find? l.index = some (l.branches x) ∧
      ∃ y, l.values x = .ok y ∧ Recorded trace y rest

/-- On the way of an input, layers make the choices a trace has recorded. -/
def Follows (trace : Trace) (x : List Rat) : List (Layer Rat) → Prop
  | [] => True
  | l :: rest => l.Follows trace x ∧ ∃ y, l.values x = .ok y ∧ Follows trace y rest

/-- A pass touches only the entries of its layers. -/
theorem find?_of_pass {K : Type} [Scalar K] {x ys : List K} {t trace : Trace}
    {layers : List (Layer K)} (h : pass x t layers = .ok (ys, trace)) {i : Int}
    (hi : i ∉ layers.map Layer.index) : trace.find? i = t.find? i := by
  induction layers generalizing x t with
  | nil =>
    cases h
    rfl
  | cons l rest ih =>
    rw [pass] at h
    obtain ⟨y, -, hrest⟩ := Outcome.bind_ok_iff.1 h
    rw [List.map_cons, List.mem_cons, not_or] at hi
    rw [ih hrest hi.2, Trace.find?_record_ne t (Ne.symm hi.1)]

/-- A pass gives the outputs, and touches only the entries of its layers. -/
theorem pass_ok {x ys : List Rat} {t trace : Trace} {layers : List (Layer Rat)}
    (h : pass x t layers = .ok (ys, trace)) :
    through layers x = .ok ys ∧
      ∀ i, i ∉ layers.map Layer.index → trace.find? i = t.find? i :=
  ⟨foldlM_of_pass h, fun _ hi => find?_of_pass h hi⟩

/-- If no index occurs twice, a pass records the branches of every layer. -/
theorem pass_recorded {x ys : List Rat} {t trace : Trace} {layers : List (Layer Rat)}
    (hidx : (layers.map Layer.index).Nodup) (h : pass x t layers = .ok (ys, trace)) :
    Recorded trace x layers := by
  induction layers generalizing x t with
  | nil => trivial
  | cons l rest ih =>
    rw [pass] at h
    obtain ⟨y, hy, hrest⟩ := Outcome.bind_ok_iff.1 h
    rw [List.map_cons, List.nodup_cons] at hidx
    refine ⟨?_, y, hy, ih hidx.2 hrest⟩
    rw [(pass_ok hrest).2 l.index hidx.1, Trace.find?_record_self]

/-- A pass succeeds where the layers do. -/
theorem pass_of_through {x ys : List Rat} (t : Trace) {layers : List (Layer Rat)}
    (h : through layers x = .ok ys) : ∃ trace, pass x t layers = .ok (ys, trace) := by
  have hmap : (pass x t layers).map Prod.fst = .ok ys := (map_fst_pass x t layers).trans h
  obtain ⟨⟨zs, trace⟩, hpass, rfl⟩ := Outcome.map_ok_iff.1 hmap
  exact ⟨trace, hpass⟩

/-! ## Following -/

/-- A layer makes the choices that were recorded of it at the same input. -/
theorem layer_follows_recorded {trace : Trace} {l : Layer Rat} {x : List Rat}
    (h : trace.find? l.index = some (l.branches x)) : l.Follows trace x := by
  cases l with
  | affine a => trivial
  | relu u => exact ⟨_, h, rfl⟩
  | maxPool m =>
    refine ⟨_, _, h, rfl, Layer.forall₂_attains_ofNat.2 ?_⟩
    unfold MaxPool.winners
    rw [List.forall₂_map_right_iff]
    exact List.forall₂_same.2 fun w hw => MaxPool.winner_attains x (m.pooling.filled w hw)

/-- The recorded input is followed. -/
theorem Recorded.follows {trace : Trace} {x : List Rat} {layers : List (Layer Rat)}
    (h : Recorded trace x layers) : Follows trace x layers := by
  induction layers generalizing x with
  | nil => trivial
  | cons l rest ih =>
    obtain ⟨hfind, y, hy, hrest⟩ := h
    exact ⟨layer_follows_recorded hfind, y, hy, ih hrest⟩

/-! ## Replaying -/

/-- **Replaying layers.**  Along the branches layers took at an input, their replay succeeds on any
    terms of that length, leaves behind constraints that hold exactly where the trace is followed,
    and gives terms that stand for their outputs. -/
theorem layers_replays {n : Nat} {trace : Trace} {layers : List (Layer Rat)}
    (hs : ∀ l ∈ layers, l.Sound) {x₀ ys : List Rat} (hrec : Recorded trace x₀ layers)
    (hval : through layers x₀ = .ok ys) {ts : List (Affine Rat n)}
    (hlen : ts.length = x₀.length) :
    ∃ cs, Replays (fun x => Follows trace x layers) (through layers)
      (fun ratio ts r => Replay.layers trace ratio ts r layers) ts ys.length cs := by
  induction layers generalizing x₀ ts with
  | nil =>
    cases hval
    refine ⟨[], ts, hlen, ⟨List.forall_mem_nil _,
      fun v => ⟨fun _ => trivial, fun _ => List.forall_mem_nil _⟩, fun v _ => rfl⟩,
      fun {S} _ ratio r => ⟨r, rfl, ?_⟩⟩
    rw [List.append_nil]
  | cons l rest ih =>
    obtain ⟨hfind, y, hy, hrec⟩ := hrec
    obtain ⟨y', hy', hrest⟩ := through_cons_ok_iff.1 hval
    cases hy.symm.trans hy'
    obtain ⟨us, hus, hstands, hrun⟩ := Layer.replays (hs l (List.mem_cons_self ..)) hy hfind hlen
    obtain ⟨cs, ws, hws, hstands', hrun'⟩ :=
      ih (fun l' h => hs l' (List.mem_cons_of_mem l h)) hrec hrest hus
    refine ⟨l.demands x₀ ts ++ cs, ws, hws, ?_, fun {S} _ ratio r => ?_⟩
    · have hboth := hstands.trans hstands'
      refine ⟨hboth.fresh, hboth.follows, fun v h => ?_⟩
      rw [through_cons]
      exact hboth.values v h
    · obtain ⟨r₁, hok₁, hperm₁⟩ := hrun ratio r
      obtain ⟨r₂, hok₂, hperm₂⟩ := hrun' ratio r₁
      refine ⟨r₂, ?_, Replay.perm_append_step hperm₁ hperm₂⟩
      have hok₁ : Replay.layer trace ratio l ts r = .ok (us, r₁) := hok₁
      show (Replay.layer trace ratio l ts r >>= fun (us, r) =>
        Replay.layers trace ratio us r rest) = _
      rw [hok₁]
      exact hok₂

/-! ## Networks -/

/-- The first variables take the first values of a point. -/
theorem map_eval_vars {n k : Nat} (h : k ≤ n) (v : Vector Rat n) :
    ((List.range k).map (Affine.var : Nat → Affine Rat n)).map (fun t => t.eval v) =
      v.toList.take k := by
  apply List.ext_getElem
  · simp [h]
  · intro i h₁ h₂
    have hi : i < n := by
      simp only [List.length_map, List.length_range] at h₁
      omega
    simp [Affine.eval_var v hi]

/-- Layers of which none misfits the next fit together. -/
theorem isChain_of_misfit? {K : Type} [Scalar K] {layers : List (Layer K)}
    (h : Layer.misfit? layers = none) :
    layers.IsChain fun a b => a.outDim = b.inDim := by
  induction layers with
  | nil => exact List.isChain_nil
  | cons a rest ih =>
    cases rest with
    | nil => exact List.isChain_singleton a
    | cons b rest =>
      rw [Layer.misfit?] at h
      split at h
      · rename_i hfit
        exact List.isChain_cons_cons.2 ⟨hfit, ih h⟩
      · cases h

/-- Regular layers that fit together succeed on every input of the first one's length. -/
theorem through_ok {l : Layer Rat} {layers : List (Layer Rat)} (hs : ∀ a ∈ l :: layers, a.Sound)
    (hr : ∀ a ∈ l :: layers, a.Regular)
    (hfit : (l :: layers).IsChain fun a b => a.outDim = b.inDim) {x : List Rat}
    (hx : x.length = l.inDim) : ∃ ys, through (l :: layers) x = .ok ys := by
  obtain ⟨ys, hys, -⟩ := Relay.of_isChain (R := fun l x y => l.values x = .ok y)
    (fun a ha _ hx => Layer.values_ok (hs a ha) (hr a ha) hx) hfit hx
  exact ⟨ys, hys.foldlM_ok id⟩

/-- What replaying a network along its trace at an input amounts to: constraints that hold exactly
    where the trace is followed, and terms that stand for the outputs. -/
theorem replays {net : Net Rat} (hs : ∀ l ∈ net.layers, l.Sound)
    (hidx : (net.layers.map Layer.index).Nodup) {x₀ ys : List Rat} {trace : Trace}
    (hx : x₀.length = net.inDim) (h : net.traced x₀ = .ok (ys, trace)) {n : Nat}
    (hn : net.inDim ≤ n) :
    ∃ (outs : List (Affine Rat n)) (cs : List (Constraint Rat n)), outs.length = ys.length ∧
      (∀ c ∈ cs, c.Fresh) ∧
      (∀ v, (∀ c ∈ cs, c.Holds v) ↔ Follows trace (v.toList.take net.inDim) net.layers) ∧
      (∀ v, (∀ c ∈ cs, c.weakened.Holds v) →
        net.values (v.toList.take net.inDim) = .ok (outs.map fun t => t.eval v)) ∧
      ∀ {S : Type} [Source S Rat] (ratio : Rat) (draws : S), ∃ r : Replay S Rat n,
        net.replay trace ratio ((List.range net.inDim).map Affine.var) (Replay.start draws) =
          .ok (outs, r) ∧ (r.current ++ r.deferred).Perm cs := by
  have hlen : ((List.range net.inDim).map (Affine.var : Nat → Affine Rat n)).length =
      x₀.length := by
    rw [List.length_map, List.length_range, hx]
  obtain ⟨cs, outs, hlast, hstands, hrun⟩ :=
    layers_replays hs (pass_recorded hidx h) (pass_ok h).1 hlen
  refine ⟨outs, cs, hlast, hstands.fresh, fun v => ?_, fun v hv => ?_,
    fun {S} _ ratio draws => ?_⟩
  · rw [hstands.follows v, map_eval_vars hn]
  · have hvalues := hstands.values v hv
    rw [map_eval_vars hn] at hvalues
    exact hvalues
  · obtain ⟨r, hok, hperm⟩ := hrun ratio (Replay.start draws)
    exact ⟨r, hok, hperm⟩

/-- **The replay is exact.**  A network of layers that were built and are regular, no two of one
    index, is recorded at any input.  Its replay along that trace succeeds whatever is drawn.  A
    point satisfies everything the replay leaves behind exactly if the network makes the recorded
    choices at the pixels of the point; if the point satisfies it all with equality allowed, the
    terms that come out have the values of the network's outputs there.  At the recorded input both
    is the case. -/
theorem replay_exact (net : Net Rat) (hb : ∀ l ∈ net.layers, l.Built)
    (hr : ∀ l ∈ net.layers, l.Regular) (hidx : (net.layers.map Layer.index).Nodup)
    (x₀ : List Rat) (hx : x₀.length = net.inDim) :
    ∃ ys trace, net.traced x₀ = .ok (ys, trace) ∧
      ∀ {S : Type} [Source S Rat] (draws : S) (ratio : Rat) {n : Nat}, net.inDim ≤ n →
        ∃ (outs : List (Affine Rat n)) (r : Replay S Rat n),
          net.replay trace ratio ((List.range net.inDim).map Affine.var) (Replay.start draws) =
            .ok (outs, r) ∧
          ∀ v : Vector Rat n,
            ((∀ c ∈ r.current ++ r.deferred, c.Holds v) ↔
              Follows trace (v.toList.take net.inDim) net.layers) ∧
            ((∀ c ∈ r.current ++ r.deferred, c.weakened.Holds v) →
              net.values (v.toList.take net.inDim) = .ok (outs.map fun t => t.eval v)) ∧
            (v.toList.take net.inDim = x₀ →
              (∀ c ∈ r.current ++ r.deferred, c.Holds v) ∧ outs.map (fun t => t.eval v) = ys) := by
  have hs : ∀ l ∈ net.layers, l.Sound := fun l hl => (hb l hl).sound
  obtain ⟨ys, hys⟩ := through_ok hs hr (isChain_of_misfit? net.fits) hx
  obtain ⟨trace, htrace⟩ := pass_of_through .empty hys
  refine ⟨ys, trace, htrace, fun {S} _ draws ratio {n} hn => ?_⟩
  obtain ⟨outs, cs, -, -, hfollows, hvalues, hrun⟩ := replays hs hidx hx htrace hn
  obtain ⟨r, hok, hperm⟩ := hrun ratio draws
  have hholds : ∀ P : Constraint Rat n → Prop,
      (∀ c ∈ r.current ++ r.deferred, P c) ↔ ∀ c ∈ cs, P c := by
    intro P
    exact forall_congr' fun c => by rw [hperm.mem_iff]
  refine ⟨outs, r, hok, fun v => ?_⟩
  rw [hholds fun c => c.Holds v, hholds fun c => c.weakened.Holds v, hfollows v]
  refine ⟨Iff.rfl, hvalues v, fun hp => ?_⟩
  have hfollow : Follows trace (v.toList.take net.inDim) net.layers := by
    rw [hp]
    exact (pass_recorded hidx htrace).follows
  have houts := hvalues v fun c hc => ((hfollows v).2 hfollow c hc).weakened
  rw [hp] at houts
  cases hys.symm.trans houts
  exact ⟨hfollow, rfl⟩

/-! ### A network to look at -/

namespace Ramp

/-- `x + 1`. -/
def shift : DenseLayer Rat := .flat 0 1 [[1]] [1] rfl (by decide)

/-- One unit. -/
def unit : Relu := .flat 1 1

/-- The value itself, and the constant one. -/
def head : DenseLayer Rat := .flat 2 1 [[1], [0]] [0, 1] rfl (by decide)

/-- The network with the outputs `max (x + 1) 0` and `1`. -/
def net : Net Rat where
  first := .affine (.stage (.dense shift))
  rest := [.relu unit, .affine (.stage (.dense head))]
  crop := none
  fits := rfl
  crop_fits := by decide

theorem built : ∀ l ∈ net.layers, l.Built := by
  have hshift : DenseLayer.make 0 ⟨[1, 1], [1]⟩ [1] none = .ok shift := rfl
  have hunit : Relu.make 1 1 none = .ok unit := rfl
  have hhead : DenseLayer.make 2 ⟨[2, 1], [1, 0]⟩ [0, 1] none = .ok head := rfl
  intro l hl
  simp only [layers, net, List.mem_cons, List.not_mem_nil, or_false] at hl
  rcases hl with rfl | rfl | rfl
  · exact .stage (.dense hshift)
  · exact .relu hunit
  · exact .stage (.dense hhead)

theorem regular : ∀ l ∈ net.layers, l.Regular := by
  intro l hl
  simp only [layers, net, List.mem_cons, List.not_mem_nil, or_false] at hl
  rcases hl with rfl | rfl | rfl
  · intro s hs
    rw [List.mem_singleton.1 hs]
    trivial
  · trivial
  · intro s hs
    rw [List.mem_singleton.1 hs]
    trivial

theorem indices_nodup : (net.layers.map Layer.index).Nodup := by decide

end Ramp

/-- At the input one the ramp gives two and one, and so do the replayed terms. -/
theorem replay_exact_ramp :
    ∃ (trace : Trace) (outs : List (Affine Rat 1)) (r : Replay (Cyclic Rat) Rat 1),
      Ramp.net.traced [1] = .ok ([2, 1], trace) ∧
      Ramp.net.replay trace 1 ((List.range 1).map Affine.var) (Replay.start (.of [] [])) =
        .ok (outs, r) ∧
      (∀ c ∈ r.current ++ r.deferred, c.Holds #v[1]) ∧
      outs.map (fun t => t.eval #v[1]) = [2, 1] := by
  obtain ⟨ys, trace, htrace, hreplay⟩ :=
    replay_exact Ramp.net Ramp.built Ramp.regular Ramp.indices_nodup [1] rfl
  obtain ⟨outs, r, hok, hpoint⟩ := hreplay (Cyclic.of ([] : List Rat) []) 1 (n := 1) (by decide)
  have hys : ys = [2, 1] := by
    have hvalues : through Ramp.net.layers [1] = .ok [2, 1] := by decide +kernel
    cases (pass_ok htrace).1.symm.trans hvalues
    rfl
  obtain ⟨hholds, houts⟩ := (hpoint #v[1]).2.2 rfl
  exact ⟨trace, outs, r, hys ▸ htrace, hok, hholds, houts.trans hys⟩

end Net

end Perturb
