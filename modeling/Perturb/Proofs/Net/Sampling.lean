/-
  What sampling can change in the replay of a network.

  A replay defers some live constraints by random draws.  The plan of a network says what the replay
  gives and demands without any draw; a replay is the plan, noted (`Net.replay_eq`), and everything
  else is read off the plan.

  1. **Windows** — the cells of a window are in increasing order, so none occurs twice, and a window
     with a recorded winner demands one constraint less than it has cells.

  2. **Sizes** — hence the number of demands is a matter of the layers alone, and the number of live
     ones of the trace (`Layer.plan_counts`, `Net.plan_counts`).

  3. **Success** — along a trace that the network recorded the plan exists: the lengths that a replay
     checks are those that the layers were checked to have when they were put together
     (`Net.plan_succeeds`).

  The theorem is `Net.sampling_moves_live`.  It speaks of any numbers and of any trace; only that
  larger ratios keep more needs comparisons that can be chained.
-/
import Perturb.Proofs.Layer.Sampling
import Perturb.Proofs.Layer.Windows
import Perturb.Proofs.Net.Exactness

namespace Perturb

/-! ## Windows -/

/-- No cell occurs twice in a window. -/
theorem PoolShape.nodup_window (p : PoolShape) (channel r c : Nat) :
    (p.window channel r c).Nodup :=
  (p.sorted_window channel r c).imp Nat.ne_of_lt

theorem Pooling.nodup_windows (p : Pooling) : ∀ w ∈ p.windows, w.Nodup := by
  intro w hw
  obtain ⟨⟨channel, r, c⟩, -, rfl⟩ := List.mem_map.1 hw
  exact p.shape.nodup_window channel r c

/-! ## Sizes -/

section

variable {K : Type} [Scalar K] {n : Nat}

/-- How many constraints a layer demands: one for every unit of a rectifier, and for every window
    one less than it has cells. -/
def Layer.branchings : Layer K → Nat
  | .affine _ => 0
  | .relu u => u.size
  | .maxPool m => (m.pooling.windows.map fun w => w.length - 1).sum

/-- How many units of a layer a trace has recorded as active. -/
def Layer.activeUnits (trace : Trace) : Layer K → Nat
  | .relu u => ((((trace.find? u.index).bind (·.choices)).getD []).take u.size).count .active
  | _ => 0

/-- Units demand one constraint each, a live one if they are active. -/
theorem Relu.planUnit_counts {index : Int} {choices : List Choice} {ts : List (Affine K n)}
    {i : Nat} {parts : List (Affine K n × Demand K n)}
    (h : (ts.zipIdx i).mapM (fun p => Relu.planUnit index choices p.1 p.2) = .ok parts) :
    parts.length = ts.length ∧ ((parts.map (·.2)).filter Demand.live).length =
      ((choices.drop i).take ts.length).count .active := by
  induction ts generalizing i parts with
  | nil =>
    cases h
    exact ⟨rfl, by simp⟩
  | cons t ts ih =>
    rw [List.zipIdx_cons, List.mapM_cons] at h
    obtain ⟨part, hpart, h⟩ := Outcome.bind_ok_iff.1 h
    obtain ⟨rest, hrest, h⟩ := Outcome.bind_ok_iff.1 h
    cases h
    obtain ⟨hlen, hlive⟩ := ih hrest
    refine ⟨congrArg (· + 1) hlen, ?_⟩
    unfold planUnit at hpart
    cases hc : choices[i]? with
    | none =>
      rw [hc] at hpart
      cases hpart
    | some c =>
      obtain ⟨hi, rfl⟩ := List.getElem?_eq_some_iff.1 hc
      rw [List.drop_eq_getElem_cons hi, List.length_cons, List.take_succ_cons, List.count_cons,
        ← hlive, List.map_cons]
      rw [hc] at hpart
      cases hkind : choices[i] with
      | undecided code =>
        rw [hkind] at hpart
        cases hpart
      | active =>
        rw [hkind] at hpart
        cases hpart
        rfl
      | inactive =>
        rw [hkind] at hpart
        cases hpart
        rfl

/-- Windows demand one constraint less than they have cells, and none of them is live. -/
theorem MaxPool.planWindow_counts {index : Int} {selections : List Int} {x : List (Affine K n)}
    {ws : List (List Nat)} (hws : ∀ w ∈ ws, w.Nodup) {o : Nat}
    {parts : List (Affine K n × List (Demand K n))}
    (h : (ws.zipIdx o).mapM (fun p => MaxPool.planWindow index selections x p.1 p.2) = .ok parts) :
    (parts.flatMap (·.2)).length = (ws.map fun w => w.length - 1).sum ∧
      (parts.flatMap (·.2)).filter Demand.live = [] := by
  induction ws generalizing o parts with
  | nil =>
    cases h
    exact ⟨rfl, rfl⟩
  | cons w ws ih =>
    rw [List.zipIdx_cons, List.mapM_cons] at h
    obtain ⟨part, hpart, h⟩ := Outcome.bind_ok_iff.1 h
    obtain ⟨rest, hrest, h⟩ := Outcome.bind_ok_iff.1 h
    cases h
    obtain ⟨hw, hws⟩ := List.forall_mem_cons.1 hws
    obtain ⟨hlen, hlive⟩ := ih hws hrest
    rw [List.flatMap_cons, List.length_append, List.filter_append, hlen, hlive, List.map_cons,
      List.sum_cons, List.append_nil]
    unfold planWindow at hpart
    split at hpart
    · cases hpart
    rename_i sel _
    split at hpart
    · cases hpart
    · rename_i hinside
      cases hpart
      have hmem : sel.toNat ∈ w := by
        rw [Bool.or_eq_true, not_or] at hinside
        simpa using hinside.2
      constructor
      · -- without its winner a window is one shorter, for the winner is there once
        rw [List.length_map, ← hw.erase_eq_filter, List.length_erase_of_mem hmem]
      · rw [List.filter_map]
        exact List.map_eq_nil_iff.2 (List.filter_eq_nil_iff.2 fun i _ => Bool.false_ne_true)

/-- A layer that has a plan demands as many constraints as it has branchings, and as many live ones
    as it has active units. -/
theorem Layer.plan_counts {trace : Trace} {l : Layer K} {x outs : List (Affine K n)}
    {ds : List (Demand K n)} (h : l.plan trace x = .ok (outs, ds)) :
    ds.length = l.branchings ∧ (ds.filter Demand.live).length = l.activeUnits trace := by
  cases l with
  | affine a =>
    obtain ⟨out, -, h⟩ := Outcome.bind_ok_iff.1 h
    cases h
    exact ⟨rfl, rfl⟩
  | relu u =>
    obtain ⟨⟨⟩, hcheck, h⟩ := Outcome.bind_ok_iff.1 h
    obtain ⟨b, hb, h⟩ := Outcome.bind_ok_iff.1 h
    have hlen : x.length = u.size := check_ok_iff.1 hcheck
    have hfind : trace.find? u.index = some b := by
      unfold Trace.get at hb
      split at hb
      · rename_i hfind
        rw [hfind, Except.ok.inj hb]
      · cases hb
    show ds.length = u.size ∧ _ =
      ((((trace.find? u.index).bind (·.choices)).getD []).take u.size).count .active
    rw [hfind]
    cases hc : b.choices with
    | none =>
      rw [hc] at h
      cases h
    | some choices =>
      rw [hc] at h
      obtain ⟨parts, hparts, h⟩ := Outcome.bind_ok_iff.1 h
      cases h
      obtain ⟨hcount, hlive⟩ := Relu.planUnit_counts hparts
      rw [List.length_map, hcount, hlive, hlen]
      simp only [Option.bind_some, hc, Option.getD_some, List.drop_zero, and_self]
  | maxPool m =>
    obtain ⟨⟨⟩, -, h⟩ := Outcome.bind_ok_iff.1 h
    obtain ⟨b, -, h⟩ := Outcome.bind_ok_iff.1 h
    split at h
    · cases h
    · obtain ⟨parts, hparts, h⟩ := Outcome.bind_ok_iff.1 h
      cases h
      obtain ⟨hcount, hlive⟩ := MaxPool.planWindow_counts m.pooling.nodup_windows hparts
      exact ⟨hcount, congrArg List.length hlive⟩

/-! ## Plans of networks -/

/-- What layers give and demand along a trace, one after the other. -/
def Net.planAll (trace : Trace) (x : List (Affine K n)) :
    List (Layer K) → Outcome (List (Affine K n) × List (Demand K n))
  | [] => .ok (x, [])
  | l :: rest => do
    let (y, ds) ← l.plan trace x
    let (z, es) ← planAll trace y rest
    .ok (z, ds ++ es)

/-- What a network gives and demands along a trace. -/
def Net.plan (net : Net K) (trace : Trace) (x : List (Affine K n)) :
    Outcome (List (Affine K n) × List (Demand K n)) := planAll trace x net.layers

/-- Replaying layers is noting their plan. -/
theorem Net.replayLayers_eq {S : Type} [Source S K] (trace : Trace) (ratio : K)
    (x : List (Affine K n)) (r : Replay S K n) (ls : List (Layer K)) :
    Replay.layers trace ratio x r ls =
      (planAll trace x ls).map fun p => (p.1, r.noteAll ratio p.2) := by
  induction ls generalizing x r with
  | nil => rfl
  | cons l ls ih =>
    rw [Replay.layers, planAll, Replay.layer_eq]
    cases l.plan trace x with
    | error e => rfl
    | ok p =>
      obtain ⟨y, ds⟩ := p
      show Replay.layers trace ratio y (r.noteAll ratio ds) ls =
        Except.map _ (planAll trace y ls >>= _)
      rw [ih]
      cases planAll trace y ls with
      | error e => rfl
      | ok q => exact congrArg (fun r => Except.ok (q.1, r)) (Replay.noteAll_append ..).symm

/-- **A replay is its plan, noted.** -/
theorem Net.replay_eq {S : Type} [Source S K] (net : Net K) (trace : Trace) (ratio : K)
    (x : List (Affine K n)) (r : Replay S K n) : net.replay trace ratio x r =
      (net.plan trace x).map fun p => (p.1, r.noteAll ratio p.2) :=
  replayLayers_eq trace ratio x r net.layers

/-- A network that has a plan demands as many constraints as its layers have branchings, and as many
    live ones as they have active units. -/
theorem Net.plan_counts {net : Net K} {trace : Trace} {x outs : List (Affine K n)}
    {ds : List (Demand K n)} (h : net.plan trace x = .ok (outs, ds)) :
    ds.length = (net.layers.map Layer.branchings).sum ∧
      (ds.filter Demand.live).length = (net.layers.map (Layer.activeUnits trace)).sum := by
  unfold plan at h
  generalize net.layers = ls at h
  induction ls generalizing x ds with
  | nil =>
    cases h
    exact ⟨rfl, rfl⟩
  | cons l ls ih =>
    obtain ⟨⟨y, ds₁⟩, hl, h⟩ := Outcome.bind_ok_iff.1 h
    obtain ⟨⟨z, ds₂⟩, hrest, h⟩ := Outcome.bind_ok_iff.1 h
    cases h
    obtain ⟨hcount, hlive⟩ := Layer.plan_counts hl
    obtain ⟨hcounts, hlives⟩ := ih hrest
    rw [List.length_append, List.filter_append, List.length_append, hcount, hlive, hcounts, hlives]
    exact ⟨rfl, rfl⟩

end

/-! ## Success -/

section

variable {K : Type} [Scalar K] {n : Nat}

omit [Scalar K] in
/-- Stages that are linked each take what the one before gives. -/
theorem Stage.isChain_of_linked {ss : List (Stage K)} (h : linked ss = true) :
    ss.IsChain fun a b => a.outDim = b.inDim := by
  induction ss with
  | nil => exact List.isChain_nil
  | cons a rest ih =>
    cases rest with
    | nil => exact List.isChain_singleton a
    | cons b rest =>
      rw [linked, Bool.and_eq_true] at h
      exact List.isChain_cons_cons.2 ⟨beq_iff_eq.1 h.1, ih h.2⟩

/-- Stages that give values one after the other divide by nothing that is zero. -/
theorem Stage.checkDivisors_of_foldlM {ss : List (Stage K)} {x y : List K}
    (h : ss.foldlM (fun x s => s.values x) x = .ok y) : ∀ s ∈ ss, s.checkDivisors = .ok () := by
  induction ss generalizing x with
  | nil => exact List.forall_mem_nil _
  | cons s ss ih =>
    rw [List.foldlM_cons] at h
    obtain ⟨z, hz, h⟩ := Outcome.bind_ok_iff.1 h
    obtain ⟨⟨⟩, hcheck, -⟩ := Outcome.bind_ok_iff.1 hz
    exact List.forall_mem_cons.2 ⟨(check_ok_iff.1 hcheck).2, ih h⟩

/-- A chain of stages that divide by nothing that is zero gives terms, as many as its last stage has
    outputs. -/
theorem Stage.foldlM_terms_ok {s : Stage K} {ss : List (Stage K)}
    (hlink : (s :: ss).IsChain fun a b => a.outDim = b.inDim)
    (hdiv : ∀ a ∈ s :: ss, a.checkDivisors = .ok ()) {ts : List (Affine K n)}
    (hts : ts.length = s.inDim) : ∃ us : List (Affine K n),
      (s :: ss).foldlM (fun x s => s.terms x) ts = .ok us ∧
      us.length = (((s :: ss).getLast?).getD s).outDim := by
  obtain ⟨us, hus, hlen⟩ := Relay.of_isChain (R := fun (s : Stage K) ts us => s.terms ts = .ok us)
    (fun a ha ts hts => ⟨a.recipes.map (Recipe.run ts), terms_ok_iff.2 ⟨hts, hdiv a ha, rfl⟩,
      (List.length_map _).trans a.length_recipes⟩) hlink hts
  refine ⟨us, hus.foldlM_ok id, ?_⟩
  rw [hlen, List.getLast?_cons]
  rfl

/-- The winner of a window is one of its cells. -/
theorem firstLargest_mem (x : List K) (best : Nat) (w : List Nat) :
    firstLargest x best w ∈ best :: w := by
  induction w generalizing best with
  | nil => exact List.mem_singleton_self best
  | cons i w ih =>
    rw [firstLargest]
    rcases List.mem_cons.1 (ih _) with h | h
    · rw [h]
      split
      · exact List.mem_cons_of_mem _ (List.mem_cons_self ..)
      · exact List.mem_cons_self ..
    · exact List.mem_cons_of_mem _ (List.mem_cons_of_mem _ h)

/-- Every unit has a plan along the sides it was recorded on. -/
theorem Relu.planUnit_recorded (index : Int) (x : List K) (t : Affine K n) {i : Nat}
    (hi : i < x.length) : ∃ p, planUnit index (Relu.choices x) t i = .ok p := by
  have hc : (Relu.choices x)[i]? = some (if decide (0 ≤ x[i]) then .active else .inactive) := by
    unfold Relu.choices activity
    rw [List.map_map, List.getElem?_map, List.getElem?_eq_getElem hi]
    rfl
  unfold planUnit
  rw [hc]
  split
  · rename_i hnone
    cases hnone
  · rename_i code hcode
    split at hcode <;> cases hcode
  · exact ⟨_, rfl⟩
  · exact ⟨_, rfl⟩

/-- Every window has a plan along the winner that was recorded. -/
theorem MaxPool.planWindow_recorded (m : MaxPool) (x : List K) (ts : List (Affine K n))
    {w : List Nat} {o : Nat} (hw : m.pooling.windows[o]? = some w) :
    ∃ p, planWindow m.pooling.index ((m.winners x).map Int.ofNat) ts w o = .ok p := by
  have hsel : ((m.winners x).map Int.ofNat)[o]? =
      some (Int.ofNat (firstLargest x (w.headD 0) w.tail)) := by
    unfold winners
    rw [List.map_map, List.getElem?_map, hw]
    rfl
  have hmem : firstLargest x (w.headD 0) w.tail ∈ w := by
    cases hcells : w with
    | nil => exact absurd hcells (m.pooling.filled w (List.mem_of_getElem? hw))
    | cons best cells => exact firstLargest_mem x best cells
  unfold planWindow
  rw [hsel]
  refine ⟨_, if_neg ?_⟩
  simpa using hmem

/-- A layer that gave values, and whose branches were recorded then, has a plan. -/
theorem Layer.plan_succeeds {trace : Trace} {l : Layer K} (hw : l.wired = true) {x y : List K}
    (h : l.values x = .ok y) (hfind : trace.find? l.index = some (l.branches x))
    {ts : List (Affine K n)} (hts : ts.length = l.inDim) :
    ∃ outs ds, l.plan trace ts = .ok (outs, ds) ∧ outs.length = l.outDim := by
  cases l with
  | affine a =>
    obtain ⟨rest, hstages⟩ := a.stages_eq_cons
    have hlink : Stage.linked a.stages = true := hw
    have hvalues : a.stages.foldlM (fun x s => s.values x) x = .ok y := h
    rw [hstages] at hlink hvalues
    obtain ⟨us, hus, hlen⟩ := Stage.foldlM_terms_ok (Stage.isChain_of_linked hlink)
      (Stage.checkDivisors_of_foldlM hvalues) hts
    refine ⟨us, [], ?_, ?_⟩
    · simp only [plan, hstages, hus, Outcome.ok_bind]
    · rw [hlen, ← hstages]
      rfl
  | relu u =>
    obtain ⟨hlen, -⟩ := relu_values_ok_iff.1 h
    have hts : ts.length = u.size := hts
    have hcheck : (Layer.relu u : Layer K).check ts = .ok () := check_ok_iff.2 hts
    have hget : trace.get u.index = .ok ⟨some (Relu.choices x), none⟩ := get_of_find? hfind
    have hunits : ∀ p ∈ ts.zipIdx, ∃ q,
        Relu.planUnit u.index (Relu.choices x) p.1 p.2 = .ok q := by
      intro p hp
      have hlt := List.snd_lt_of_mem_zipIdx hp
      exact Relu.planUnit_recorded u.index x p.1 (by omega)
    obtain ⟨parts, hparts, hcount⟩ := Outcome.mapM_succeeds hunits
    refine ⟨parts.map (·.1), parts.map (·.2), ?_, ?_⟩
    · simp only [plan, hcheck, hget, hparts, Outcome.ok_bind]
    · rw [List.length_map, hcount, List.length_zipIdx]
      exact hts
  | maxPool m =>
    have hcheck : (Layer.maxPool m : Layer K).check ts = .ok () := check_ok_iff.2 hts
    have hget : trace.get m.pooling.index =
        .ok ⟨none, some ((m.winners x).map Int.ofNat)⟩ := get_of_find? hfind
    have hwindows : ∀ p ∈ m.pooling.windows.zipIdx, ∃ q, MaxPool.planWindow m.pooling.index
        ((m.winners x).map Int.ofNat) ts p.1 p.2 = .ok q := fun p hp =>
      MaxPool.planWindow_recorded m x ts (List.mk_mem_zipIdx_iff_getElem?.1 hp)
    obtain ⟨parts, hparts, hcount⟩ := Outcome.mapM_succeeds hwindows
    refine ⟨parts.map (·.1), parts.flatMap (·.2), ?_, ?_⟩
    · simp only [plan, hcheck, hget, hparts, Outcome.ok_bind]
    · rw [List.length_map, hcount, List.length_zipIdx, Pooling.length_windows]
      rfl

/-- Layers that gave values one after the other, and whose branches were recorded then, have a
    plan. -/
theorem Net.planAll_succeeds {l : Layer K} {ls : List (Layer K)} {x ys : List K} {t trace : Trace}
    (h : pass x t (l :: ls) = .ok (ys, trace)) (hidx : ((l :: ls).map Layer.index).Nodup)
    (hw : ∀ a ∈ l :: ls, a.wired = true)
    (hfit : (l :: ls).IsChain fun a b => a.outDim = b.inDim) {ts : List (Affine K n)}
    (hts : ts.length = l.inDim) : ∃ outs ds, planAll trace ts (l :: ls) = .ok (outs, ds) := by
  induction ls generalizing l x t ts with
  | nil =>
    obtain ⟨y, hy, hrest⟩ := Outcome.bind_ok_iff.1 h
    cases hrest
    obtain ⟨us, ds, hplan, -⟩ := Layer.plan_succeeds (hw l (List.mem_cons_self ..)) hy
      (Trace.find?_record_self ..) hts
    exact ⟨us, ds ++ [], by rw [planAll, hplan]; rfl⟩
  | cons b ls ih =>
    obtain ⟨y, hy, hrest⟩ := Outcome.bind_ok_iff.1 h
    rw [List.map_cons, List.nodup_cons] at hidx
    obtain ⟨hl, hw⟩ := List.forall_mem_cons.1 hw
    obtain ⟨hlb, hfit⟩ := List.isChain_cons_cons.1 hfit
    have hfind : trace.find? l.index = some (l.branches x) := by
      rw [find?_of_pass hrest hidx.1, Trace.find?_record_self]
    obtain ⟨us, ds, hplan, hlen⟩ := Layer.plan_succeeds hl hy hfind hts
    obtain ⟨outs, es, hplans⟩ := ih hrest hidx.2 hw hfit (hlen.trans hlb)
    refine ⟨outs, ds ++ es, ?_⟩
    rw [planAll, hplan]
    show (planAll trace us (b :: ls) >>= _) = _
    rw [hplans]
    rfl

/-- **Along its own trace a network has a plan.** -/
theorem Net.plan_succeeds {net : Net K} {x ys : List K} {trace : Trace}
    (h : net.traced x = .ok (ys, trace)) (hidx : (net.layers.map Layer.index).Nodup)
    (hw : ∀ l ∈ net.layers, l.wired = true) {ts : List (Affine K n)}
    (hts : ts.length = net.inDim) : ∃ outs ds, net.plan trace ts = .ok (outs, ds) :=
  planAll_succeeds h hidx hw (isChain_of_misfit? net.fits) hts

end

/-! ## Sampling -/

section

variable {S S' K : Type} [Scalar K] [Source S K] [Source S' K] {n : Nat}

/-- What is left behind of the demands of a plan by a replay with a ratio and a source of draws. -/
structure Replay.Sampled (ratio : K) (draws : S) (ds : List (Demand K n)) (r : Replay S K n) :
    Prop where
  /-- Every demand is left behind once, live or deferred. -/
  all : (r.current ++ r.deferred).Perm (ds.map Demand.constraint)
  /-- What stays live comes from active units, in order. -/
  current : r.current.Sublist (Demand.liveOf ds)
  /-- What inactive units and windows demand is deferred, in order. -/
  deferred : (Demand.fixedOf ds).Sublist r.deferred
  /-- A ratio of one or more defers no live demand and draws nothing. -/
  whole : 1 ≤ ratio → r.current = Demand.liveOf ds ∧ r.draws = draws
  /-- A ratio below one draws once for every live demand. -/
  drawn : ratio < 1 → r.draws = Source.after draws (ds.filter Demand.live).length
  /-- A ratio of zero or less keeps nothing live. -/
  nothing : ratio ≤ 0 → Source.InUnit draws → r.current = []

variable [Scalar.Comparable K]

theorem Replay.sampled_noteAll (ratio : K) (draws : S) (ds : List (Demand K n)) :
    Sampled ratio draws ds ((Replay.start draws).noteAll ratio ds) where
  all := all_noteAll ratio (Replay.start draws) ds
  current := current_sublist ratio (Replay.start draws) ds
  deferred := fixed_sublist ratio (Replay.start draws) ds
  whole h := noteAll_of_one_le h (Replay.start draws) ds
  drawn h := draws_noteAll (Scalar.Comparable.not_le h) (Replay.start draws) ds
  nothing h hunit := current_of_le_zero h (r := Replay.start draws) hunit ds

/-- **Sampling only moves live constraints.**  Take any network, any trace and any terms.

    If the network recorded the trace, its layers are wired, no two of one index, and there are as
    many terms as it has inputs, then it has a plan.  Without a plan every replay fails, with the
    fault of the plan.  With a plan, the number of its demands is the number of units of rectifiers
    plus, over all windows, the number of cells but one; as many of them are live as the trace has
    active units.  Every replay then gives the terms of the plan and leaves behind its demands,
    those of inactive units and windows deferred; ratio and draws decide about live ones only.

    Of two replays whose sources draw the same numbers, the one with the larger ratio keeps every
    constraint live that the other one keeps. -/
theorem Net.sampling_moves_live (net : Net K) (trace : Trace) (ts : List (Affine K n)) :
    (∀ {x ys : List K}, net.traced x = .ok (ys, trace) → (net.layers.map Layer.index).Nodup →
      (∀ l ∈ net.layers, l.wired = true) → ts.length = net.inDim →
        ∃ outs ds, net.plan trace ts = .ok (outs, ds)) ∧
    (∀ {e : Fault}, net.plan trace ts = .error e → ∀ (ratio : K) (draws : S),
      net.replay trace ratio ts (Replay.start draws) = .error e) ∧
    ∀ {outs : List (Affine K n)} {ds : List (Demand K n)}, net.plan trace ts = .ok (outs, ds) →
      ds.length = (net.layers.map Layer.branchings).sum ∧
      (ds.filter Demand.live).length = (net.layers.map (Layer.activeUnits trace)).sum ∧
      ∀ (ratio ratio' : K) (draws : S) (draws' : S'), ∃ (r : Replay S K n) (r' : Replay S' K n),
        net.replay trace ratio ts (Replay.start draws) = .ok (outs, r) ∧
        net.replay trace ratio' ts (Replay.start draws') = .ok (outs, r') ∧
        Replay.Sampled ratio draws ds r ∧ Replay.Sampled ratio' draws' ds r' ∧
        (Source.Agree draws draws' → ratio ≤ ratio' → r.current.Sublist r'.current) := by
  refine ⟨fun h hidx hw hts => plan_succeeds h hidx hw hts, fun h ratio draws => ?_,
    fun {outs ds} h => ?_⟩
  · rw [replay_eq, h]
    rfl
  obtain ⟨hcount, hlive⟩ := plan_counts h
  refine ⟨hcount, hlive, fun ratio ratio' draws draws' =>
    ⟨(Replay.start draws).noteAll ratio ds, (Replay.start draws').noteAll ratio' ds, ?_, ?_,
      Replay.sampled_noteAll ratio draws ds, Replay.sampled_noteAll ratio' draws' ds,
      fun hagree hle => ?_⟩⟩
  · rw [replay_eq, h]
    rfl
  · rw [replay_eq, h]
    rfl
  · have hstart : (Replay.start draws : Replay S K n).current.Sublist
        (Replay.start draws' : Replay S' K n).current := List.Sublist.refl _
    exact Replay.current_mono hle hstart hagree ds

/-! ### A network to look at -/

namespace Quad

/-- Four units. -/
def units : Relu := ⟨0, 4, none, by decide⟩

/-- The square of two by two cells as one window. -/
def pool : MaxPool where
  pooling :=
    { index := 1
      shape := ⟨⟨1, 2, 2, Nat.one_pos, Nat.two_pos, Nat.two_pos⟩, 2, 1, 0, false⟩
      output := ⟨1, 1, 1, Nat.one_pos, Nat.one_pos, Nat.one_pos⟩
      channels_eq := rfl
      filled := by decide }

/-- The network whose output is the largest of four numbers, or zero. -/
def net : Net Rat where
  first := .relu units
  rest := [.maxPool pool]
  crop := none
  fits := rfl
  crop_fits := by decide

/-- Units 0, 2 and 3 are active, and the first cell wins. -/
def trace : Trace :=
  ⟨[(0, ⟨some [.active, .inactive, .active, .active], none⟩), (1, ⟨none, some [0]⟩)]⟩

/-- The four inputs as terms. -/
def inputs : List (Affine Rat 4) := (List.range 4).map Affine.var

/-- Draws that go back and forth. -/
def draws : Cyclic Rat := .of [1 / 4, 3 / 4] []

end Quad

/-- Four units and a window of four cells demand seven constraints, of which three are live at the
    input (3, -1, 2, 0).  With the ratio one half three draws are made; with the ratio one none is,
    and every live constraint is kept. -/
theorem Net.sampling_moves_live_quad :
    Quad.net.traced [3, -1, 2, 0] = .ok ([3], Quad.trace) ∧
    ∃ (outs : List (Affine Rat 4)) (ds : List (Demand Rat 4)) (r r' : Replay (Cyclic Rat) Rat 4),
      Quad.net.plan Quad.trace Quad.inputs = .ok (outs, ds) ∧ ds.length = 7 ∧
      Quad.net.replay Quad.trace (1 / 2) Quad.inputs (Replay.start Quad.draws) = .ok (outs, r) ∧
      Quad.net.replay Quad.trace 1 Quad.inputs (Replay.start Quad.draws) = .ok (outs, r') ∧
      r.current.Sublist r'.current ∧ r.draws.unitsTaken = 3 ∧
      r'.current = Demand.liveOf ds ∧ r'.draws.unitsTaken = 0 := by
  have htraced : Quad.net.traced [3, -1, 2, 0] = .ok ([3], Quad.trace) := by decide +kernel
  obtain ⟨hplan, -, hruns⟩ :=
    @sampling_moves_live (Cyclic Rat) (Cyclic Rat) Rat _ _ _ 4 _ Quad.net Quad.trace Quad.inputs
  obtain ⟨outs, ds, hplan⟩ := hplan htraced (by decide) (by decide) rfl
  obtain ⟨hcount, hlive, hruns⟩ := hruns hplan
  obtain ⟨r, r', hr, hr', hs, hs', hmono⟩ := hruns (1 / 2) 1 Quad.draws Quad.draws
  have hcount : ds.length = 7 := hcount.trans (by decide)
  have hlive : (ds.filter Demand.live).length = 3 := hlive.trans (by decide)
  obtain ⟨hwhole, hnone⟩ := hs'.whole (by decide)
  refine ⟨htraced, outs, ds, r, r', hplan, hcount, hr, hr', hmono (fun _ => rfl) (by decide +kernel),
    ?_, hwhole, by rw [hnone]; rfl⟩
  rw [hs.drawn (by decide +kernel), hlive]
  rfl

end

end Perturb
