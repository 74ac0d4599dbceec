/-
  How an attempt goes.

  1. **Opening** — a session that was opened has the declared variables, and its ledger is the
     enumeration of the current constraints (`openSession_ledger`); with an engine that refuses
     nothing it can be opened (`openSession_succeeds`).

  2. **The parts of an attempt** — an attempt that gives a result either skipped its input or went
     through building, opening and the loop, each of which succeeded (`run_ok`).  `Course` names
     what they gave, and its loop starts in a state that is tracked (`Course.tracks`).

  3. **The layout** — the problem of an attempt at a recorded input is laid out as one expects
     (`Recorded.layout`), and its loop starts in a state that is tracked, with the current
     constraints live and what the replay deferred waiting (`Layout.tracks`); so all that was proved
     of loops holds of it.
-/
import Mathlib
import Perturb.Proofs.Net.Exactness
import Perturb.Proofs.Synthesis.Launch
import Perturb.Proofs.Synthesis.Loop

namespace Perturb

namespace Attempt

section

variable [Transcendental] {E : Type} [Engine E Rat] {n : Nat}

/-! ## Opening -/

/-- What stays fixed in the session of a problem. -/
def fixed (settings : Settings Rat) (origin : List Rat) (p : Problem Rat n) :
    Session.Ground Rat n where
  dim := origin.length
  vars := (Program.begun n (clippedBounds origin settings.epsilon settings.minValue
    settings.maxValue) settings.minValue settings.maxValue settings.integrality).vars
  pool := p.pool

omit [Transcendental] in
@[simp] theorem length_vars_fixed (settings : Settings Rat) (origin : List Rat)
    (p : Problem Rat n) : (fixed settings origin p).vars.length = n := by
  show ((List.range n).map _).length = n
  rw [List.length_map, List.length_range]

omit [Transcendental] in
/-- The numbers in the current set stand for the current constraints. -/
theorem forall_current_iff {settings : Settings Rat} {origin : List Rat} {p : Problem Rat n}
    (hlt : ∀ i ∈ p.current, i < p.pool.length) (P : Constraint Rat n → Prop) :
    (∀ i ∈ p.current, P ((fixed settings origin p).constraint i)) ↔
      ∀ c, p.IsCurrent c → P c := by
  have hconstraint : ∀ {i : Nat} {c : Constraint Rat n}, p.pool[i]? = some c →
      (fixed settings origin p).constraint i = c := fun hi =>
    Session.Ground.constraint_of_getElem? hi
  constructor
  · rintro hall c ⟨i, hi, hnumber⟩
    have hc := hall i hi
    rwa [hconstraint hnumber] at hc
  · intro hall i hi
    have hnumber := List.getElem?_eq_getElem (hlt i hi)
    rw [hconstraint hnumber]
    exact hall _ ⟨i, hi, hnumber⟩

/-- A session that was opened has the declared variables, and its ledger is the enumeration of the
    current constraints. -/
theorem openSession_ledger {settings : Settings Rat} {origin : List Rat} {p : Problem Rat n}
    {engine : E} {s : Session E Rat n} (hfresh : ∀ c ∈ p.pool, c.Fresh)
    (hcur : ∀ i ∈ p.current, i < p.pool.length) (hnodup : p.current.Nodup)
    (h : openSession settings origin p (Session.fresh engine origin.length p.pool) = .ok () s) :
    Session.Ledger (fixed settings origin p) p.current s := by
  obtain ⟨s₁, hbegin, hall⟩ := openSession_ok hcur hnodup h
  exact hall _ rfl (Session.ledger_of_begin rfl (fun c hc => (hfresh c hc).1) hbegin)

/-- An engine that refuses nothing lets a session be opened. -/
theorem openSession_succeeds (ha : Engine.Accepts E) (settings : Settings Rat) (origin : List Rat)
    {p : Problem Rat n} (engine : E) (hfresh : ∀ c ∈ p.pool, c.Fresh)
    (hcur : ∀ i ∈ p.current, i < p.pool.length) :
    ∃ s, openSession settings origin p (Session.fresh engine origin.length p.pool) = .ok () s := by
  obtain ⟨s₁, hbegin⟩ := Session.begin_of_accepts ha origin settings.epsilon settings.minValue
    settings.maxValue settings.integrality (Session.fresh engine origin.length p.pool)
  have h₁ : Session.Ledger (fixed settings origin p) [] s₁ :=
    Session.ledger_of_begin rfl (fun c hc => (hfresh c hc).1) hbegin
  obtain ⟨count, s₂, hall⟩ := h₁.exportAll_of_accepts ha hfresh hcur
  unfold openSession
  rw [Step.bind_ok hbegin, Step.bind_ok hall]
  cases p.objective with
  | none => exact ⟨s₂, rfl⟩
  | some o => exact Session.setObjective_of_accepts ha o s₂

/-! ## The parts of an attempt -/

variable {S F : Type} [Source S Rat]

/-- The problem of an attempt at a labelled input, and the session it was opened with. -/
structure Course (net : Net Rat) (settings : Settings Rat) (lab : Labelled Rat) (trace : Trace)
    (draws : S) (origin : List Rat) (p : Problem Rat (net.inDim + 1))
    (s : Session E Rat (net.inDim + 1)) : Prop where
  cropped : net.cropped lab.datum = .ok origin
  built : Problem.build net settings origin trace (Int.ofNat lab.label) (Int.ofNat lab.second)
    draws = .ok p
  opened : ∃ engine, openSession settings origin p (Session.fresh engine origin.length p.pool) =
    .ok () s

/-- Its loop starts in a state that is tracked. -/
theorem Course.tracks {net : Net Rat} {settings : Settings Rat} {lab : Labelled Rat}
    {trace : Trace} {draws : S} {origin : List Rat} {p : Problem Rat (net.inDim + 1)}
    {s : Session E Rat (net.inDim + 1)} (h : Course net settings lab trace draws origin p s) :
    Refinement.Tracks (fixed settings origin p) p.current p.deferred p.current
      (Refinement.start s p.sets) := by
  have hlaunch : Launch net settings origin trace (Int.ofNat lab.label) (Int.ofNat lab.second)
      draws p s := ⟨h.built, h.opened⟩
  obtain ⟨engine, hopen⟩ := h.opened
  have hledger := openSession_ledger hlaunch.fresh (fun _ hi => hlaunch.arranged.current_lt hi)
    hlaunch.arranged.nodup_current hopen
  exact tracks_start hlaunch.arranged rfl hledger

/-- What the loop of an attempt looks for. -/
def quest (net : Net Rat) (settings : Settings Rat) (lab : Labelled Rat) (trueLabel : Int) :
    Quest Rat := ⟨net, settings, Int.ofNat lab.second, trueLabel⟩

/-- **The parts of an attempt.**  An attempt that gives a result skipped its input, or went through
    its course and its loop. -/
theorem run_ok {net : Net Rat} {settings : Settings Rat} {lab : Labelled Rat} {trueLabel : Int}
    {trace : Trace} {create : F → List (Event Rat) × Outcome E × F} {factory : F}
    {draws : Outcome S} {r : AttemptResult Rat}
    (h : (run net settings lab trueLabel trace create factory draws).1.result = .ok r) :
    (∃ reason event, skip? settings lab trueLabel = some (reason, event) ∧
      r = ⟨.skipped, reason, 0, 0, none, none⟩) ∨
    ∃ (d : S) (origin : List Rat) (p : Problem Rat (net.inDim + 1))
      (s : Session E Rat (net.inDim + 1)) (t : Refinement E Rat (net.inDim + 1)),
      skip? settings lab trueLabel = none ∧ draws = .ok d ∧
      Course net settings lab trace d origin p s ∧
      Refinement.run (quest net settings lab trueLabel) (Refinement.start s p.sets) = .ok () t ∧
      restored net lab.datum (resultOf t) = .ok r ∧
      (run net settings lab trueLabel trace create factory draws).1.told =
        some (t.session.program, t.session.engine) := by
  rcases run_launched h with hskipped | ⟨d, origin, p, s, t, hskip, hd, hcrop, hlaunch, hrun,
    hrestored, htold⟩
  · exact Or.inl hskipped
  · exact Or.inr ⟨d, origin, p, s, t, hskip, hd, ⟨hcrop, hlaunch.built, hlaunch.opened⟩, hrun,
      hrestored, htold⟩

/-- An attempt whose parts succeed gives what its loop leads to. -/
theorem run_of_parts {net : Net Rat} {settings : Settings Rat} {lab : Labelled Rat}
    {trueLabel : Int} {trace : Trace} {create : F → List (Event Rat) × Outcome E × F}
    {factory factory' : F} {events : List (Event Rat)} {engine : E} {d : S} {origin : List Rat}
    {p : Problem Rat (net.inDim + 1)} {s : Session E Rat (net.inDim + 1)}
    {t : Refinement E Rat (net.inDim + 1)} (hskip : skip? settings lab trueLabel = none)
    (hcrop : net.cropped lab.datum = .ok origin)
    (hbuilt : Problem.build net settings origin trace (Int.ofNat lab.label)
      (Int.ofNat lab.second) d = .ok p)
    (hcreate : create factory = (events, .ok engine, factory'))
    (hopen : openSession settings origin p (Session.fresh engine origin.length p.pool) = .ok () s)
    (hrun : Refinement.run (quest net settings lab trueLabel) (Refinement.start s p.sets) =
      .ok () t) :
    (run net settings lab trueLabel trace create factory (.ok d)).1.result =
      restored net lab.datum (resultOf t) := by
  have hfound : (do
      let draws ← (Except.ok d : Outcome S)
      let origin ← net.cropped lab.datum
      let p ← Problem.build net settings origin trace (Int.ofNat lab.label)
        (Int.ofNat lab.second) draws
      Except.ok (origin, p) : Outcome (List Rat × Problem Rat (net.inDim + 1))) =
        .ok (origin, p) := by
    rw [Outcome.ok_bind, hcrop, Outcome.ok_bind, hbuilt]
    rfl
  unfold quest at hrun
  unfold run
  simp only [hskip, hfound, hcreate, hopen, hrun]

/-! ## What an attempt relies on -/

/-- A datum that was labelled and recorded by a network whose layers were built, no two of one
    index. -/
structure Recorded (net : Net Rat) (datum : List Rat) (lab : Labelled Rat) (trace : Trace) :
    Prop where
  built : ∀ l ∈ net.layers, l.Built
  indices : (net.layers.map Layer.index).Nodup
  traced : Label.traced net datum true = .ok (lab, trace)

/-- What the problem of an attempt consists of: outputs `outs` that were replayed for the recorded
    outputs `ys`, what the replay left behind, the lead of the target, and the raised pixel. -/
structure Layout (net : Net Rat) (settings : Settings Rat) (lab : Labelled Rat) (trace : Trace)
    (draws : S) (origin ys : List Rat) (p : Problem Rat (net.inDim + 1))
    (outs : List (Affine Rat (net.inDim + 1))) (r : Replay S Rat (net.inDim + 1))
    (leads lift : List (Constraint Rat (net.inDim + 1))) : Prop where
  traced : net.traced origin = .ok (ys, trace)
  length_origin : origin.length = net.inDim
  length_outs : outs.length = ys.length
  label_lt : lab.label < outs.length
  second_lt : lab.second < outs.length
  second_ne : lab.second ≠ lab.label
  replay_ok : net.replay trace settings.samplingRatio (Problem.pixels net.inDim)
    (Replay.start draws) = .ok (outs, r)
  leads_ok : Formula.beats outs (Int.ofNat lab.second) settings.margin = .ok leads
  lift_ok : Problem.raises settings (Problem.pixels net.inDim) origin r.draws = .ok lift
  pool : p.pool = r.current ++ r.deferred ++ leads ++
    Problem.nearby settings (Problem.pixels net.inDim) origin (Affine.var net.inDim) ++ lift
  fresh : ∀ c ∈ p.pool, c.Fresh
  arranged : p.Arranged (List.range' r.current.length r.deferred.length) settings.lazy
  follows : ∀ v, (∀ c ∈ r.current ++ r.deferred, c.Holds v) ↔
    Net.Follows trace (v.toList.take net.inDim) net.layers
  values : ∀ v, (∀ c ∈ r.current ++ r.deferred, c.weakened.Holds v) →
    net.values (v.toList.take net.inDim) = .ok (outs.map fun t => t.eval v)

variable {net : Net Rat} {settings : Settings Rat} {datum : List Rat} {lab : Labelled Rat}
  {trace : Trace} {draws : S} {origin : List Rat} {p : Problem Rat (net.inDim + 1)}

/-- What is known of a recorded datum before anything is built. -/
theorem Recorded.replays (h : Recorded net datum lab trace) :
    lab.datum = datum ∧ ∃ origin ys, net.cropped datum = .ok origin ∧
      net.traced origin = .ok (ys, trace) ∧ origin.length = net.inDim ∧ lab.label < ys.length ∧
      lab.second < ys.length ∧ lab.second ≠ lab.label ∧
      (∃ x, Label.largest ys = .ok (x, lab.label)) ∧
      ∃ (outs : List (Affine Rat (net.inDim + 1))) (cs : List (Constraint Rat (net.inDim + 1))),
        outs.length = ys.length ∧ (∀ c ∈ cs, c.Fresh) ∧
        (∀ v, (∀ c ∈ cs, c.Holds v) ↔ Net.Follows trace (v.toList.take net.inDim) net.layers) ∧
        (∀ v, (∀ c ∈ cs, c.weakened.Holds v) →
          net.values (v.toList.take net.inDim) = .ok (outs.map fun t => t.eval v)) ∧
        ∀ {S : Type} [Source S Rat] (ratio : Rat) (draws : S), ∃ r : Replay S Rat (net.inDim + 1),
          net.replay trace ratio (Problem.pixels net.inDim) (Replay.start draws) =
            .ok (outs, r) ∧ (r.current ++ r.deferred).Perm cs := by
  obtain ⟨x, ys, hx, htraced, hlab⟩ := Label.traced_ok h.traced
  obtain ⟨hdatum, hlargest, hlabel, hsecond, hne⟩ := Label.ofOutputs_ok hlab
  have hlen := Net.length_of_values (Net.values_of_traced htraced)
  exact ⟨hdatum, x, ys, hx, htraced, hlen, hlabel, hsecond, hne, hlargest,
    Net.replays (fun l hl => (h.built l hl).sound) h.indices hlen htraced (Nat.le_succ _)⟩

/-- Without rounding the problem of an attempt at a recorded datum can be built. -/
theorem Recorded.build_succeeds (h : Recorded net datum lab trace)
    (hq : settings.quantized = false)
    (hobj : settings.objective = "min-linf" ∨ settings.objective = "max-conf") (draws : S) :
    ∃ origin p, net.cropped lab.datum = .ok origin ∧
      Problem.build net settings origin trace (Int.ofNat lab.label) (Int.ofNat lab.second) draws =
        .ok p := by
  obtain ⟨hdatum, origin, ys, hcrop, -, -, hlabel, hsecond, -, -, outs, cs, houts, -, -, -,
    hreplays⟩ := h.replays
  obtain ⟨r, hreplay, -⟩ := hreplays settings.samplingRatio draws
  obtain ⟨p, hp⟩ : ∃ p, Problem.build net settings origin trace (Int.ofNat lab.label)
      (Int.ofNat lab.second) draws = .ok p :=
    Problem.build_succeeds hreplay (houts ▸ hlabel) (houts ▸ hsecond) hq hobj
  exact ⟨origin, p, hdatum ▸ hcrop, hp⟩

/-- **The layout.**  A problem that was built for a recorded datum is laid out as one expects. -/
theorem Recorded.layout (h : Recorded net datum lab trace)
    (hcrop : net.cropped lab.datum = .ok origin)
    (hp : Problem.build net settings origin trace (Int.ofNat lab.label) (Int.ofNat lab.second)
      draws = .ok p) :
    ∃ ys outs r leads lift, Layout net settings lab trace draws origin ys p outs r leads lift := by
  obtain ⟨hdatum, x, ys, hx, htraced, hlen, hlabel, hsecond, hne, -, outs, cs, houts, hfresh,
    hfollows, hvalues, hrun⟩ := h.replays
  rw [hdatum] at hcrop
  cases hx.symm.trans hcrop
  obtain ⟨r, hreplay, hperm⟩ := hrun settings.samplingRatio draws
  obtain ⟨outs', r', leads, lift, hreplay', hleads, hlift, hpool, harr⟩ := Problem.build_ok hp
  cases hreplay.symm.trans hreplay'
  have hall : ∀ P : Constraint Rat (net.inDim + 1) → Prop,
      (∀ c ∈ r.current ++ r.deferred, P c) ↔ ∀ c ∈ cs, P c :=
    fun P => forall_congr' fun c => by rw [hperm.mem_iff]
  refine ⟨ys, outs, r, leads, lift, htraced, hlen, houts, houts ▸ hlabel, houts ▸ hsecond, hne,
    hreplay, hleads, hlift, hpool, ?_, harr, fun v => ?_, fun v hv => ?_⟩
  · rw [hpool]
    exact Problem.pool_fresh ((hall _).2 hfresh) hleads hlift
  · rw [hall fun c => c.Holds v, hfollows v]
  · exact hvalues v ((hall _).1 hv)

/-- The loop of an attempt starts in a state that is tracked. -/
theorem Layout.tracks {ys : List Rat} {outs : List (Affine Rat (net.inDim + 1))}
    {r : Replay S Rat (net.inDim + 1)} {leads lift : List (Constraint Rat (net.inDim + 1))}
    (h : Layout net settings lab trace draws origin ys p outs r leads lift) {engine : E}
    {s : Session E Rat (net.inDim + 1)}
    (hopen : openSession settings origin p (Session.fresh engine origin.length p.pool) = .ok () s) :
    ∃ log, Refinement.Tracks (fixed settings origin p) p.current
      (List.range' r.current.length r.deferred.length) log (Refinement.start s p.sets) := by
  have hledger := openSession_ledger h.fresh (fun _ hi => h.arranged.current_lt hi)
    h.arranged.nodup_current hopen
  exact ⟨p.current, tracks_start h.arranged rfl hledger⟩

end

/-! ### An attempt to look at -/

/-- Every constraint is in the program from the start, there is no objective, and nothing is
    rounded. -/
def plain : Settings Rat where
  percentage := 1
  lazy := true
  optimise := false
  epsilon := 1 / 4
  minValue := 0
  maxValue := 1
  margin := 1 / 4
  objective := "min-linf"
  timeLimit := none
  skipLowConfidence := false
  lowConfidence := 0
  giveUpAfter := 4
  samplingRatio := 1
  quantized := false
  quantizationStep := 1
  integrality := false
  maxPromotions := 700
  backend := "scipy"
  seed := none

/-- A solver with prepared answers, made by handing it over. -/
def prepared (script : Script Rat) : List (Event Rat) × Outcome (Script Rat) × Script Rat :=
  ([], .ok script, script)

namespace Ramp

attribute [local instance] Transcendental.flat

/-- The label of the ramp at one, where its outputs are two and one. -/
def lab : Labelled Rat := ⟨[1], 0, 1, 1 / 2, 0⟩

/-- Its only unit is active. -/
def trace : Trace :=
  ((Trace.empty.record 0 .none).record 1 ⟨some [.active], none⟩).record 2 .none

/-- Whatever is drawn is zero. -/
def draws : Cyclic Rat := .of [] []

theorem recorded : Recorded Net.Ramp.net [1] lab trace where
  built := Net.Ramp.built
  indices := Net.Ramp.indices_nodup
  traced := by cbv

end Ramp

end Attempt

end Perturb
