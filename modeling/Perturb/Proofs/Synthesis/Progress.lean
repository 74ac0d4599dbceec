/-
  Why an attempt with an exact solver finds a counterexample if there is one.

  1. **Sight** — `Sighted` says what the loop relies on: a candidate can always be labelled, and one
     that satisfies the whole pool with equality allowed is not spurious.  THE CRUX is
     `Tracks.violated`: the program holds everything in the ledger, so a solution whose candidate is
     spurious violates something that is still pending, and a round of promotions finds it.

  2. **Guidance** — `Guided` is the invariant of a run with an exact solver: the solution in hand is
     a feasible point, a round is paid for by a constraint that is no longer pending, and a state
     that gave up did so because it was told to or because its program admits nothing.  Every turn
     keeps it and no phase fails from it, so a run does not fail (`Guided.run_succeeds`).

  3. **Attempts** — a margin above zero makes an attempt sighted (`Layout.sighted`): the target
     exceeds every other output at the candidate, so it is its label.
-/
import Perturb.Proofs.Config.Options
import Perturb.Proofs.Synthesis.Acceptance
import Perturb.Proofs.Synthesis.Relaxation

namespace Perturb

/-- A solver that refuses nothing and answers exactly: with a point the program admits if there is
    one, and otherwise that there is none. -/
structure Engine.Exact (E : Type) [Engine E Rat] : Prop where
  accepts : Engine.Accepts E
  solves : ∀ (e : E) (p : Program Rat) (limit : Option Rat), ∃ answer engine,
    Engine.solve e p limit = (.ok answer, engine) ∧
    ((∃ x, answer.solution? = some x ∧ p.feasible x) ∨
      (answer.solution? = none ∧ answer.status = .infeasible ∧ ∀ x, ¬ p.feasible x))

section

variable {E : Type} [Engine E Rat] {e engine : E} {p : Program Rat} {limit : Option Rat}
  {answer : Answer Rat}

/-- The program admits a point that an exact solver answers with. -/
theorem Engine.Exact.feasible (h : Engine.Exact E)
    (hsolve : Engine.solve e p limit = (.ok answer, engine)) {x : List Rat}
    (hx : answer.solution? = some x) : p.feasible x := by
  obtain ⟨answer', engine', hsolve', hcase⟩ := h.solves e p limit
  cases hsolve.symm.trans hsolve'
  rcases hcase with ⟨x', hx', hfeasible⟩ | ⟨hnone, -, -⟩
  · cases hx.symm.trans hx'
    exact hfeasible
  · cases hx.symm.trans hnone

/-- It admits none if an exact solver answers without one. -/
theorem Engine.Exact.infeasible (h : Engine.Exact E)
    (hsolve : Engine.solve e p limit = (.ok answer, engine)) (hx : answer.solution? = none) :
    ∀ x, ¬ p.feasible x := by
  obtain ⟨answer', engine', hsolve', hcase⟩ := h.solves e p limit
  cases hsolve.symm.trans hsolve'
  rcases hcase with ⟨x, hx', -⟩ | ⟨-, -, hnone⟩
  · cases hx.symm.trans hx'
  · exact hnone

end

namespace Refinement

variable [Transcendental] {E : Type} {n : Nat} {q : Quest Rat} {g : Session.Ground Rat n}
  {live waiting log : List Nat} {s t : Refinement E Rat n}

/-! ## Sight -/

/-- What a loop relies on to see whether a candidate is spurious. -/
structure Sighted (q : Quest Rat) (g : Session.Ground Rat n) (live waiting : List Nat) : Prop where
  fresh : ∀ c ∈ g.pool, c.Fresh
  covers : ∀ i < g.pool.length, i ∈ live ∨ i ∈ waiting
  vars : g.vars.length = n
  room : 0 < q.settings.maxPromotions
  labels : ∀ v : Vector Rat n, ∃ lab,
    Label.of q.net (candidateOf q g.dim v.toList) false = .ok lab
  truthful : ∀ (v : Vector Rat n) (lab : Labelled Rat),
    (∀ i < g.pool.length, (g.constraint i).weakened.Holds v) →
    Label.of q.net (candidateOf q g.dim v.toList) false = .ok lab → ¬ Spurious q lab

/-- **A spurious candidate is seen.**  Its solution violates a constraint that is pending. -/
theorem Tracks.violated (hsee : Sighted q g live waiting) (h : Tracks g live waiting log s)
    {v : Vector Rat n} (hv : s.session.program.feasible v.toList) {lab : Labelled Rat}
    (hlab : Label.of q.net (candidateOf q g.dim v.toList) false = .ok lab) (hs : Spurious q lab) :
    ∃ i ∈ s.pending, satisfied (g.constraint i) v.toList = .ok false := by
  by_contra hnone
  push Not at hnone
  refine hsee.truthful v lab (fun i hi => ?_) hlab hs
  by_cases hlog : i ∈ log
  · exact ((h.ledger.feasible_iff v).1 hv).2 i hlog
  · have hwaits : i ∈ waiting :=
      (hsee.covers i hi).resolve_left fun hlive => hlog (h.live_sub i hlive)
    have hnot := hnone i (h.mem_pending_iff.2 ⟨hwaits, hlog⟩)
    obtain ⟨b, hb⟩ := satisfied_succeeds (hsee.fresh _ (Session.Ground.constraint_mem hi))
      v.length_toList
    cases b with
    | false => exact absurd hb hnot
    | true => exact ((satisfied_true_iff _ v).1 hb).weakened

/-- A feasible point has a value for every variable. -/
theorem Tracks.exists_vector (hsee : Sighted q g live waiting)
    (h : Tracks g live waiting log s) {x : List Rat}
    (hx : s.session.program.feasible x) : ∃ v : Vector Rat n, x = v.toList := by
  have hlen := (h.ledger.length_of_feasible hx).trans hsee.vars
  exact ⟨⟨x.toArray, by rw [List.size_toArray, hlen]⟩, rfl⟩

/-! ## Guidance -/

/-- What holds of every state of a run with an exact solver. -/
structure Guided (q : Quest Rat) (waiting : List Nat) (s : Refinement E Rat n) : Prop where
  paid : s.phase = .solve → s.iterations + s.pending.length ≤ waiting.length
  owed : s.phase = .validate ∨ s.phase = .refine →
    s.iterations + s.pending.length ≤ waiting.length + 1
  point : s.phase = .validate ∨ s.phase = .refine →
    ∃ v : Vector Rat n, s.solution = some v.toList ∧ s.session.program.feasible v.toList
  spurious : s.phase = .refine → ∃ lab, Spurious q lab ∧
    Label.of q.net (candidateOf q s.session.inputDim (s.solution.getD [])) false = .ok lab
  seen : s.reason ≠ .nothingViolated
  hopeless : s.phase = .abort →
    q.settings.giveUpAfter < waiting.length ∨ ∀ x, ¬ s.session.program.feasible x

/-- A state that is about to solve has been paid for, and nothing else is asked of it. -/
theorem Guided.of_solve (hp : s.phase = .solve)
    (hpaid : s.iterations + s.pending.length ≤ waiting.length)
    (hseen : s.reason ≠ .nothingViolated) : Guided q waiting s := by
  refine ⟨fun _ => hpaid, ?_, ?_, ?_, hseen, ?_⟩ <;> simp [hp]

/-- Of a state that has ended only the reason is asked. -/
theorem Guided.of_finished (hf : s.finished = true) (hseen : s.reason ≠ .nothingViolated)
    (hhopeless : s.phase = .abort →
      q.settings.giveUpAfter < waiting.length ∨ ∀ x, ¬ s.session.program.feasible x) :
    Guided q waiting s := by
  rcases finished_iff.1 hf with hp | hp
  · refine ⟨?_, ?_, ?_, ?_, hseen, hhopeless⟩ <;> simp [hp]
  · refine ⟨?_, ?_, ?_, ?_, hseen, hhopeless⟩ <;> simp [hp]

/-- In a state that refines, something pending is violated. -/
theorem Guided.violated (hsee : Sighted q g live waiting) (ht : Tracks g live waiting log s)
    (h : Guided q waiting s) (hp : s.phase = .refine) :
    ∃ x i, s.solution = some x ∧ i ∈ s.pending ∧ satisfied (g.constraint i) x = .ok false := by
  obtain ⟨v, hv, hfeasible⟩ := h.point (Or.inr hp)
  obtain ⟨lab, hs, hlab⟩ := h.spurious hp
  rw [hv, ht.ledger.dim_eq] at hlab
  obtain ⟨i, hi, hviolated⟩ := ht.violated hsee hfeasible hlab hs
  exact ⟨v.toList, i, hv, hi, hviolated⟩

/-- A loop is guided when it starts. -/
theorem Tracks.guided_start {session : Session E Rat n} {sets : SetFamily Nat}
    (h : Tracks g live waiting log (start session sets)) :
    Guided q waiting (start session sets) := by
  refine .of_solve rfl ?_ (by rintro ⟨⟩)
  rw [h.pending_eq]
  show 0 + _ ≤ _
  rw [Nat.zero_add]
  exact List.length_filter_le ..

variable [Engine E Rat]

/-- **Every turn is guided.**  In particular a round of promotions is never stuck, and every round
    that is not the last one is paid for. -/
theorem Turn.guided (hexact : Engine.Exact E) (hsee : Sighted q g live waiting)
    (ht : Tracks g live waiting log s) (h : Guided q waiting s) (hturn : Turn q s t) :
    Guided q waiting t := by
  cases hturn with
  | cap hp hcap =>
    have hpaid : s.iterations ≤ waiting.length := by
      have := h.paid hp
      omega
    have hpaid : (s.iterations : Rat) ≤ waiting.length := Nat.cast_le.2 hpaid
    exact .of_finished rfl (by rintro ⟨⟩) fun _ => Or.inl (lt_of_lt_of_le hcap hpaid)
  | unsolved hp hcap hs hx =>
    exact .of_finished rfl (by rintro ⟨⟩) fun _ => Or.inr (hexact.infeasible hs hx)
  | solved hp hcap hs hx =>
    have hfeasible := hexact.feasible hs hx
    obtain ⟨v, rfl⟩ := ht.exists_vector hsee hfeasible
    refine ⟨by rintro ⟨⟩, fun _ => ?_, fun _ => ⟨v, rfl, hfeasible⟩, by rintro ⟨⟩, h.seen,
      by rintro ⟨⟩⟩
    have hpaid := h.paid hp
    show s.iterations + 1 + s.pending.length ≤ _
    omega
  | rejected hp hl hs =>
    exact ⟨by rintro ⟨⟩, fun _ => h.owed (Or.inl hp), fun _ => h.point (Or.inl hp),
      fun _ => ⟨_, hs, hl⟩, h.seen, by rintro ⟨⟩⟩
  | accepted hp hl hs =>
    exact .of_finished rfl h.seen (by rintro ⟨⟩)
  | stuck hp ho hok =>
    obtain ⟨x, i, hx, hi, hviolated⟩ := h.violated hsee ht hp
    rw [hx] at hok
    have hroom : ¬ q.settings.maxPromotions ≤ (Scalar.ofNat 0 : Rat) := not_le.2 hsee.room
    obtain ⟨new, hchosen, hlen, -⟩ := ht.promoteViolated ho hok
    rw [List.length_eq_zero_iff.1 hlen] at hchosen
    have hnot := chosen_eq_nil hroom hchosen.symm i (ho.mem_iff.2 hi)
    cases hnot.symm.trans (Refinement.violated_iff.2 hviolated)
  | @refined t _ added hp ho hok h0 =>
    obtain ⟨new, -, -, -, hless, -, -, heq⟩ := ht.promoteViolated ho hok
    have hiterations : t.iterations = s.iterations := by rw [heq]
    have hreason : t.reason = s.reason := by rw [heq]
    refine .of_solve rfl ?_ (hreason ▸ h.seen)
    have howed := h.owed (Or.inr hp)
    show t.iterations + t.pending.length ≤ _
    omega

/-- **No phase fails.** -/
theorem Guided.step_succeeds (hexact : Engine.Exact E) (hsee : Sighted q g live waiting)
    (ht : Tracks g live waiting log s) (h : Guided q waiting s) (hf : s.finished = false) :
    ∃ t, step q s = .ok () t := by
  refine Refinement.step_succeeds hexact.accepts hsee.fresh ht hf (fun _ => ?_) (fun hp => ?_)
    fun hp => ?_
  · obtain ⟨answer, engine, hsolve, -⟩ :=
      hexact.solves s.session.engine s.session.program q.settings.timeLimit
    exact ⟨answer, engine, hsolve⟩
  · obtain ⟨v, hv, -⟩ := h.point (Or.inl hp)
    rw [hv, ht.ledger.dim_eq]
    exact hsee.labels v
  · obtain ⟨v, hv, -⟩ := h.point (Or.inr hp)
    rw [hv]
    exact v.length_toList

/-- **A run is guided.**  From a state that is tracked and guided a run does not fail, and leads
    through tracked and guided states only. -/
theorem Guided.run_succeeds (hexact : Engine.Exact E) (hsee : Sighted q g live waiting)
    (ht : Tracks g live waiting log s) (h : Guided q waiting s) :
    (∃ t, run q s = .ok () t) ∧
      ∀ t, Reached q s t → ∃ log', Tracks g live waiting log' t ∧ Guided q waiting t := by
  have hturn : ∀ t t' : Refinement E Rat n,
      (∃ log', Tracks g live waiting log' t ∧ Guided q waiting t) → Turn q t t' →
        ∃ log', Tracks g live waiting log' t' ∧ Guided q waiting t' := by
    rintro t t' ⟨log', ht, h⟩ hturn
    obtain ⟨new, ht'⟩ := ht.turn hturn
    exact ⟨log' ++ new, ht', hturn.guided hexact hsee ht h⟩
  refine ⟨Refinement.run_succeeds hturn ?_ ⟨log, ht, h⟩, fun t hreached => ?_⟩
  · rintro t ⟨log', ht, h⟩ hf
    exact h.step_succeeds hexact hsee ht hf
  · exact hreached.inv ⟨log, ht, h⟩ hturn

end Refinement

/-! ## Attempts -/

namespace Attempt

section

variable [Transcendental] {E : Type} {S F : Type} [Source S Rat] {net : Net Rat}
  {settings : Settings Rat} {datum : List Rat} {lab : Labelled Rat} {trueLabel : Int}
  {trace : Trace} {draws : S} {origin ys : List Rat} {p : Problem Rat (net.inDim + 1)}
  {outs : List (Affine Rat (net.inDim + 1))} {r : Replay S Rat (net.inDim + 1)}
  {leads lift : List (Constraint Rat (net.inDim + 1))}

/-- Where the whole pool holds with equality allowed, the target is the label. -/
theorem Layout.label_eq (hm : 0 < settings.margin)
    (h : Layout net settings lab trace draws origin ys p outs r leads lift)
    {v : Vector Rat (net.inDim + 1)} (hv : ∀ c ∈ p.pool, c.weakened.Holds v) {l : Labelled Rat}
    (hl : Label.of net (v.toList.take net.inDim) false = .ok l) : l.label = lab.second := by
  rw [h.pool, List.forall_mem_append, List.forall_mem_append, List.forall_mem_append] at hv
  obtain ⟨⟨⟨hkept, hleads⟩, -⟩, -⟩ := hv
  have hvalues := h.values v hkept
  have hleads : ∀ c ∈ leads, c.Holds v := fun c hc =>
    Formula.beats_weakened h.leads_ok c hc ▸ hleads c hc
  have hsecond := h.second_lt
  rw [Formula.beats_holds_iff (List.getElem?_eq_getElem hsecond) h.leads_ok] at hleads
  obtain ⟨zs, hzs, houtputs⟩ := Label.of_ok hl
  cases hzs.symm.trans hvalues
  obtain ⟨-, ⟨z, hlargest⟩, -⟩ := Label.ofOutputs_ok houtputs
  have htarget : (outs.map fun t => t.eval v)[lab.second]? =
      some ((outs[lab.second]).eval v) := by
    rw [List.getElem?_map, List.getElem?_eq_getElem hsecond]
    rfl
  refine Label.largest_of_leads hlargest htarget fun i y hne hy => ?_
  rw [List.getElem?_map] at hy
  obtain ⟨t, ht, rfl⟩ := Option.map_eq_some_iff.1 hy
  have hlead := hleads i t hne ht
  linarith

/-- **A margin gives sight.** -/
theorem Layout.sighted (hrec : Recorded net datum lab trace) (hq : settings.quantized = false)
    (hm : 0 < settings.margin) (hroom : 0 < settings.maxPromotions)
    (h : Layout net settings lab trace draws origin ys p outs r leads lift) :
    Refinement.Sighted (quest net settings lab trueLabel) (fixed settings origin p) p.current
      (List.range' r.current.length r.deferred.length) := by
  have hcandidate : ∀ v : Vector Rat (net.inDim + 1),
      Refinement.candidateOf (quest net settings lab trueLabel) (fixed settings origin p).dim
        v.toList = v.toList.take net.inDim := by
    intro v
    rw [Refinement.candidateOf_plain hq]
    show v.toList.take origin.length = _
    rw [h.length_origin]
  constructor
  case fresh => exact h.fresh
  case covers => exact fun i hi => h.arranged.covers hi
  case vars => exact length_vars_fixed settings origin p
  case room => exact hroom
  case labels =>
    intro v
    rw [hcandidate]
    exact Label.of_succeeds hrec.traced (by simp)
  case truthful =>
    intro v l hall hl hs
    rw [hcandidate] at hl
    refine hs.1 (congrArg Int.ofNat (h.label_eq hm (fun c hc => ?_) hl))
    obtain ⟨i, hi⟩ := List.mem_iff_getElem?.1 hc
    have hi : (fixed settings origin p).pool[i]? = some c := hi
    have hone := hall i (List.getElem?_eq_some_iff.1 hi).1
    rw [Session.Ground.constraint_of_getElem? hi] at hone
    exact hone

/-- Writing the result of a loop back does not fail, and keeps how it ended. -/
theorem restored_succeeds (hq : settings.quantized = false)
    (hcrop : net.cropped lab.datum = .ok origin) {t : Refinement E Rat (net.inDim + 1)}
    (h : Refinement.Vouched (quest net settings lab trueLabel) t) :
    ∃ result, restored net lab.datum (resultOf t) = .ok result ∧ result.reason = t.reason ∧
      (t.phase = .done → result.verdict = .found) := by
  by_cases hdone : t.phase = .done
  · obtain ⟨x, ce, hx, hce, hof, -⟩ := h.accepted hdone
    rw [Refinement.candidateOf_plain hq] at hof
    obtain ⟨zs, hzs, houtputs⟩ := Label.of_ok hof
    have hdatum := (Label.ofOutputs_ok houtputs).1
    obtain ⟨full, hfull⟩ := Net.uncropped_succeeds hcrop (Net.length_of_values hzs)
    refine ⟨⟨.found, t.reason, t.iterations, t.promoted, some full,
      some { ce with datum := full }⟩, ?_, rfl, fun _ => rfl⟩
    rw [resultOf_done hdone hx hce]
    show (net.uncropped lab.datum ce.datum >>= _) = _
    rw [hdatum, hfull]
    rfl
  · refine ⟨resultOf t, ?_, rfl, fun h => absurd h hdone⟩
    unfold restored resultOf
    rw [if_neg hdone, if_neg hdone]

variable [Engine E Rat]

/-- **An exact solver finds what there is.**  With accepted options that ask for a lead and for no
    rounding, an attempt at a recorded input that is not skipped gives a result.  Whenever its loop
    refines, the solution violates a constraint that is not in the program yet, so it never gives
    up for want of one.  If it may try as often as there are deferred constraints, it finds a
    counterexample unless the eager program admits nothing. -/
theorem exact_complete (hexact : Engine.Exact E) {o : Options Rat} (hvalid : o.validate = .ok ())
    (hsettings : o.settings = .ok settings) (hq : settings.quantized = false)
    (hm : 0 < settings.margin) (hrec : Recorded net datum lab trace)
    (hskip : skip? settings lab trueLabel = none)
    (create : F → List (Event Rat) × Outcome E × F) {factory factory' : F}
    {events : List (Event Rat)} {engine : E}
    (hcreate : create factory = (events, .ok engine, factory')) (draws : S) :
    ∃ (origin : List Rat) (p : Problem Rat (net.inDim + 1)) (s : Session E Rat (net.inDim + 1))
      (result : AttemptResult Rat),
      Course net settings lab trace draws origin p s ∧
      (∀ t, Refinement.Reached (quest net settings lab trueLabel) (Refinement.start s p.sets) t →
        t.reason ≠ .nothingViolated ∧ (t.phase = .refine → ∃ x i, t.solution = some x ∧
          i ∈ t.pending ∧ Refinement.satisfied ((p.pool[i]?).getD default) x = .ok false)) ∧
      (run net settings lab trueLabel trace create factory (.ok draws)).1.result = .ok result ∧
      result.reason ≠ .nothingViolated ∧
      ((p.deferred.length : Rat) ≤ settings.giveUpAfter →
        (∃ x, (eager settings origin p).feasible x) → result.verdict = .found) := by
  have hrange := Options.settings_inRange hvalid hsettings
  -- the problem can be built and the session opened
  obtain ⟨origin, p, hcrop, hp⟩ := hrec.build_succeeds hq hrange.objective draws
  obtain ⟨ys, outs, r, leads, lift, h⟩ := hrec.layout hcrop hp
  obtain ⟨s, hopen⟩ := openSession_succeeds hexact.accepts settings origin engine h.fresh
    fun i hi => h.arranged.current_lt hi
  obtain ⟨log, htracks⟩ := h.tracks hopen
  have hc : Course net settings lab trace draws origin p s := ⟨hcrop, hp, engine, hopen⟩
  have hsee : Refinement.Sighted (quest net settings lab trueLabel) (fixed settings origin p)
      p.current (List.range' r.current.length r.deferred.length) :=
    h.sighted hrec hq hm hrange.maxPromotions
  -- the loop is guided from start to end
  obtain ⟨⟨t, hrun⟩, hall⟩ := htracks.guided_start.run_succeeds hexact hsee htracks
  have hreached := Refinement.run_reached hrun
  obtain ⟨log', htracks', hguided⟩ := hall t hreached
  have hvouched : Refinement.Vouched (quest net settings lab trueLabel) t := hreached.vouched rfl
  obtain ⟨result, hresult, hreason, hfound⟩ := restored_succeeds hq hcrop hvouched
  refine ⟨origin, p, s, result, hc, fun t ht => ?_, ?_, hreason ▸ hguided.seen, ?_⟩
  · obtain ⟨log, htracks, hguided⟩ := hall t ht
    exact ⟨hguided.seen, fun hp => hguided.violated hsee htracks hp⟩
  · rw [run_of_parts hskip hcrop hp hcreate hopen hrun]
    exact hresult
  · rintro hcap ⟨x, hx⟩
    rcases Refinement.finished_iff.1 (Refinement.run_ended htracks rfl hrun) with hdone | habort
    · exact hfound hdone
    rcases hguided.hopeless habort with hless | hnone
    · rw [h.arranged.deferred_eq] at hcap
      exact absurd hless (not_lt.2 hcap)
    · obtain ⟨hvars, hrows⟩ := relaxes h.arranged htracks'
      exact absurd (Program.feasible_of_rows_subset hvars hrows hx) (hnone x)

end

/-! ### A unit that has to stay active -/

/-- A solver that answers by looking. -/
structure Oracle where

open Classical in
/-- It answers with a point the program admits, if there is one. -/
noncomputable instance Oracle.instEngine : Engine Oracle Rat where
  receive oracle _ := (.ok (), oracle)
  solve oracle p _ :=
    if h : ∃ x, p.feasible x then (.ok ⟨.optimal, some h.choose⟩, oracle)
    else (.ok ⟨.infeasible, none⟩, oracle)

theorem Oracle.exact : Engine.Exact Oracle where
  accepts _ _ := rfl
  solves oracle p limit := by
    by_cases h : ∃ x, p.feasible x
    · exact ⟨_, oracle, dif_pos h, Or.inl ⟨h.choose, rfl, h.choose_spec⟩⟩
    · exact ⟨_, oracle, dif_neg h, Or.inr ⟨rfl, rfl, not_exists.1 h⟩⟩

namespace Ramp

attribute [local instance] Transcendental.flat

/-- The defaults without rounding, with a lead to be gained, and with room below zero. -/
def options : Options Rat :=
  ((Options.defaults.set .quantizationSafety (.bool false)).set .labelConfidenceDiff
    (.real (1 / 4))).set .minValue (.real (-5))

/-- What the options are read as. -/
def leading : Settings Rat where
  percentage := 1
  lazy := true
  optimise := true
  epsilon := 20
  minValue := -5
  maxValue := 255
  margin := 1 / 4
  objective := "min-linf"
  timeLimit := some 480
  skipLowConfidence := false
  lowConfidence := 11 / 20
  giveUpAfter := 4
  samplingRatio := 1 / 10
  quantized := false
  quantizationStep := 1
  integrality := false
  maxPromotions := 700
  backend := "auto"
  seed := none

/-- Draws that defer every live constraint. -/
def deferring : Cyclic Rat := .of [1 / 2] []

theorem validate_options : options.validate = .ok () := by cbv

theorem settings_options : options.settings = .ok leading := by cbv

/-- Minus one half, one and a half away: the unit is active there, and the outputs are one half and
    one. -/
theorem admissible : Admissible Net.Ramp.net leading trace lab.second deferring [1] [-1 / 2]
    (3 / 2) := by
  have htraced : Net.pass [-1 / 2] .empty Net.Ramp.net.layers = .ok ([1 / 2, 1], trace) := by cbv
  constructor
  case length => rfl
  case limits =>
    intro i o a ho ha
    cases i with
    | zero =>
      cases ho
      cases ha
      decide +kernel
    | succ i => cases ho
  case range => decide +kernel
  case whole =>
    intro h
    cases h
  case follows => exact (Net.pass_recorded Net.Ramp.indices_nodup htraced).follows
  case leads =>
    refine ⟨[1 / 2, 1], 1, (Net.pass_ok htraced).1, rfl, fun i z hne hz => ?_⟩
    cases i with
    | zero =>
      cases hz
      decide +kernel
    | succ i =>
      cases i with
      | zero => exact absurd rfl hne
      | succ i => cases hz
  case raised =>
    intro h
    cases h
  case ball =>
    refine fun _ => ⟨by decide +kernel, by decide +kernel, fun i o a ho ha => ?_⟩
    cases i with
    | zero =>
      cases ho
      cases ha
      decide +kernel
    | succ i => cases ho

/-- There is something to find, so it is found. -/
theorem exact_complete_ramp : ∃ result,
    (run Net.Ramp.net leading lab 0 trace (fun (_ : Unit) => ([], .ok Oracle.mk, ())) ()
      (.ok deferring)).1.result = .ok result ∧ result.verdict = .found := by
  have hskip : skip? leading lab 0 = none := rfl
  obtain ⟨origin, p, s, result, hc, -, hresult, -, hfound⟩ :=
    exact_complete Oracle.exact validate_options settings_options rfl (by decide +kernel) recorded
      hskip (fun (_ : Unit) => ([], .ok Oracle.mk, ())) rfl deferring
  have horigin : origin = [1] := (Except.ok.inj hc.cropped).symm
  subst horigin
  have hdeferred : (Problem.build Net.Ramp.net leading [1] trace 0 1 deferring).toOption.map
      (·.deferred.length) = some 1 := by cbv
  have hone : p.deferred.length = 1 := by
    have hbuilt : Problem.build Net.Ramp.net leading [1] trace 0 1 deferring = .ok p := hc.built
    rw [hbuilt] at hdeferred
    exact Option.some.inj hdeferred
  obtain ⟨ys, outs, r, leads, lift, h⟩ := recorded.layout hc.cropped hc.built
  refine ⟨result, hresult, hfound ?_ ⟨_, h.eager_feasible admissible⟩⟩
  rw [hone]
  decide +kernel

end Ramp

end Attempt

end Perturb
