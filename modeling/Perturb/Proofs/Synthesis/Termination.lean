/-
  The loop of an attempt ends.

  1. **Phases** — `Phase.Next` lists which phase may follow which; turns keep to it (`Turn.next`),
     and the only one that goes back, from `refine` to `solve`, leaves fewer constraints pending
     (`Turn.pending_lt`).

  2. **Rounds** — THE CRUX is `Budget`: a loop that is about to solve has had at most as many rounds
     as constraints it has promoted, and everywhere else at most one more.  Together with the cap,
     which is compared before the count goes up, this bounds the number of rounds.  A round asks
     the solver once (`Turn.calls`).

  3. **The end** — every turn lowers the measure `left`, so no chain of turns is longer than that
     (`Tracks.length_le_left`).

  4. **Success** — with a solver that always answers, a loop can fail only at labelling; and a
     network that has labelled the input an attempt starts from labels every input of its length.
     So from every state there is a next phase (`Tracks.step_succeeds`), and the loop gets to its
     end.

  Turns allow promotions in any order, so all of this holds of workers that share them.
-/
import Perturb.Proofs.Synthesis.Answer
import Perturb.Proofs.Synthesis.Bookkeeping

namespace Perturb

/-! ## Phases -/

/-- The phases that may follow each other. -/
inductive Phase.Next : Phase → Phase → Prop
  | solved : Next .solve .validate
  | unsolved : Next .solve .abort
  | accepted : Next .validate .done
  | rejected : Next .validate .refine
  | refined : Next .refine .solve
  | stuck : Next .refine .abort

/-- A solver that refuses nothing and always answers, and whose solutions have a value for every
    variable.  What it answers is left open. -/
structure Engine.Obliging (E : Type) {K : Type} [Engine E K] : Prop where
  accepts : ∀ (e : E) (c : Command K), (Engine.receive e c).1 = .ok ()
  answers : ∀ (e : E) (p : Program K) (limit : Option K), ∃ answer engine,
    Engine.solve e p limit = (.ok answer, engine) ∧
      ∀ x, answer.solution? = some x → x.length = p.vars.length

/-- What counts the times that a solver was asked: it goes up by one when the solver is asked, and
    stays when the solver is told something. -/
structure Engine.Tally {E K : Type} [Engine E K] (calls : E → Nat) : Prop where
  solve : ∀ (e : E) (p : Program K) (limit : Option K),
    calls (Engine.solve e p limit).2 = calls e + 1
  receive : ∀ (e : E) (c : Command K), calls (Engine.receive e c).2 = calls e

namespace Refinement

variable {E K : Type} [Exponential K] [Engine E K] {n : Nat} {q : Quest K}
  {g : Session.Ground K n} {live waiting log : List Nat} {s t : Refinement E K n}

/-- **Turns keep to the order of the phases.** -/
theorem Turn.next (h : Turn q s t) : s.phase.Next t.phase := by
  cases h with
  | cap hp hcap => exact hp ▸ .unsolved
  | unsolved hp hcap hs hx => exact hp ▸ .unsolved
  | solved hp hcap hs hx => exact hp ▸ .solved
  | rejected hp hl hs => exact hp ▸ .rejected
  | accepted hp hl hs => exact hp ▸ .accepted
  | stuck hp ho hok => exact hp ▸ .stuck
  | refined hp ho hok h0 => exact hp ▸ .refined

/-- What a turn costs.  Solving counts one more round, unless the cap was reached, and promotes
    nothing; no other turn counts one, and going back to solving pays for it with a promotion. -/
theorem Turn.cost (h : Turn q s t) (htracks : Tracks g live waiting log s) :
    (s.phase = .solve ∧ t.phase ≠ .solve ∧ t.pending = s.pending ∧
      (t.iterations = s.iterations ∨
        t.iterations = s.iterations + 1 ∧ ¬ q.settings.giveUpAfter < Scalar.ofNat s.iterations)) ∨
    (s.phase ≠ .solve ∧ t.iterations = s.iterations ∧
      t.pending.length + (if t.phase = .solve then 1 else 0) ≤ s.pending.length) := by
  have hne : ∀ {p : Phase}, s.phase = p → p ≠ .solve → s.phase ≠ .solve := fun hp hne h =>
    hne (hp ▸ h)
  cases h with
  | cap hp hcap => exact Or.inl ⟨hp, nofun, rfl, Or.inl rfl⟩
  | unsolved hp hcap hs hx => exact Or.inl ⟨hp, nofun, rfl, Or.inr ⟨rfl, hcap⟩⟩
  | solved hp hcap hs hx => exact Or.inl ⟨hp, nofun, rfl, Or.inr ⟨rfl, hcap⟩⟩
  | rejected hp hl hs => exact Or.inr ⟨hne hp nofun, rfl, le_rfl⟩
  | accepted hp hl hs => exact Or.inr ⟨hne hp nofun, rfl, le_rfl⟩
  | stuck hp ho hok =>
    obtain ⟨new, -, -, -, hless, -, -, heq⟩ := htracks.promoteViolated ho hok
    exact Or.inr ⟨hne hp nofun, (congrArg Refinement.iterations heq :), hless⟩
  | @refined t _ added hp ho hok h0 =>
    obtain ⟨new, -, -, -, hless, -, -, heq⟩ := htracks.promoteViolated ho hok
    refine Or.inr ⟨hne hp nofun, (congrArg Refinement.iterations heq :), ?_⟩
    show t.pending.length + 1 ≤ s.pending.length
    omega

/-- **Going back to solving** leaves fewer constraints pending. -/
theorem Turn.pending_lt (h : Turn q s t) (htracks : Tracks g live waiting log s)
    (hs : s.phase = .refine) (ht : t.phase = .solve) : t.pending.length < s.pending.length := by
  rcases h.cost htracks with ⟨hp, -⟩ | ⟨-, -, hless⟩
  · cases hs.symm.trans hp
  · rw [if_pos ht] at hless
    exact hless

/-! ## Rounds -/

/-- What bounds the rounds of a loop that had `most` constraints pending at its start. -/
structure Budget (q : Quest K) (most : Nat) (t : Refinement E K n) : Prop where
  rounds : t.iterations + t.pending.length ≤ most + if t.phase = .solve then 0 else 1
  cap : ∀ m : Int, Scalar.Limits q.settings.giveUpAfter m → (t.iterations : Int) ≤ max (m + 1) 0

omit [Engine E K] in
/-- A loop that starts is within its budget. -/
theorem Budget.start (session : Session E K n) (sets : SetFamily Nat) :
    Budget q (Refinement.start session sets).pending.length (Refinement.start session sets) :=
  ⟨(Nat.zero_add _).le, fun _ _ => le_max_right _ _⟩

/-- **Every turn keeps within the budget.** -/
theorem Budget.turn {most : Nat} (h : Budget q most s) (htracks : Tracks g live waiting log s)
    (hturn : Turn q s t) : Budget q most t := by
  have hrounds := h.rounds
  rcases hturn.cost htracks with ⟨hs, ht, hpending, hcount⟩ | ⟨hs, hcount, hless⟩
  · rw [if_pos hs] at hrounds
    constructor
    · rw [if_neg ht, hpending]
      omega
    · intro m hm
      have hold := h.cap m hm
      rcases hcount with hcount | ⟨hcount, hroom⟩
      · rw [hcount]
        exact hold
      · -- the cap is compared before the count goes up, so one round more gets past it
        have hroom : ¬ m < s.iterations := mt (hm _).2 hroom
        omega
  · rw [if_neg hs] at hrounds
    refine ⟨?_, hcount ▸ h.cap⟩
    by_cases ht : t.phase = .solve
    · -- a round begins, and a promotion has paid for it
      rw [if_pos ht] at hless ⊢
      omega
    · rw [if_neg ht] at hless ⊢
      omega

/-- **A round asks the solver once.**  Whatever counts the times a solver is asked goes up with the
    rounds. -/
theorem Turn.calls {calls : E → Nat} (hcalls : Engine.Tally calls) (h : Turn q s t)
    (htracks : Tracks g live waiting log s) {start : Nat}
    (hs : calls s.session.engine = start + s.iterations) :
    calls t.session.engine = start + t.iterations := by
  have hasked : ∀ {answer : Outcome (Answer K)} {engine : E},
      Engine.solve s.session.engine s.session.program q.settings.timeLimit = (answer, engine) →
      calls engine = start + (s.iterations + 1) := by
    intro answer engine hanswer
    have hone := hcalls.solve s.session.engine s.session.program q.settings.timeLimit
    rw [hanswer, hs] at hone
    exact hone
  -- promotions only tell the solver something
  have htold : ∀ {u : Refinement E K n} {new : List Nat},
      Session.Exports new s.session u.session → calls u.session.engine = start + s.iterations :=
    fun hexports => hexports.keeps (I := fun e => calls e = start + s.iterations)
      (fun e c he => (hcalls.receive e c).trans he) hs
  cases h with
  | cap hp hcap => exact hs
  | unsolved hp hcap hs' hx => exact hasked hs'
  | solved hp hcap hs' hx => exact hasked hs'
  | rejected hp hl hs' => exact hs
  | accepted hp hl hs' => exact hs
  | stuck hp ho hok =>
    obtain ⟨new, -, -, -, -, hexports, -, heq⟩ := htracks.promoteViolated ho hok
    rw [heq]
    exact htold hexports
  | refined hp ho hok h0 =>
    obtain ⟨new, -, -, -, -, hexports, -, heq⟩ := htracks.promoteViolated ho hok
    rw [heq]
    exact htold hexports

/-! ## The end -/

/-- **No chain of turns** is longer than what is left at its start. -/
theorem Tracks.length_le_left (h : Tracks g live waiting log s) {states : List (Refinement E K n)}
    (hchain : (s :: states).IsChain (Turn q)) : states.length ≤ left s := by
  induction states generalizing s log with
  | nil => exact Nat.zero_le _
  | cons t rest ih =>
    obtain ⟨hturn, hrest⟩ := List.isChain_cons_cons.1 hchain
    obtain ⟨new, ht⟩ := h.turn hturn
    have hless := hturn.left_lt h
    have hlen := ih ht hrest
    rw [List.length_cons]
    omega

/-! ## Success -/

/-- With a solver that always answers there is a value for every variable wherever a candidate is
    validated or refined. -/
theorem Solved.turn_of_obliging (ho : Engine.Obliging E) (hvars : g.vars.length = n)
    (htracks : Tracks g live waiting log s) (h : Solved (fun x : List K => x.length = n) s)
    (hturn : Turn q s t) : Solved (fun x : List K => x.length = n) t := by
  refine h.turn (fun answer engine hanswer x hx => ?_) hturn
  obtain ⟨answer', engine', hanswer', hlen⟩ := ho.answers s.session.engine s.session.program
    q.settings.timeLimit
  cases hanswer.symm.trans hanswer'
  rw [hlen x hx, htracks.ledger.vars_eq, hvars]

/-- **There is a next phase**, with a solver that always answers, if candidates can be labelled. -/
theorem Tracks.step_succeeds (htracks : Tracks g live waiting log s) (ho : Engine.Obliging E)
    (hfresh : ∀ c ∈ g.pool, c.Fresh) (h : Solved (fun x : List K => x.length = n) s)
    (hlabels : ∀ x : List K, x.length = min g.dim n → ∃ lab, Label.of q.net x false = .ok lab)
    (hf : s.finished = false) : ∃ t, step q s = .ok () t := by
  refine Refinement.step_succeeds ho.accepts hfresh htracks hf (fun _ => ?_) (fun hp => ?_)
    (fun hp => ?_)
  · obtain ⟨answer, engine, hanswer, -⟩ := ho.answers s.session.engine s.session.program
      q.settings.timeLimit
    exact ⟨answer, engine, hanswer⟩
  · obtain ⟨x, hx, hlen⟩ := h (Or.inl hp)
    refine hlabels _ ?_
    rw [length_candidateOf, hx, htracks.ledger.dim_eq]
    exact congrArg (min g.dim) hlen
  · obtain ⟨x, hx, hlen⟩ := h (Or.inr hp)
    rw [hx]
    exact hlen

end Refinement

/-! ## The attempt -/

namespace Attempt

section

variable {E K S : Type} [Exponential K] [Engine E K] [Source S K] {q : Quest K} {origin : List K}
  {trace : Trace} {label : Int} {draws : S} {p : Problem K (q.net.inDim + 1)}
  {s : Session E K (q.net.inDim + 1)}

/-- **The loop of an attempt ends.**  Let `D` constraints be pending when it starts.

    * Every phase is a turn, and turns keep to the order of the phases; going back to solving
      leaves fewer constraints pending.
    * Wherever turns lead, there have been at most `D + 1` rounds, and at most one more than the cap
      allows for, but none if that is negative; the solver was asked once in each of them; and the
      result gives their number.
    * No chain of turns is longer than `3 * D + 3`, and a run that does not fail ends where the
      loop is done or has given up.
    * A run does not fail, and no state before the end is without a next phase, if the solver
      refuses nothing and always answers and the network labelled the input the attempt is at. -/
theorem Launch.loop_ends
    (h : Launch q.net q.settings origin trace label q.target draws p s) :
    (∀ t t' : Refinement E K (q.net.inDim + 1), t.finished = false → Refinement.Leads q t t' →
      Refinement.Turn q t t') ∧
    (∀ t, Relation.ReflTransGen (Refinement.Turn q) (Refinement.start s p.sets) t →
      (∀ t', Refinement.Turn q t t' → t.phase.Next t'.phase ∧
        (t.phase = .refine → t'.phase = .solve → t'.pending.length < t.pending.length)) ∧
      t.iterations ≤ (Refinement.start s p.sets).pending.length + 1 ∧
      (∀ cap : Int, Scalar.Limits q.settings.giveUpAfter cap → (t.iterations : Int) ≤
        min (max (cap + 1) 0) ((Refinement.start s p.sets).pending.length + 1)) ∧
      (∀ calls : E → Nat, Engine.Tally calls →
        calls t.session.engine = calls s.engine + t.iterations) ∧
      ∀ datum r, restored q.net datum (resultOf t) = .ok r → r.iterations = t.iterations) ∧
    (∀ states, (Refinement.start s p.sets :: states).IsChain (Refinement.Turn q) →
      states.length ≤ 3 * (Refinement.start s p.sets).pending.length + 3) ∧
    (∀ t, Refinement.run q (Refinement.start s p.sets) = .ok () t →
      Relation.ReflTransGen (Refinement.Turn q) (Refinement.start s p.sets) t ∧
      (t.phase = .done ∨ t.phase = .abort)) ∧
    (Engine.Obliging E → ∀ datum lab, Label.traced q.net datum true = .ok (lab, trace) →
      q.net.cropped datum = .ok origin →
      (∀ t, Relation.ReflTransGen (Refinement.Turn q) (Refinement.start s p.sets) t →
        t.finished = false → ∃ t', Refinement.Leads q t t') ∧
      ∃ t, Refinement.run q (Refinement.start s p.sets) = .ok () t) := by
  refine ⟨fun t t' hf hstep => Refinement.step_turn hf hstep, ?rounds,
    fun states hchain => h.tracks.length_le_left hchain, fun t hrun =>
      ⟨Refinement.turns_of_leads (Refinement.run_leads hrun),
        Refinement.finished_iff.1 (Refinement.run_ended h.tracks rfl hrun)⟩, ?succeeds⟩
  case rounds =>
    intro t ht
    obtain ⟨⟨log, htracks⟩, hbudget⟩ :=
      h.tracks.inv_of_turns (Refinement.Budget.start (q := q) s p.sets)
        (fun hu hb hturn => Refinement.Budget.turn hb hu hturn) ht
    have hrounds : t.iterations ≤ (Refinement.start s p.sets).pending.length + 1 := by
      have hrounds := hbudget.rounds
      split at hrounds <;> omega
    refine ⟨fun t' hturn => ⟨hturn.next, hturn.pending_lt htracks⟩, hrounds, fun cap hcap => ?_,
      fun calls hcalls => ?_, fun datum r hr => (counts_of_restored hr).1⟩
    · have hleast := hbudget.cap cap hcap
      omega
    · exact (h.tracks.inv_of_turns (I := fun t : Refinement E K (q.net.inDim + 1) =>
        calls t.session.engine = calls s.engine + t.iterations) rfl
        (fun hu hcount hturn => hturn.calls hcalls hu hcount) ht).2
  case succeeds =>
    intro ho datum lab hlab hcrop
    have hvars : (ground origin p s).vars.length = q.net.inDim + 1 := h.ledger.2
    have hlabels : ∀ x : List K, x.length = min (ground origin p s).dim (q.net.inDim + 1) →
        ∃ lab, Label.of q.net x false = .ok lab := by
      obtain ⟨origin', ys, hcrop', htraced, -⟩ := Label.traced_ok hlab
      cases hcrop.symm.trans hcrop'
      have hdim : (ground origin p s).dim = q.net.inDim :=
        Net.length_of_values (Net.values_of_traced htraced)
      intro x hx
      rw [hdim, Nat.min_eq_left (Nat.le_succ _)] at hx
      exact Label.of_succeeds hlab hx
    have hstep : ∀ t, Relation.ReflTransGen (Refinement.Turn q) (Refinement.start s p.sets) t →
        t.finished = false → ∃ t', Refinement.Leads q t t' := by
      intro t ht hf
      obtain ⟨⟨log, htracks⟩, hsolved⟩ := h.tracks.inv_of_turns
        (Refinement.Solved.start _ s p.sets)
        (fun hu hs hturn => Refinement.Solved.turn_of_obliging ho hvars hu hs hturn) ht
      exact htracks.step_succeeds ho h.fresh hsolved hlabels hf
    refine ⟨hstep, ?_⟩
    exact Refinement.run_succeeds
      (I := Relation.ReflTransGen (Refinement.Turn q) (Refinement.start s p.sets))
      (fun _ _ hs hturn => hs.tail hturn) hstep .refl

end

/-! ### As many rounds as there can be -/

theorem Stubborn.obliging : Engine.Obliging Stubborn where
  accepts _ _ := rfl
  answers _ _ _ := ⟨_, _, rfl, fun _ hx => Option.some.inj hx ▸ List.length_map ..⟩

theorem Stubborn.tally : Engine.Tally Stubborn.asked where
  solve _ _ _ := rfl
  receive _ _ := rfl

namespace Ridge

attribute [local instance] Transcendental.flat

/-- Two constraints are pending, one of them is promoted in each of the first two rounds, and the
    third finds nothing to promote: there are as many rounds as there can be. -/
theorem loop_ends_ridge :
    ∃ (p : Problem Rat 2) (s : Session Stubborn Rat 2) (t : Refinement Stubborn Rat 2),
      Launch net quest.settings [1] trace 0 1 draws p s ∧
      Refinement.run quest (Refinement.start s p.sets) = .ok () t ∧
      (t.phase = .done ∨ t.phase = .abort) ∧ (Refinement.start s p.sets).pending.length = 2 ∧
      t.iterations = 3 ∧ t.session.engine.asked = s.engine.asked + t.iterations ∧
      (t.iterations : Int) ≤
        min (max ((4 : Int) + 1) 0) ((Refinement.start s p.sets).pending.length + 1) := by
  have hafter : (after 12).map (fun (p, s, t) =>
      (t.iterations, (Refinement.start s p.sets).pending.length)) = some (3, 2) := by cbv
  cases h : after 12 with
  | none =>
    rw [h] at hafter
    cases hafter
  | some found =>
    obtain ⟨p, s, t⟩ := found
    rw [h] at hafter
    simp only [Option.map_some, Option.some.injEq, Prod.mk.injEq] at hafter
    obtain ⟨hthree, htwo⟩ := hafter
    obtain ⟨hlaunch, hsteps⟩ := launch_of_after h
    obtain ⟨-, hwhere, -, hends, hsucceeds⟩ :=
      Launch.loop_ends (q := quest) hlaunch
    obtain ⟨-, t', hrun⟩ := hsucceeds Stubborn.obliging [1] ⟨[1], 0, 1, 1 / 2, 0⟩ (by cbv) rfl
    obtain rfl : t' = t := by
      have hsteps' : Refinement.stepsUpTo quest
          (3 * ((Refinement.start s p.sets).pending.length + 2)) (Refinement.start s p.sets) =
            .ok () t' := hrun
      rw [htwo] at hsteps'
      cases hsteps.symm.trans hsteps'
      rfl
    obtain ⟨hturns, hphase⟩ := hends t' hrun
    obtain ⟨-, -, hcap, hcalls, -⟩ := hwhere t' hturns
    exact ⟨p, s, t', hlaunch, hrun, hphase, htwo, hthree, hcalls _ Stubborn.tally,
      hcap 4 (Scalar.limits_ofInt 4)⟩

end Ridge

end Attempt

end Perturb
