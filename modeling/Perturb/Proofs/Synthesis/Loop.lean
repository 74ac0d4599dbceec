/-
  The refinement loop as a transition system.

  1. **Transitions** — `Turn` lists everything one phase can do, with the conditions under which it
     does it; a step from a state that has not ended is one of them (`step_turn`).  Everything that
     is said about runs is said by cases on `Turn`.  A round of promotions goes through the pending
     constraints in some order: a step takes them as they are enumerated, workers that share them
     take them as it happens, and what is said of turns holds of both.

  2. **Promotions** — `chosen` says, without a session, which constraints a round promotes.  THE
     CRUX is `promoteViolated_ok`: that is what it exports and adds to the current set, and nothing
     else changes.

  3. **Runs** — hence every turn keeps track of the problem (`Tracks.turn`) and lowers the measure
     `left`.  The number of phases a run is allowed exceeds it, so a run that does not fail has
     ended (`run_ended`).  Where it ended by accepting a candidate, the solution in hand is one that
     the solver gave (`Tracks.accepted_of_turns`).
-/
import Mathlib.Logic.Relation
import Perturb.Proofs.Constraint.Enumeration
import Perturb.Proofs.Data.Label
import Perturb.Proofs.Program.Export
import Perturb.Proofs.Synthesis.Tracking

namespace Perturb

/-- A value stands for a count: it is at most another count exactly if that count is. -/
def Scalar.Counts {K : Type} [Scalar K] (a : K) (m : Nat) : Prop :=
  ∀ k : Nat, a ≤ (Scalar.ofNat k : K) ↔ m ≤ k

/-- A fraction that is a count stands for it. -/
theorem Scalar.counts_ofNat (m : Nat) : Scalar.Counts (Scalar.ofNat m : Rat) m := fun k =>
  show ((m : Int) : Rat) ≤ ((k : Int) : Rat) ↔ m ≤ k by norm_cast

/-- A value stands for an integer that limits counts: a count exceeds it exactly if it exceeds that
    integer. -/
def Scalar.Limits {K : Type} [Scalar K] (a : K) (m : Int) : Prop :=
  ∀ k : Nat, a < (Scalar.ofNat k : K) ↔ m < k

/-- A fraction that is an integer stands for it. -/
theorem Scalar.limits_ofInt (m : Int) : Scalar.Limits (Scalar.ofInt m : Rat) m := fun k =>
  show (m : Rat) < ((k : Int) : Rat) ↔ m < k by norm_cast

namespace Refinement

section

variable {E K : Type} [Exponential K] [Engine E K] {n : Nat} {q : Quest K}

/-! ## Transitions -/

/-- A candidate the network still gives the true label, and not the target. -/
def Spurious (q : Quest K) (lab : Labelled K) : Prop :=
  Int.ofNat lab.label ≠ q.target ∧ Int.ofNat lab.label = q.trueLabel

/-- What one phase can do. -/
inductive Turn (q : Quest K) : Refinement E K n → Refinement E K n → Prop
  | cap {s : Refinement E K n} (hp : s.phase = .solve)
      (hcap : q.settings.giveUpAfter < Scalar.ofNat s.iterations) : Turn q s (s.giveUp .capReached)
  | unsolved {s : Refinement E K n} {engine : E} {answer : Answer K} (hp : s.phase = .solve)
      (hcap : ¬ q.settings.giveUpAfter < Scalar.ofNat s.iterations)
      (h : Engine.solve s.session.engine s.session.program q.settings.timeLimit =
        (.ok answer, engine)) (hx : answer.solution? = none) :
      Turn q s (Refinement.giveUp (.noSolution answer.status)
        { s with iterations := s.iterations + 1, session := { s.session with engine } })
  | solved {s : Refinement E K n} {engine : E} {answer : Answer K} {x : List K}
      (hp : s.phase = .solve) (hcap : ¬ q.settings.giveUpAfter < Scalar.ofNat s.iterations)
      (h : Engine.solve s.session.engine s.session.program q.settings.timeLimit =
        (.ok answer, engine)) (hx : answer.solution? = some x) :
      Turn q s { s with iterations := s.iterations + 1, session := { s.session with engine },
                        solution := some x, phase := .validate }
  | rejected {s : Refinement E K n} {lab : Labelled K} (hp : s.phase = .validate)
      (h : Label.of q.net (candidateOf q s.session.inputDim (s.solution.getD [])) false = .ok lab)
      (hs : Spurious q lab) : Turn q s { s with candidate := some lab, phase := .refine }
  | accepted {s : Refinement E K n} {lab : Labelled K} (hp : s.phase = .validate)
      (h : Label.of q.net (candidateOf q s.session.inputDim (s.solution.getD [])) false = .ok lab)
      (hs : ¬ Spurious q lab) : Turn q s { s with candidate := some lab, phase := .done }
  | stuck {s t : Refinement E K n} {order : List Nat} (hp : s.phase = .refine)
      (ho : order.Perm s.pending)
      (h : promoteViolated q (s.solution.getD []) 0 order s = .ok 0 t) :
      Turn q s (t.giveUp .nothingViolated)
  | refined {s t : Refinement E K n} {order : List Nat} {added : Nat} (hp : s.phase = .refine)
      (ho : order.Perm s.pending)
      (h : promoteViolated q (s.solution.getD []) 0 order s = .ok added t) (h0 : added ≠ 0) :
      Turn q s { t with promoted := t.promoted + added, phase := .solve }

theorem solveStep_turn {s s' : Refinement E K n} (hp : s.phase = .solve)
    (h : solveStep q s = .ok () s') : Turn q s s' := by
  unfold solveStep at h
  split at h
  · rename_i hcap
    cases h
    exact .cap hp hcap
  · rename_i hcap
    unfold Session.solve at h
    rcases hsolve : Engine.solve s.session.engine s.session.program q.settings.timeLimit with
      ⟨answer, engine⟩
    cases answer with
    | error e =>
      simp only [hsolve] at h
      cases h
    | ok answer =>
      simp only [hsolve] at h
      cases hx : answer.solution? with
      | none =>
        simp only [hx] at h
        cases h
        exact .unsolved hp hcap hsolve hx
      | some x =>
        simp only [hx] at h
        cases h
        exact .solved hp hcap hsolve hx

theorem validateStep_turn {s s' : Refinement E K n} (hp : s.phase = .validate)
    (h : validateStep q s = .ok () s') : Turn q s s' := by
  unfold validateStep at h
  cases hlab : Label.of q.net (candidateOf q s.session.inputDim (s.solution.getD [])) false with
  | error e =>
    simp only [hlab] at h
    cases h
  | ok lab =>
    simp only [hlab] at h
    have hspurious : (Int.ofNat lab.label != q.target && Int.ofNat lab.label == q.trueLabel) = true
        ↔ Spurious q lab := by
      unfold Spurious
      rw [Bool.and_eq_true, bne_iff_ne, beq_iff_eq]
    cases h
    by_cases hs : Spurious q lab
    · rw [if_pos (hspurious.2 hs)]
      exact .rejected hp hlab hs
    · rw [if_neg fun h => hs (hspurious.1 h)]
      exact .accepted hp hlab hs

theorem refineStep_turn {s s' : Refinement E K n} (hp : s.phase = .refine)
    (h : refineStep q s = .ok () s') : Turn q s s' := by
  unfold refineStep at h
  rw [Step.get_bind] at h
  obtain ⟨added, t, hadded, h⟩ := Step.bind_ok_iff.1 h
  by_cases h0 : added = 0
  · subst h0
    rw [if_pos rfl] at h
    cases h
    exact .stuck hp (List.Perm.refl _) hadded
  · rw [if_neg h0] at h
    cases h
    exact .refined hp (List.Perm.refl _) hadded h0

/-- **Inversion.**  A step from a state that has not ended is one of the transitions. -/
theorem step_turn {s s' : Refinement E K n} (hf : s.finished = false)
    (h : step q s = .ok () s') : Turn q s s' := by
  unfold step at h
  rw [Step.get_bind] at h
  cases hp : s.phase with
  | solve =>
    rw [hp] at h
    exact solveStep_turn hp h
  | validate =>
    rw [hp] at h
    exact validateStep_turn hp h
  | refine =>
    rw [hp] at h
    exact refineStep_turn hp h
  | done => cases hf.symm.trans (finished_iff.2 (Or.inl hp))
  | abort => cases hf.symm.trans (finished_iff.2 (Or.inr hp))

/-- A step from a state that has ended does nothing. -/
theorem step_finished {s s' : Refinement E K n} (hf : s.finished = true)
    (h : step q s = .ok () s') : s' = s := by
  unfold step at h
  rw [Step.get_bind] at h
  rcases finished_iff.1 hf with hp | hp
  · rw [hp] at h
    exact (Step.pure_ok_iff.1 h).2.symm
  · rw [hp] at h
    exact (Step.pure_ok_iff.1 h).2.symm

/-! ## Runs -/

/-- A state leads to another one by one phase. -/
def Leads (q : Quest K) (s t : Refinement E K n) : Prop := step q s = .ok () t

/-- What phases lead to, turns lead to. -/
theorem turns_of_leads {s t : Refinement E K n} (h : Relation.ReflTransGen (Leads q) s t) :
    Relation.ReflTransGen (Turn q) s t := by
  induction h with
  | refl => exact .refl
  | @tail t t' _ hstep ih =>
    cases hf : t.finished with
    | true => rw [step_finished hf hstep]; exact ih
    | false => exact ih.tail (step_turn hf hstep)

/-- What holds at the start and is kept by every turn holds wherever turns lead. -/
theorem inv_of_turns {I : Refinement E K n → Prop} (hturn : ∀ s t, I s → Turn q s t → I t)
    {s t : Refinement E K n} (h0 : I s) (h : Relation.ReflTransGen (Turn q) s t) : I t := by
  induction h with
  | refl => exact h0
  | tail _ hlast ih => exact hturn _ _ ih hlast

/-- Where a candidate is validated, or refined, there is a solution with a property. -/
def Solved (P : List K → Prop) (s : Refinement E K n) : Prop :=
  s.phase = .validate ∨ s.phase = .refine → ∃ x, s.solution = some x ∧ P x

omit [Exponential K] [Engine E K] in
/-- A state that is about to solve has no solution in hand. -/
theorem Solved.of_solve (P : List K → Prop) {s : Refinement E K n} (hp : s.phase = .solve) :
    Solved P s := by
  intro hphase
  rw [hp] at hphase
  exact absurd hphase (not_or.2 ⟨nofun, nofun⟩)

omit [Exponential K] [Engine E K] in
theorem Solved.start (P : List K → Prop) (session : Session E K n) (sets : SetFamily Nat) :
    Solved P (Refinement.start session sets) := .of_solve P rfl

/-- Turns keep that, if the solutions that the solver gives have the property. -/
theorem Solved.turn {P : List K → Prop} {s t : Refinement E K n} (h : Solved P s)
    (hanswer : ∀ answer engine,
      Engine.solve s.session.engine s.session.program q.settings.timeLimit = (.ok answer, engine) →
        ∀ x, answer.solution? = some x → P x) (hturn : Turn q s t) : Solved P t := by
  have hneither : ∀ {t : Refinement E K n}, t.phase ≠ .validate → t.phase ≠ .refine →
      Solved P t := fun hv hr hphase => absurd hphase (not_or.2 ⟨hv, hr⟩)
  cases hturn with
  | cap hp hcap => exact hneither nofun nofun
  | unsolved hp hcap hs hx => exact hneither nofun nofun
  | solved hp hcap hs hx => exact fun _ => ⟨_, rfl, hanswer _ _ hs _ hx⟩
  | rejected hp hl hs => exact fun _ => h (Or.inl hp)
  | accepted hp hl hs => exact hneither nofun nofun
  | stuck hp ho hok => exact hneither nofun nofun
  | refined hp ho hok h0 => exact hneither nofun nofun

/-- The solution that is in hand, while a candidate is looked at and where one was accepted, has a
    property. -/
structure Backed (P : List K → Prop) (s : Refinement E K n) : Prop where
  solved : Solved P s
  accepted : s.phase = .done → ∃ x, s.solution = some x ∧ P x

omit [Exponential K] [Engine E K] in
theorem Backed.of_solve (P : List K → Prop) {s : Refinement E K n} (hp : s.phase = .solve) :
    Backed P s := by
  refine ⟨.of_solve P hp, fun hdone => ?_⟩
  rw [hp] at hdone
  cases hdone

/-- Turns keep that.  Only accepting a candidate ends the loop there, and it leaves the solution
    alone. -/
theorem Backed.turn {P : List K → Prop} {s t : Refinement E K n} (h : Backed P s)
    (hanswer : ∀ answer engine,
      Engine.solve s.session.engine s.session.program q.settings.timeLimit = (.ok answer, engine) →
        ∀ x, answer.solution? = some x → P x) (hturn : Turn q s t) : Backed P t := by
  refine ⟨h.solved.turn hanswer hturn, fun hdone => ?_⟩
  cases hturn with
  | accepted hp hl hs => exact h.solved (Or.inl hp)
  | _ => cases hdone

/-- Phases one after the other lead to where they end. -/
theorem stepsUpTo_leads {k : Nat} {s s' : Refinement E K n} (hok : stepsUpTo q k s = .ok () s') :
    Relation.ReflTransGen (Leads q) s s' := by
  induction k generalizing s with
  | zero =>
    obtain ⟨-, rfl⟩ := Step.pure_ok_iff.1 hok
    exact .refl
  | succ k ih =>
    unfold stepsUpTo at hok
    rw [Step.get_bind] at hok
    split at hok
    · obtain ⟨-, rfl⟩ := Step.pure_ok_iff.1 hok
      exact .refl
    · obtain ⟨⟨⟩, t, hstep, hrest⟩ := Step.bind_ok_iff.1 hok
      exact (ih hrest).head hstep

/-- A run that does not fail leads to where it ends. -/
theorem run_leads {s s' : Refinement E K n} (hok : run q s = .ok () s') :
    Relation.ReflTransGen (Leads q) s s' := by
  unfold run at hok
  rw [Step.get_bind] at hok
  exact stepsUpTo_leads hok

/-- Phases do not fail if none fails from a state with a property that every turn keeps. -/
theorem stepsUpTo_succeeds {I : Refinement E K n → Prop}
    (hturn : ∀ s t, I s → Turn q s t → I t)
    (hstep : ∀ s, I s → s.finished = false → ∃ t, step q s = .ok () t) (k : Nat)
    {s : Refinement E K n} (h : I s) : ∃ t, stepsUpTo q k s = .ok () t := by
  induction k generalizing s with
  | zero => exact ⟨s, rfl⟩
  | succ k ih =>
    unfold stepsUpTo
    rw [Step.get_bind]
    cases hf : s.finished with
    | true => exact ⟨s, by rw [if_pos rfl]; rfl⟩
    | false =>
      obtain ⟨t, ht⟩ := hstep s h hf
      rw [if_neg Bool.false_ne_true, Step.bind_ok ht]
      exact ih (hturn s t h (step_turn hf ht))

/-- A run does not fail if no phase does. -/
theorem run_succeeds {I : Refinement E K n → Prop}
    (hturn : ∀ s t, I s → Turn q s t → I t)
    (hstep : ∀ s, I s → s.finished = false → ∃ t, step q s = .ok () t)
    {s : Refinement E K n} (h : I s) : ∃ t, run q s = .ok () t := by
  unfold run
  rw [Step.get_bind]
  exact stepsUpTo_succeeds hturn hstep _ h

/-! ## Promotions -/

/-- Whether a solution violates a constraint. -/
def violated (c : Constraint K n) (x : List K) : Bool :=
  match satisfied c x with
  | .ok false => true
  | _ => false

theorem violated_iff {c : Constraint K n} {x : List K} :
    violated c x = true ↔ satisfied c x = .ok false := by
  unfold violated
  split
  · rename_i h
    exact iff_of_true rfl h
  · rename_i h
    exact iff_of_false Bool.false_ne_true h

/-- Which constraints of a list a round promotes, if it has promoted `counter` before: those that
    fail the test, until the round is full. -/
def chosen (q : Quest K) (fails : Nat → Bool) (counter : Nat) : List Nat → List Nat
  | [] => []
  | i :: is =>
    if q.settings.maxPromotions ≤ Scalar.ofNat counter then []
    else if fails i then i :: chosen q fails (counter + 1) is
    else chosen q fails counter is

/-- A round promotes some of those that fail, in order. -/
theorem chosen_sublist (q : Quest K) (fails : Nat → Bool) (counter : Nat) (is : List Nat) :
    (chosen q fails counter is).Sublist (is.filter fails) := by
  induction is generalizing counter with
  | nil => exact .slnil
  | cons i is ih =>
    unfold chosen
    split
    · exact List.nil_sublist _
    split
    · rename_i hi
      rw [List.filter_cons_of_pos hi]
      exact (ih (counter + 1)).cons_cons i
    · rename_i hi
      rw [List.filter_cons_of_neg hi]
      exact ih counter

/-- A round with room that promotes nothing finds nothing that fails. -/
theorem chosen_eq_nil {fails : Nat → Bool} {counter : Nat} {is : List Nat}
    (hroom : ¬ q.settings.maxPromotions ≤ Scalar.ofNat counter)
    (h : chosen q fails counter is = []) : ∀ i ∈ is, fails i = false := by
  induction is with
  | nil => exact List.forall_mem_nil _
  | cons i is ih =>
    unfold chosen at h
    rw [if_neg hroom] at h
    split at h
    · cases h
    · rename_i hi
      exact List.forall_mem_cons.2 ⟨Bool.eq_false_iff.2 hi, ih h⟩

/-- Of those that fail, a round with room for `m` promotes the first `m`, less those it has
    promoted before. -/
theorem chosen_eq_take {m : Nat} (hm : Scalar.Counts q.settings.maxPromotions m)
    (fails : Nat → Bool) (counter : Nat) (is : List Nat) :
    chosen q fails counter is = (is.filter fails).take (m - counter) := by
  induction is generalizing counter with
  | nil => rw [List.filter_nil, List.take_nil]; rfl
  | cons i is ih =>
    unfold chosen
    by_cases hfull : q.settings.maxPromotions ≤ (Scalar.ofNat counter : K)
    · rw [if_pos hfull, Nat.sub_eq_zero_of_le ((hm counter).1 hfull), List.take_zero]
    have hroom : m - counter = (m - (counter + 1)) + 1 := by
      have := mt (hm counter).2 hfull
      omega
    rw [if_neg hfull]
    by_cases hi : fails i = true
    · rw [if_pos hi, List.filter_cons_of_pos hi, hroom, List.take_succ_cons, ih]
    · rw [if_neg hi, List.filter_cons_of_neg hi, ih]

/-- Flags do not matter to whether a constraint is satisfied. -/
theorem satisfied_congr {c d : Constraint K n} (ht : c.term = d.term)
    (hr : c.relation = d.relation) (x : List K) : satisfied c x = satisfied d x := by
  unfold satisfied Constraint.holdsAt
  rw [ht, hr]

/-- Whether a constraint with a known relation is satisfied can be told at any point. -/
theorem satisfied_succeeds {c : Constraint K n} (hc : c.Fresh) {x : List K} (hx : x.length = n) :
    ∃ b, satisfied c x = .ok b := by
  unfold satisfied
  rw [dif_pos hx]
  unfold Constraint.holdsAt Relation.compare
  cases hr : c.relation with
  | other name => exact absurd hr (hc.2 name)
  | _ => exact ⟨_, rfl⟩

variable {g : Session.Ground K n} {log : List Nat}

/-- What the loop over pending constraints does with a solution: what the first one satisfies is
    left alone, what it violates is exported, unless the round is full. -/
theorem promoteViolated_cons {s : Refinement E K n} (h : Session.Ledger g log s.session)
    {x : List K} {counter i : Nat} (hi : i ∉ log) (rest : List Nat) :
    promoteViolated q x counter (i :: rest) s =
      if q.settings.maxPromotions ≤ Scalar.ofNat counter then .ok 0 s
      else match satisfied (g.constraint i) x with
        | .error e => .error e s
        | .ok true => promoteViolated q x counter rest s
        | .ok false =>
          match Session.exportOne i s.session with
          | .error e session => .error e { s with session }
          | .ok _ session =>
            (promoteViolated q x (counter + 1) rest >>= fun more => pure (more + 1))
              { s with session, sets := s.sets.add currentSet i } := by
  have hnot := h.isAdded_of_notMem hi
  obtain ⟨hterm, hrel⟩ := h.constraint_eq i
  conv_lhs => unfold promoteViolated
  by_cases hfull : q.settings.maxPromotions ≤ (Scalar.ofNat counter : K)
  · rw [if_pos hfull, if_pos hfull]
    rfl
  · rw [if_neg hfull, if_neg hfull, Step.get_bind, satisfied_congr hterm hrel]
    cases satisfied (g.constraint i) x with
    | error e => rfl
    | ok b =>
      cases b with
      | true => rfl
      | false =>
        simp only [Session.promote_eq hnot hfull]
        cases Session.exportOne i s.session <;> rfl

/-- **A round of promotions** exports the constraints that were chosen, in order, adds them to the
    current set and counts them.  Nothing else changes. -/
theorem promoteViolated_ok {s s' : Refinement E K n} (h : Session.Ledger g log s.session)
    {x : List K} {counter added : Nat} {is : List Nat} (his : ∀ i ∈ is, i < g.pool.length)
    (hnew : ∀ i ∈ is, i ∉ log) (hnodup : is.Nodup)
    (hok : promoteViolated q x counter is s = .ok added s') :
    ∃ new, new = chosen q (fun i => violated (g.constraint i) x) counter is ∧ new.length = added ∧
      Session.Exports new s.session s'.session ∧ s'.sets = s.sets.addAll currentSet new ∧
      s' = { s with session := s'.session, sets := s'.sets } := by
  induction is generalizing log s counter added with
  | nil =>
    obtain ⟨rfl, rfl⟩ := Step.pure_ok_iff.1 hok
    exact ⟨[], rfl, rfl, .nil _, rfl, rfl⟩
  | cons i is ih =>
    rw [List.forall_mem_cons] at his hnew
    rw [List.nodup_cons] at hnodup
    rw [promoteViolated_cons h hnew.1] at hok
    unfold chosen
    split at hok
    · rename_i hfull
      cases hok
      exact ⟨[], (if_pos hfull).symm, rfl, .nil _, rfl, rfl⟩
    rename_i hfull
    rw [if_neg hfull]
    split at hok
    · cases hok
    · rename_i hsat
      have hnot : ¬ violated (g.constraint i) x = true := by
        rw [violated_iff, hsat]
        rintro ⟨⟩
      rw [if_neg hnot]
      exact ih h his.2 hnew.2 hnodup.2 hok
    rename_i hsat
    rw [if_pos (violated_iff.2 hsat)]
    split at hok
    · cases hok
    · rename_i id session hone
      obtain ⟨more, t, hmore, hpure⟩ := Step.bind_ok_iff.1 hok
      obtain ⟨rfl, rfl⟩ := Step.pure_ok_iff.1 hpure
      obtain ⟨new, hchosen, hlen, hexports, hsets, heq⟩ :=
        ih (s := { s with session, sets := s.sets.add currentSet i })
          (h.exportOne his.1 hnew.1 hone) his.2 (Session.not_logged_after hnew.2 hnodup.1)
          hnodup.2 hmore
      refine ⟨i :: new, by rw [hchosen], by rw [List.length_cons, hlen], .cons hone hexports,
        hsets, ?_⟩
      rw [heq]

/-- A round of promotions at a point does not fail, if the engine refuses nothing. -/
theorem promoteViolated_succeeds
    (ha : ∀ (e : E) (c : Command K), (Engine.receive e c).1 = .ok ()) (hf : ∀ c ∈ g.pool, c.Fresh)
    {s : Refinement E K n} (h : Session.Ledger g log s.session) {x : List K} (hx : x.length = n)
    (counter : Nat) {is : List Nat} (his : ∀ i ∈ is, i < g.pool.length)
    (hnew : ∀ i ∈ is, i ∉ log) (hnodup : is.Nodup) :
    ∃ added s', promoteViolated q x counter is s = .ok added s' := by
  induction is generalizing log s counter with
  | nil => exact ⟨0, s, rfl⟩
  | cons i is ih =>
    rw [List.forall_mem_cons] at his hnew
    rw [List.nodup_cons] at hnodup
    rw [promoteViolated_cons h hnew.1]
    split
    · exact ⟨0, s, rfl⟩
    obtain ⟨b, hb⟩ := satisfied_succeeds (hf _ (Session.Ground.constraint_mem his.1)) hx
    rw [hb]
    cases b with
    | true => exact ih h counter his.2 hnew.2 hnodup.2
    | false =>
      obtain ⟨sense, hsense⟩ := h.sense_of_fresh hf his.1
      obtain ⟨id, session, hone⟩ := Session.exportOne_of_accepts ha hsense
      obtain ⟨added, s', hrest⟩ :=
        ih (s := { s with session, sets := s.sets.add currentSet i })
          (h.exportOne his.1 hnew.1 hone) (counter + 1) his.2
          (Session.not_logged_after hnew.2 hnodup.1) hnodup.2
      simp only [hone]
      rw [Step.bind_ok hrest]
      exact ⟨_, _, rfl⟩

/-! ## Tracking -/

namespace Tracks

variable {live waiting : List Nat} {s t : Refinement E K n} {order : List Nat}

/-- A round of promotions that goes through the pending constraints in some order keeps track. -/
theorem promoteViolated (h : Tracks g live waiting log s) (ho : order.Perm s.pending)
    {x : List K} {added : Nat}
    (hok : Refinement.promoteViolated q x 0 order s = .ok added t) :
    ∃ new, new = chosen q (fun i => violated (g.constraint i) x) 0 order ∧ new.length = added ∧
      Tracks g live waiting (log ++ new) t ∧ t.pending.length + added ≤ s.pending.length ∧
      Session.Exports new s.session t.session ∧ t.sets = s.sets.addAll currentSet new ∧
      t = { s with session := t.session, sets := t.sets } := by
  have hlt : ∀ i ∈ order, i < g.pool.length := fun i hi =>
    h.waiting_lt i (h.mem_pending_iff.1 (ho.mem_iff.1 hi)).1
  have hnot : ∀ i ∈ order, i ∉ log := fun i hi => (h.mem_pending_iff.1 (ho.mem_iff.1 hi)).2
  have hnodup : order.Nodup := ho.nodup_iff.2 h.pending_nodup
  obtain ⟨new, hchosen, hlen, hexports, hsets, heq⟩ :=
    promoteViolated_ok h.ledger hlt hnot hnodup hok
  have hsub : new.Sublist order := hchosen ▸ (chosen_sublist q _ 0 order).trans List.filter_sublist
  have hledger := h.ledger.exports (fun i hi => hlt i (hsub.subset hi))
    (fun i hi => hnot i (hsub.subset hi)) (hnodup.sublist hsub) hexports
  obtain ⟨ht, hless⟩ := h.promoted (fun i hi => ho.mem_iff.1 (hsub.subset hi)) hledger
    (hsets ▸ SetFamily.getElem?_addAll_ne (by decide) new)
  exact ⟨new, hchosen, hlen, ht, hlen ▸ hless, hexports, hsets, heq⟩

/-- **Every turn keeps track**; the ledger only grows. -/
theorem turn (h : Tracks g live waiting log s) (hturn : Turn q s t) :
    ∃ new, Tracks g live waiting (log ++ new) t := by
  have hsame : ∀ {t : Refinement E K n}, Tracks g live waiting log t →
      ∃ new, Tracks g live waiting (log ++ new) t := fun ht => ⟨[], by rwa [List.append_nil]⟩
  cases hturn with
  | cap hp hcap => exact hsame (h.congr h.ledger rfl)
  | unsolved hp hcap hs hx => exact hsame (h.asked _ rfl rfl)
  | solved hp hcap hs hx => exact hsame (h.asked _ rfl rfl)
  | rejected hp hl hs => exact hsame (h.congr h.ledger rfl)
  | accepted hp hl hs => exact hsame (h.congr h.ledger rfl)
  | stuck hp ho hok =>
    obtain ⟨new, -, -, ht, -⟩ := h.promoteViolated ho hok
    exact ⟨new, ht.congr ht.ledger rfl⟩
  | refined hp ho hok h0 =>
    obtain ⟨new, -, -, ht, -⟩ := h.promoteViolated ho hok
    exact ⟨new, ht.congr ht.ledger rfl⟩

/-- Wherever turns lead, a state is tracked; and what holds at the start and is kept by the turns of
    tracked states holds there. -/
theorem inv_of_turns (h : Tracks g live waiting log s) {I : Refinement E K n → Prop} (h0 : I s)
    (hturn : ∀ {log s t}, Tracks g live waiting log s → I s → Turn q s t → I t)
    (hst : Relation.ReflTransGen (Turn q) s t) : (∃ log, Tracks g live waiting log t) ∧ I t := by
  refine Refinement.inv_of_turns (I := fun t => (∃ log, Tracks g live waiting log t) ∧ I t) ?_
    ⟨⟨log, h⟩, h0⟩ hst
  rintro u v ⟨⟨log', hu⟩, hI⟩ huv
  obtain ⟨new, hv⟩ := hu.turn huv
  exact ⟨⟨_, hv⟩, hturn hu hI huv⟩

/-- **What is accepted was answered.**  If the solutions that the solver gives in tracked states
    have a property, the one that is in hand where a candidate was accepted has it. -/
theorem accepted_of_turns {P : List K → Prop} (h : Tracks g live waiting log s)
    (hp : s.phase = .solve)
    (hanswer : ∀ {log : List Nat} {t : Refinement E K n}, Tracks g live waiting log t →
      ∀ answer engine,
        Engine.solve t.session.engine t.session.program q.settings.timeLimit =
          (.ok answer, engine) → ∀ x, answer.solution? = some x → P x)
    (hst : Relation.ReflTransGen (Turn q) s t) (hdone : t.phase = .done) :
    ∃ x, t.solution = some x ∧ P x := by
  obtain ⟨-, hbacked⟩ := h.inv_of_turns (Backed.of_solve P hp)
    (fun ht hb hturn => hb.turn (hanswer ht) hturn) hst
  exact hbacked.accepted hdone

end Tracks

/-! ## The end -/

variable {live waiting : List Nat} {s t s' : Refinement E K n}

/-- **No phase fails** if the solver refuses nothing and gives an answer, the candidate can be
    labelled, and the solution has a value for every variable. -/
theorem step_succeeds (ha : ∀ (e : E) (c : Command K), (Engine.receive e c).1 = .ok ())
    (hfresh : ∀ c ∈ g.pool, c.Fresh) (h : Tracks g live waiting log s) (hf : s.finished = false)
    (hsolve : s.phase = .solve → ∃ answer engine,
      Engine.solve s.session.engine s.session.program q.settings.timeLimit = (.ok answer, engine))
    (hlabel : s.phase = .validate → ∃ lab,
      Label.of q.net (candidateOf q s.session.inputDim (s.solution.getD [])) false = .ok lab)
    (hpoint : s.phase = .refine → (s.solution.getD []).length = n) :
    ∃ t, step q s = .ok () t := by
  unfold step
  rw [Step.get_bind]
  cases hp : s.phase with
  | solve =>
    show ∃ t, solveStep q s = .ok () t
    obtain ⟨answer, engine, hanswer⟩ := hsolve hp
    unfold solveStep
    split
    · exact ⟨_, rfl⟩
    · unfold Session.solve
      simp only [hanswer]
      cases answer.solution? <;> exact ⟨_, rfl⟩
  | validate =>
    show ∃ t, validateStep q s = .ok () t
    obtain ⟨lab, hlab⟩ := hlabel hp
    unfold validateStep
    simp only [hlab]
    exact ⟨_, rfl⟩
  | refine =>
    show ∃ t, refineStep q s = .ok () t
    obtain ⟨added, t, hok⟩ := promoteViolated_succeeds (q := q) ha hfresh h.ledger (hpoint hp) 0
      (fun i hi => h.waiting_lt i (h.mem_pending_iff.1 hi).1)
      (fun i hi => (h.mem_pending_iff.1 hi).2) h.pending_nodup
    unfold refineStep
    rw [Step.get_bind, Step.bind_ok hok]
    split <;> exact ⟨_, rfl⟩
  | done => cases hf.symm.trans (finished_iff.2 (Or.inl hp))
  | abort => cases hf.symm.trans (finished_iff.2 (Or.inr hp))

/-- **A turn brings the end nearer.**  A round that does not end the loop promoted something. -/
theorem Turn.left_lt (hturn : Turn q s t) (h : Tracks g live waiting log s) : left t < left s := by
  cases hturn with
  | cap hp hcap => exact left_lt_of_rank le_rfl (hp ▸ Nat.zero_lt_succ 2)
  | unsolved hp hcap hs hx => exact left_lt_of_rank le_rfl (hp ▸ Nat.zero_lt_succ 2)
  | solved hp hcap hs hx => exact left_lt_of_rank le_rfl (hp ▸ Nat.lt_succ_self 2)
  | rejected hp hl hs => exact left_lt_of_rank le_rfl (hp ▸ Nat.lt_succ_self 1)
  | accepted hp hl hs => exact left_lt_of_rank le_rfl (hp ▸ Nat.zero_lt_succ 1)
  | stuck hp ho hok =>
    obtain ⟨new, -, -, -, hless, -⟩ := h.promoteViolated ho hok
    exact left_lt_of_rank (Nat.le_of_add_right_le hless) (hp ▸ Nat.zero_lt_succ 0)
  | @refined t _ added hp ho hok h0 =>
    -- the phase goes back to the start of a round, so the promotions have to pay for it
    obtain ⟨new, -, -, -, hless, -⟩ := h.promoteViolated ho hok
    show 3 * t.pending.length + 3 < 3 * s.pending.length + rank s.phase
    rw [hp]
    show _ < _ + 1
    omega

/-- Phases that may be as many as are left lead to the end. -/
theorem stepsUpTo_ended {k : Nat} (h : Tracks g live waiting log s) (hk : left s ≤ k)
    (hok : stepsUpTo q k s = .ok () s') : s'.finished = true := by
  induction k generalizing log s with
  | zero =>
    obtain ⟨-, rfl⟩ := Step.pure_ok_iff.1 hok
    exact finished_of_left (Nat.le_zero.1 hk)
  | succ k ih =>
    unfold stepsUpTo at hok
    rw [Step.get_bind] at hok
    cases hf : s.finished with
    | true =>
      rw [hf, if_pos rfl] at hok
      obtain ⟨-, rfl⟩ := Step.pure_ok_iff.1 hok
      exact hf
    | false =>
      rw [hf, if_neg Bool.false_ne_true] at hok
      obtain ⟨⟨⟩, t, hstep, hrest⟩ := Step.bind_ok_iff.1 hok
      have hturn := step_turn hf hstep
      obtain ⟨new, ht⟩ := h.turn hturn
      have hless := hturn.left_lt h
      exact ih ht (by omega) hrest

/-- **A run ends.**  Whatever the solver answers, a run that does not fail ends in a state in which
    the loop has ended. -/
theorem run_ended (h : Tracks g live waiting log s) (hp : s.phase = .solve)
    (hok : run q s = .ok () s') : s'.finished = true := by
  unfold run at hok
  rw [Step.get_bind] at hok
  have hk : left s ≤ 3 * (s.pending.length + 2) := by
    unfold left
    rw [hp]
    show 3 * s.pending.length + 3 ≤ _
    omega
  exact stepsUpTo_ended h hk hok

end

/-! ## Loops over fractions -/

section

variable [Transcendental] {E : Type} [Engine E Rat] {n : Nat} {q : Quest Rat}

/-- A solution satisfies a constraint exactly if the point it is does. -/
theorem satisfied_true_iff (c : Constraint Rat n) (v : Vector Rat n) :
    satisfied c v.toList = .ok true ↔ c.Holds v := by
  unfold satisfied Constraint.Holds
  rw [dif_pos v.length_toList]
  rfl

/-- The states a loop can be in, whatever the solver answers. -/
inductive Reached (q : Quest Rat) (s₀ : Refinement E Rat n) : Refinement E Rat n → Prop
  | start : Reached q s₀ s₀
  | step {s s' : Refinement E Rat n} (h : Reached q s₀ s) (hs : step q s = .ok () s') :
      Reached q s₀ s'

theorem reached_iff {s₀ s : Refinement E Rat n} :
    Reached q s₀ s ↔ Relation.ReflTransGen (Leads q) s₀ s := by
  constructor
  · intro h
    induction h with
    | start => exact .refl
    | step _ hs ih => exact ih.tail hs
  · intro h
    induction h with
    | refl => exact .start
    | tail _ hs ih => exact ih.step hs

/-- What holds at the start and is kept by every turn holds of every state reached. -/
theorem Reached.inv {s₀ s : Refinement E Rat n} {I : Refinement E Rat n → Prop} (h0 : I s₀)
    (hturn : ∀ s s', I s → Turn q s s' → I s') (h : Reached q s₀ s) : I s :=
  inv_of_turns hturn h0 (turns_of_leads (reached_iff.1 h))

/-- A run that does not fail ends in a state that was reached. -/
theorem run_reached {s s' : Refinement E Rat n} (hok : run q s = .ok () s') : Reached q s s' :=
  reached_iff.2 (run_leads hok)

/-- **Every state reached is tracked.** -/
theorem Reached.tracks {g : Session.Ground Rat n} {live waiting log : List Nat}
    {s₀ s : Refinement E Rat n} (h : Reached q s₀ s) (h0 : Tracks g live waiting log s₀) :
    ∃ log', Tracks g live waiting log' s :=
  (h0.inv_of_turns (I := fun _ => True) trivial (fun _ _ _ => trivial)
    (turns_of_leads (reached_iff.1 h))).1

end

end Refinement

end Perturb
