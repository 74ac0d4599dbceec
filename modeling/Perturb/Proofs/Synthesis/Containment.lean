/-
  Which faults a batch survives.

  A fault of labelling an item or of searching a counterexample for it is contained: the item is
  counted as processed and as an error, nothing else is heard of it, and the next item is attempted
  as if nothing had happened.  Not contained is a fault that comes before the attempt: of the
  dataset, when the item is fetched, or of the draws, when they are set up.

  1. **What is contained** — `Contained` says what a batch reports if some of its visits failed.

  2. **The law** — `run_contains_faults`: a batch whose items can all be fetched returns, whatever
     the attempts, the solvers and their creation do, unless some fault is a mismatch; and if items
     cannot be fetched it ends at the first of them, with its fault, after the items before it.  THE
     CRUX is `run_cases`: without a listener there is no other way to end.

  3. **A seed below zero** — the draws of the first item cannot be set up, and the batch ends before
     any item is processed (`run_stops_at_seed`).
-/
import Perturb.Proofs.Synthesis.Accounts
import Perturb.Random.Pcg

namespace Perturb

namespace Batch

/-! ## What is contained -/

section

variable {K : Type} [Scalar K]

/-- The attempt of a visit gave no result. -/
def Visit.Failed {K : Type} (v : Visit K) : Prop := ∃ e, v.answer = .error e

instance {K : Type} (v : Visit K) : Decidable v.Failed :=
  match hanswer : v.answer with
  | .error e => isTrue ⟨e, hanswer⟩
  | .ok _ => isFalse fun ⟨_, h⟩ => by cases hanswer.symm.trans h

/-- What a batch reports is what it has visited: every visit is counted as processed, and the
    visits that failed as errors; and there is nothing else of them in the counters, among the
    results, or in the table of differences. -/
structure Contained (visits : List (Visit K)) (b b' : Batch K) : Prop where
  books : Books visits b b'
  processed : b'.stats.processed = b.stats.processed + visits.length
  errored : b'.stats.errored = b.stats.errored + visits.countP fun v => v.Failed
  silent : ∀ v ∈ visits, v.Failed →
    v.hit? = none ∧ v.share = { Stats.zero with processed := 1, errored := 1 }

/-- As many ones as there are entries with a property. -/
theorem sum_ite {α : Type} (p : α → Prop) [DecidablePred p] (xs : List α) :
    (xs.map fun x => if p x then (1 : Int) else 0).sum = xs.countP fun x => p x := by
  induction xs with
  | nil => rfl
  | cons x xs ih =>
    rw [List.map_cons, List.sum_cons, ih, List.countP_cons]
    by_cases h : p x
    · simp only [if_pos h, decide_eq_true h, if_true]
      omega
    · simp only [if_neg h, decide_eq_false h]
      simp

/-- An error is counted exactly for a visit that failed. -/
theorem Visit.share_errored {K : Type} (v : Visit K) :
    v.share.errored = if v.Failed then 1 else 0 := by
  rw [v.counted_share.errored]
  cases hanswer : v.answer with
  | error e =>
    have hfailed : v.Failed := ⟨e, hanswer⟩
    rw [if_pos hfailed]
    rfl
  | ok found =>
    have hnot : ¬ v.Failed := fun ⟨e, h⟩ => by cases hanswer.symm.trans h
    rw [if_neg hnot]
    rfl

/-- What the books say of visits, some of which failed. -/
theorem Books.contained {visits : List (Visit K)} {b b' : Batch K} (h : Books visits b b') :
    Contained visits b b' where
  books := h
  processed := h.counter_of_one (f := Stats.processed) (fun _ _ => rfl)
    fun v _ => v.counted_share.processed
  errored := by
    rw [h.counter (f := Stats.errored) (fun _ _ => rfl) fun v _ => v.share_errored, sum_ite]
  silent := by
    rintro v - ⟨e, hanswer⟩
    constructor
    · unfold Visit.hit?
      rw [hanswer]
    · unfold Visit.share
      rw [hanswer]

end

/-! ## The law -/

section

variable {E S F K : Type} [Exponential K] [Engine E K] [Source S K] {plan : Plan E S F K}
  {ds : Dataset K} {count : Int} {factory : F}

/-- No item up to a bound, attempted with the solvers that the visits before it have left, fails
    with a mismatch. -/
def NoMismatch (plan : Plan E S F K) (ds : Dataset K) (factory : F) (bound : Nat) : Prop :=
  ∀ i < bound, ∀ visits f, Visits plan ds factory visits f →
    visits.map Visit.index = List.range i → ∀ datum trueLabel draws events e f',
      fetch plan ds i = .ok (datum, trueLabel, draws) →
      attempt plan datum trueLabel draws f = (events, .error e, f') → e.kind ≠ .mismatch

/-- Items that were visited could be fetched. -/
theorem fetch_of_visits {visits : List (Visit K)} {f : F} (h : Visits plan ds factory visits f)
    {i : Nat} (hi : i ∈ visits.map Visit.index) : ∃ x, fetch plan ds i = .ok x := by
  obtain ⟨v, hv, rfl⟩ := List.mem_map.1 hi
  obtain ⟨g, g', datum, draws, events, hfetch, -⟩ := h.exists_visited hv
  exact ⟨_, hfetch⟩

/-- Without a listener and without a mismatch, a batch visits the items that were asked for, all of
    them, or those before the first one that cannot be fetched. -/
theorem run_visits (hcount : itemCount plan.settings ds = .ok count)
    (hmatch : NoMismatch plan ds factory count.toNat) {b : Batch K} (hb : b.listener = none) :
    ∃ visits b' f', Visits plan ds factory visits f' ∧ Books visits b b' ∧
      visits.map Visit.index = List.range visits.length ∧
      ((visits.length = count.toNat ∧ run plan ds (b, factory) = .ok () (b', f')) ∨
        (visits.length < count.toNat ∧ ∃ e, fetch plan ds visits.length = .error e ∧
          run plan ds (b, factory) = .error e (b', f'))) := by
  obtain ⟨visits, f', b', hvisits, hbooks, hindices, hend⟩ := run_cases hcount b factory
  rcases hend with ⟨hlength, hok⟩ | ⟨hlt, e, s, hhalts, herror⟩
  · exact ⟨visits, _, f', hvisits, hbooks.log, hindices, Or.inl ⟨hlength, hok⟩⟩
  · cases hhalts with
    | unfetched hfetch =>
      exact ⟨visits, b', f', hvisits, hbooks, hindices, Or.inr ⟨hlt, e, hfetch, herror⟩⟩
    | mismatch hfetch hattempt hkind =>
      exact absurd hkind (hmatch _ hlt visits f' hvisits hindices _ _ _ _ e _ hfetch hattempt)
    | unheard _ _ _ _ hl _ =>
      have hrel := hbooks.listener
      rw [hb, hl] at hrel
      cases hrel

/-- **Faults are contained.**  Take a batch without a listener, none of whose items fails with a
    mismatch.

    * If every item asked for can be fetched, the batch returns: it has attempted all of them, in
      their order, and reports each of them; those that failed are counted and nothing else.
    * If some cannot, it ends at the first of them, with the fault of fetching it: it has attempted
      the items before it, and what it reports of those is lost with it. -/
theorem run_contains_faults (hcount : itemCount plan.settings ds = .ok count)
    (hmatch : NoMismatch plan ds factory count.toNat) (folder : Folder K) :
    ((∀ i < count.toNat, ∃ x, fetch plan ds i = .ok x) →
      ∃ visits b factory', run plan ds (start none folder, factory) = .ok () (b, factory') ∧
        Visits plan ds factory visits factory' ∧
        visits.map Visit.index = List.range count.toNat ∧
        Contained visits (start none folder) b) ∧
    ∀ i e, i < count.toNat → fetch plan ds i = .error e →
      (∀ j < i, ∃ x, fetch plan ds j = .ok x) →
      ∃ visits b factory', run plan ds (start none folder, factory) = .error e (b, factory') ∧
        Visits plan ds factory visits factory' ∧ visits.map Visit.index = List.range i ∧
        Contained visits (start none folder) b := by
  obtain ⟨visits, b, f', hvisits, hbooks, hindices, hend⟩ :=
    run_visits hcount hmatch (b := start none folder) rfl
  constructor
  case left =>
    intro hall
    rcases hend with ⟨hlength, hok⟩ | ⟨hlt, e, hfetch, -⟩
    · exact ⟨visits, b, f', hok, hvisits, hlength ▸ hindices, hbooks.contained⟩
    · obtain ⟨x, hx⟩ := hall _ hlt
      cases hfetch.symm.trans hx
  case right =>
    intro i e hi hfetch hbefore
    -- everything that was visited could be fetched, so the batch did not get past item `i`
    have hle : visits.length ≤ i := by
      by_contra hlt
      have hmem : i ∈ visits.map Visit.index := by
        rw [hindices, List.mem_range]
        omega
      obtain ⟨x, hx⟩ := fetch_of_visits hvisits hmem
      cases hfetch.symm.trans hx
    rcases hend with ⟨hlength, -⟩ | ⟨-, e', hfetch', herror⟩
    · omega
    · rcases Nat.lt_or_eq_of_le hle with hlt | rfl
      · obtain ⟨x, hx⟩ := hbefore _ hlt
        cases hfetch'.symm.trans hx
      · cases hfetch.symm.trans hfetch'
        exact ⟨visits, b, f', herror, hvisits, hindices, hbooks.contained⟩

end

/-! ### Batches to look at -/

namespace Ones

attribute [local instance] Transcendental.flat

/-- Three times the input one. -/
def right : Dataset Rat := ⟨.held [[1], [1], [1]], [0, 0, 0], 2, "ones", none⟩

/-- Every other solver cannot be created. -/
def flaky : Plan (Script Rat) (Cyclic Rat) Bool Rat where
  net := Net.Ramp.net
  settings := (plan 1).settings
  create refused :=
    ([], if refused then .error (.backendRefused "busy")
      else .ok (.of [.answer ⟨.optimal, some [-3 / 2, 0]⟩]), !refused)
  draws _ := .ok Attempt.Ramp.draws

theorem fetch_flaky {i : Nat} (hi : i < 3) :
    fetch flaky right i = .ok ([1], 0, Attempt.Ramp.draws) := by
  interval_cases i <;> rfl

/-- How an attempt on the input one fails, if it does. -/
def failure (refused : Bool) : Option Fault.Kind :=
  match (attempt flaky [1] 0 Attempt.Ramp.draws refused).2.1 with
  | .error e => some e.kind
  | .ok _ => none

theorem noMismatch_flaky : NoMismatch flaky right false 3 := by
  intro i hi visits f _ _ datum trueLabel draws events e f' hfetch hattempt hkind
  cases (fetch_flaky hi).symm.trans hfetch
  have hfailure : failure f = some .mismatch := by
    unfold failure
    rw [hattempt, ← hkind]
  cases f with
  | false =>
    have hnone : failure false = none := by cbv
    cases hnone.symm.trans hfailure
  | true =>
    have hunavailable : failure true = some .unavailable := by cbv
    cases hunavailable.symm.trans hfailure

/-- How many items were found and how many failed. -/
def outcome : Option (Int × Int) :=
  match run flaky right (start none [], false) with
  | .ok () (b, _) => some (b.stats.found, b.stats.errored)
  | .error _ _ => none

/-- The second solver cannot be created; the items before and behind are found. -/
theorem run_contains_faults_flaky : ∃ visits b refused,
    run flaky right (start none [], false) = .ok () (b, refused) ∧
      Visits flaky right false visits refused ∧ visits.map Visit.index = [0, 1, 2] ∧
      Contained visits (start none []) b ∧ b.stats.found = 2 ∧ b.stats.errored = 1 := by
  have hcount : itemCount flaky.settings right = .ok 3 := by cbv
  obtain ⟨visits, b, refused, hrun, hvisits, hindices, hcontained⟩ :=
    (run_contains_faults hcount noMismatch_flaky []).1 fun i hi => ⟨_, fetch_flaky hi⟩
  have hstats : outcome = some (2, 1) := by cbv
  unfold outcome at hstats
  rw [hrun] at hstats
  obtain ⟨hfound, herrored⟩ := Prod.mk.inj (Option.some.inj hstats)
  exact ⟨visits, b, refused, hrun, hvisits, hindices, hcontained, hfound, herrored⟩

/-- Every item draws from a seed of its own, counted from minus one. -/
def seeded : Plan (Script Rat) (Cyclic Rat) Nat Rat :=
  { plan 1 with draws := fun i => (Pcg.ofSeed (-1 + Int.ofNat i)).map fun _ => Attempt.Ramp.draws }

/-- **Nothing goes on behind a seed below zero.**  The draws of the first item cannot be set up,
    which is no mismatch, and those of the second one could; but the batch ends there, and no item
    has been processed. -/
theorem run_stops_at_seed : ∃ e, fetch seeded right 0 = .error e ∧ e.kind ≠ .mismatch ∧
    (∃ x, fetch seeded right 1 = .ok x) ∧
    run seeded right (start none [], 0) = .error e (start none [], 0) := by
  have hfetch : fetch seeded right 0 = .error .negativeSeed := rfl
  have hcount : itemCount seeded.settings right = .ok 3 := by cbv
  refine ⟨.negativeSeed, hfetch, by decide, ⟨_, rfl⟩, ?_⟩
  have hitem : item seeded right 3 0 (start none [], 0) =
      .error .negativeSeed (start none [], 0) := by
    unfold item
    rw [hfetch]
  have hitems : items seeded right 3 (indices right 3) (start none [], 0) =
      .error .negativeSeed (start none [], 0) := Step.bind_error hitem
  unfold run
  rw [hcount]
  dsimp only
  rw [hitems]

end Ones

end Batch

end Perturb
