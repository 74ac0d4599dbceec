/-
  What a state of the refinement loop remembers of its problem.

  `Tracks g live waiting log` says how a state relates to the problem it started from: `log` is the
  ledger of its session, which holds all live constraints and beyond them only deferred ones.  So
  the pending constraints are the deferred ones that are not in the ledger (`pending_eq`), and
  promoting some of them makes so many fewer pending (`promoted`).

  `left` is the measure that comes of it: three phases for every constraint still pending, and the
  rest of the present round.
-/
import Mathlib.Data.List.Perm.Basic
import Perturb.Proofs.Program.Ledger
import Perturb.Proofs.Constraint.Sets
import Perturb.Synthesis.Refinement

namespace Perturb

namespace Refinement

variable {E K : Type} {n : Nat}

/-! ## Tracking -/

section

variable [Scalar K]

/-- How a state relates to the problem it started from: `log` is its ledger, which holds all of
    `live` and beyond it only deferred constraints, which are `waiting`. -/
structure Tracks (g : Session.Ground K n) (live waiting log : List Nat) (s : Refinement E K n) :
    Prop where
  ledger : Session.Ledger g log s.session
  second : s.sets.nodes[1]? = some ⟨waiting, []⟩
  live_sub : ∀ i ∈ live, i ∈ log
  sub : ∀ i ∈ log, i ∈ live ∨ i ∈ waiting
  waiting_lt : ∀ i ∈ waiting, i < g.pool.length
  waiting_nodup : waiting.Nodup

namespace Tracks

variable {g : Session.Ground K n} {live waiting log : List Nat} {s t : Refinement E K n}

theorem deferred_eq (h : Tracks g live waiting log s) : s.deferred = waiting :=
  SetFamily.items_of_leaf h.second

/-- What is pending is deferred and not in the ledger. -/
theorem pending_eq (h : Tracks g live waiting log s) :
    s.pending = waiting.filter fun i => decide (i ∉ log) := by
  unfold pending
  rw [h.deferred_eq]
  refine List.filter_congr fun i _ => ?_
  by_cases hi : i ∈ log
  · rw [(h.ledger.isAdded_iff i).2 hi]
    simp [hi]
  · rw [Bool.eq_false_iff.2 fun hadded => hi ((h.ledger.isAdded_iff i).1 hadded)]
    simp [hi]

theorem mem_pending_iff (h : Tracks g live waiting log s) {i : Nat} :
    i ∈ s.pending ↔ i ∈ waiting ∧ i ∉ log := by
  rw [h.pending_eq, List.mem_filter, decide_eq_true_iff]

theorem pending_nodup (h : Tracks g live waiting log s) : s.pending.Nodup := by
  rw [h.pending_eq]
  exact h.waiting_nodup.filter _

/-- Changing neither the ledger nor the sets keeps track. -/
theorem congr (h : Tracks g live waiting log s) (hledger : Session.Ledger g log t.session)
    (hsets : t.sets = s.sets) : Tracks g live waiting log t :=
  ⟨hledger, hsets ▸ h.second, h.live_sub, h.sub, h.waiting_lt, h.waiting_nodup⟩

/-- A solver that was asked keeps track. -/
theorem asked (h : Tracks g live waiting log s) (engine : E)
    (hsession : t.session = { s.session with engine }) (hsets : t.sets = s.sets) :
    Tracks g live waiting log t :=
  h.congr (hsession ▸ h.ledger.congr rfl rfl (List.prefix_refl _) rfl rfl rfl) hsets

/-- Promoting pending constraints keeps track, and they are pending no longer. -/
theorem promoted (h : Tracks g live waiting log s) {new : List Nat} (hsub : new ⊆ s.pending)
    (hexp : Session.Ledger g (log ++ new) t.session)
    (hsets : t.sets.nodes[1]? = s.sets.nodes[1]?) :
    Tracks g live waiting (log ++ new) t ∧ t.pending.length + new.length ≤ s.pending.length := by
  have ht : Tracks g live waiting (log ++ new) t := by
    refine ⟨hexp, hsets.trans h.second, fun i hi => ?_, fun i hi => ?_, h.waiting_lt,
      h.waiting_nodup⟩
    · exact List.mem_append_left new (h.live_sub i hi)
    · rcases List.mem_append.1 hi with hi | hi
      · exact h.sub i hi
      · exact Or.inr (h.mem_pending_iff.1 (hsub hi)).1
  refine ⟨ht, ?_⟩
  have hpending : t.pending = s.pending.filter fun i => !decide (i ∈ new) := by
    rw [ht.pending_eq, h.pending_eq, List.filter_filter]
    refine List.filter_congr fun i _ => ?_
    by_cases hlog : i ∈ log <;> by_cases hnew : i ∈ new <;> simp [hlog, hnew]
  have hnew : new.length ≤ (s.pending.filter fun i => decide (i ∈ new)).length := by
    refine (List.subperm_of_subset (List.nodup_append.1 hexp.nodup).2.1 fun i hi => ?_).length_le
    exact List.mem_filter.2 ⟨hsub hi, decide_eq_true hi⟩
  have hsplit := List.length_eq_length_filter_add (l := s.pending) fun i => decide (i ∈ new)
  rw [hpending]
  omega

end Tracks

end

/-! ## The measure -/

theorem finished_iff {s : Refinement E K n} :
    s.finished = true ↔ s.phase = .done ∨ s.phase = .abort := by
  unfold finished
  cases s.phase <;> simp

/-- The phases left in a round. -/
def rank : Phase → Nat
  | .solve => 3
  | .validate => 2
  | .refine => 1
  | .done => 0
  | .abort => 0

/-- The most phases a loop can still go through: a round for every pending constraint, and the
    rest of this one. -/
def left (s : Refinement E K n) : Nat := 3 * s.pending.length + rank s.phase

theorem finished_of_left {s : Refinement E K n} (h : left s = 0) : s.finished = true := by
  rw [finished_iff]
  unfold left at h
  cases hp : s.phase with
  | done => exact Or.inl rfl
  | abort => exact Or.inr rfl
  | _ =>
    rw [hp] at h
    exact absurd h (Nat.succ_ne_zero _)

/-- A later phase of a round is nearer to the end, if nothing more is pending. -/
theorem left_lt_of_rank {s t : Refinement E K n} (hpending : t.pending.length ≤ s.pending.length)
    (hrank : rank t.phase < rank s.phase) : left t < left s := by
  unfold left
  omega

end Refinement

end Perturb
