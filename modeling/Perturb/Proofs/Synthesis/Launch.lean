/-
  How the loop of an attempt is launched.

  An attempt builds its problem, opens a session on it and starts the loop.  `Launch` names what the
  first two gave; nothing is assumed of the network, of the trace it is replayed along, of the
  solver or of the numbers.

  THE CRUX is `Launch.tracks`: a session that was opened has exported the current constraints, all
  of them, each once, in the order in which they are enumerated.  So the ledger of the first state
  IS the enumeration of the current set, and the loop starts in a state that is tracked.

  An attempt that gives a result skipped its input, or was launched and went through its loop
  (`run_launched`).
-/
import Perturb.Proofs.Layer.Remainder
import Perturb.Proofs.Synthesis.Problem
import Perturb.Proofs.Synthesis.Tracking
import Perturb.Synthesis.Attempt

namespace Perturb

namespace Attempt

variable {E K S : Type} [Exponential K] [Engine E K] [Source S K]

/-- A session that was opened was begun first, and has exported the current constraints, if the
    ledger it began with was empty. -/
theorem openSession_ok {n : Nat} {settings : Settings K} {origin : List K} {p : Problem K n}
    {s₀ s : Session E K n} (hcur : ∀ i ∈ p.current, i < p.pool.length) (hnodup : p.current.Nodup)
    (h : openSession settings origin p s₀ = .ok () s) :
    ∃ s₁, Session.begin origin settings.epsilon settings.minValue settings.maxValue
        settings.integrality s₀ = .ok () s₁ ∧
      ∀ g : Session.Ground K n, g.pool = p.pool → Session.Ledger g [] s₁ →
        Session.Ledger g p.current s := by
  unfold openSession at h
  obtain ⟨⟨⟩, s₁, hbegin, h⟩ := Step.bind_ok_iff.1 h
  obtain ⟨count, s₂, hall, h⟩ := Step.bind_ok_iff.1 h
  refine ⟨s₁, hbegin, fun g hpool h₁ => ?_⟩
  have h₂ : Session.Ledger g ([] ++ p.current) s₂ :=
    h₁.exportAll_new (hpool ▸ hcur) (fun _ _ => List.not_mem_nil) hnodup hall
  cases hobj : p.objective with
  | none =>
    rw [hobj] at h
    exact (Step.pure_ok_iff.1 h).2 ▸ h₂
  | some o =>
    rw [hobj] at h
    exact h₂.setObjective h

/-- The program of a session that was opened has the objective of its problem, on a row that lists
    the coefficients of the term. -/
theorem openSession_objective {n : Nat} {settings : Settings K} {origin : List K}
    {p : Problem K n} {o : Objective K n} {s₀ s : Session E K n} (hobj : p.objective = some o)
    (h : openSession settings origin p s₀ = .ok () s) :
    ∃ row, s.program.objective = some (row, o.goal) ∧
      (s.program.rowAt row).coeffs = o.term.rowEntries := by
  unfold openSession at h
  obtain ⟨⟨⟩, s₁, -, h⟩ := Step.bind_ok_iff.1 h
  obtain ⟨count, s₂, -, h⟩ := Step.bind_ok_iff.1 h
  rw [hobj] at h
  obtain ⟨engine, rfl⟩ := Session.setObjective_ok h
  refine ⟨Int.ofNat s₂.program.rows.length, rfl, ?_⟩
  have hlast : (s₂.program.rows ++ [⟨"objective", o.term.rowEntries⟩])[s₂.program.rows.length]? =
      some ⟨"objective", o.term.rowEntries⟩ := List.getElem?_concat_length
  rw [Program.rowAt_ofNat hlast]

omit [Engine E K] in
/-- A session whose ledger is the enumeration of the current constraints lets the loop start in a
    state that is tracked. -/
theorem tracks_start {n : Nat} {g : Session.Ground K n} {p : Problem K n} {waiting : List Nat}
    {apart : Bool} {s : Session E K n} (harr : p.Arranged waiting apart) (hpool : g.pool = p.pool)
    (hledger : Session.Ledger g p.current s) :
    Refinement.Tracks g p.current waiting p.current (Refinement.start s p.sets) where
  ledger := hledger
  second := harr.second
  live_sub _ hi := hi
  sub _ hi := Or.inl hi
  waiting_lt _ hi := hpool ▸ harr.deferred_lt hi
  waiting_nodup := harr.nodup_waiting

/-- The problem of an attempt at a cropped input, and the session it was opened with. -/
structure Launch (net : Net K) (settings : Settings K) (origin : List K) (trace : Trace)
    (label target : Int) (draws : S) (p : Problem K (net.inDim + 1))
    (s : Session E K (net.inDim + 1)) : Prop where
  built : Problem.build net settings origin trace label target draws = .ok p
  opened : ∃ engine, openSession settings origin p (Session.fresh engine origin.length p.pool) =
    .ok () s

/-- What stays fixed in the session of a problem that was opened. -/
def ground {n : Nat} (origin : List K) (p : Problem K n) (s : Session E K n) :
    Session.Ground K n := ⟨origin.length, s.program.vars, p.pool⟩

namespace Launch

variable {net : Net K} {settings : Settings K} {origin : List K} {trace : Trace}
  {label target : Int} {draws : S} {p : Problem K (net.inDim + 1)}
  {s : Session E K (net.inDim + 1)}

/-- The problem is arranged; the two sets are kept apart if the deferred constraints are to wait. -/
theorem arranged (h : Launch net settings origin trace label target draws p s) :
    p.Arranged p.deferred settings.lazy := by
  obtain ⟨outs, r, leads, lift, -, -, -, -, harr⟩ := Problem.build_ok h.built
  rw [harr.deferred_eq]
  exact harr

/-- Everything in the pool is as it was first made. -/
theorem fresh (h : Launch net settings origin trace label target draws p s) :
    ∀ c ∈ p.pool, c.Fresh := by
  obtain ⟨outs, r, leads, lift, hreplay, hleads, hlift, hpool, -⟩ := Problem.build_ok h.built
  rw [hpool]
  exact Problem.pool_fresh (Net.replay_fresh hreplay) hleads hlift

/-- **The first ledger** is the enumeration of the current set; and there is a variable for every
    pixel and one more. -/
theorem ledger (h : Launch net settings origin trace label target draws p s) :
    Session.Ledger (ground origin p s) p.current s ∧ s.program.vars.length = net.inDim + 1 := by
  obtain ⟨engine, hopen⟩ := h.opened
  obtain ⟨s₁, hbegin, hall⟩ := openSession_ok (fun i hi => h.arranged.current_lt hi)
    h.arranged.nodup_current hopen
  have hbegun := Session.begun_of_begin hbegin
  have hledger := hall ⟨origin.length, s₁.program.vars, p.pool⟩ rfl
    (hbegun.ledger rfl fun c hc => (h.fresh c hc).1)
  have hvars : s.program.vars = s₁.program.vars := hledger.vars_eq
  unfold ground
  rw [hvars]
  exact ⟨hledger, hbegun.length_vars⟩

/-- **The loop starts in a state that is tracked.** -/
theorem tracks (h : Launch net settings origin trace label target draws p s) :
    Refinement.Tracks (ground origin p s) p.current p.deferred p.current
      (Refinement.start s p.sets) :=
  tracks_start h.arranged rfl h.ledger.1

end Launch

/-! ## The parts of an attempt -/

section

variable {F : Type} {net : Net K} {settings : Settings K} {lab : Labelled K} {trueLabel : Int}

/-- An input that is not skipped has the true label. -/
theorem label_of_skip? (h : skip? settings lab trueLabel = none) :
    trueLabel = Int.ofNat lab.label := by
  unfold skip? at h
  by_contra hne
  rw [if_pos hne] at h
  cases h

/-- Writing back keeps what was not found. -/
theorem restored_of_not_found {datum : List K} {r r' : AttemptResult K}
    (hnot : r.verdict ≠ .found) (h : restored net datum r = .ok r') : r' = r := by
  unfold restored at h
  split at h
  · rename_i hfound _ _
    exact absurd hfound hnot
  · exact (Except.ok.inj h).symm

/-- **The parts of an attempt.**  An attempt that gives a result skipped its input, or was launched
    and went through its loop. -/
theorem run_launched {trace : Trace} {create : F → List (Event K) × Outcome E × F} {factory : F}
    {draws : Outcome S} {r : AttemptResult K}
    (h : (run net settings lab trueLabel trace create factory draws).1.result = .ok r) :
    (∃ reason event, skip? settings lab trueLabel = some (reason, event) ∧
      r = ⟨.skipped, reason, 0, 0, none, none⟩) ∨
    ∃ (d : S) (origin : List K) (p : Problem K (net.inDim + 1))
      (s : Session E K (net.inDim + 1)) (t : Refinement E K (net.inDim + 1)),
      skip? settings lab trueLabel = none ∧ draws = .ok d ∧ net.cropped lab.datum = .ok origin ∧
      Launch net settings origin trace (Int.ofNat lab.label) (Int.ofNat lab.second) d p s ∧
      Refinement.run ⟨net, settings, Int.ofNat lab.second, trueLabel⟩
        (Refinement.start s p.sets) = .ok () t ∧
      restored net lab.datum (resultOf t) = .ok r ∧
      (run net settings lab trueLabel trace create factory draws).1.told =
        some (t.session.program, t.session.engine) := by
  unfold run at h ⊢
  cases hskip : skip? settings lab trueLabel with
  | some found =>
    obtain ⟨reason, event⟩ := found
    simp only [hskip] at h
    cases h
    exact Or.inl ⟨reason, event, rfl, rfl⟩
  | none =>
    refine Or.inr ?_
    simp only [hskip] at h ⊢
    cases hbuilt : (do
        let draws ← draws
        let origin ← net.cropped lab.datum
        let p ← Problem.build net settings origin trace (Int.ofNat lab.label)
          (Int.ofNat lab.second) draws
        Except.ok (origin, p) : Outcome (List K × Problem K (net.inDim + 1))) with
    | error e =>
      simp only [hbuilt] at h
      cases h
    | ok found =>
      obtain ⟨d, hd, hrest⟩ := Outcome.bind_ok_iff.1 hbuilt
      obtain ⟨origin, horigin, hrest⟩ := Outcome.bind_ok_iff.1 hrest
      obtain ⟨p, hp, hrest⟩ := Outcome.bind_ok_iff.1 hrest
      cases hrest
      simp only [hbuilt] at h ⊢
      rcases hcreate : create factory with ⟨events, engine, factory'⟩
      cases engine with
      | error e =>
        simp only [hcreate] at h
        cases h
      | ok engine =>
        simp only [hcreate] at h ⊢
        cases hopen : openSession settings origin p (Session.fresh engine origin.length p.pool) with
        | error e s =>
          simp only [hopen] at h
          cases h
        | ok u s =>
          simp only [hopen] at h ⊢
          cases hrun : Refinement.run ⟨net, settings, Int.ofNat lab.second, trueLabel⟩
              (Refinement.start s p.sets) with
          | error e t =>
            simp only [hrun] at h
            cases h
          | ok u t =>
            simp only [hrun] at h ⊢
            exact ⟨d, origin, p, s, t, trivial, hd, horigin, ⟨hp, engine, hopen⟩, hrun, h, rfl⟩

end

end Attempt

end Perturb
