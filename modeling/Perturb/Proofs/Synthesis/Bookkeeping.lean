/-
  The books of an attempt.

  The loop writes down in four places what is in the program: the rows the solver has bound, the
  number of rows the session has counted, the flag on each constraint, and the current set.  They
  are written one after the other and never compared.  `Balanced` says that they agree.

  1. **The invariant** — `Booked` says it in terms of one list, the constraints promoted so far:
     the ledger is the current constraints of the problem followed by it, the sets are those of the
     problem with it added, and its length is the number of promotions.  Every turn keeps that
     (`Booked.turn`), so it holds wherever the loop gets to, and the four records are read off it.

  2. **One round** — `Promotes` says what a round of promotions does if these and no other
     constraints are promoted: rows are bound behind those there are, one for each; flags, current
     set and count follow.  THE CRUX is `Booked.refined`: a step from `refine` promotes the first
     so many of the pending constraints that the solution violates.

  3. **The attempt** — `Launch.books_balance` puts it together.  Neither the solver, nor the
     network, nor the numbers are assumed to be anything in particular.
-/
import Perturb.Proofs.Synthesis.Attempt

namespace Perturb

namespace Refinement

variable {E K : Type} [Exponential K] {n : Nat}

/-! ## The records -/

/-- The records of what is in the program agree: there are as many bounds as rows were counted and
    as constraints are current; the bounds bear the current constraints one by one, on rows of
    their own, and no constraint is current twice; and the deferred constraints that are flagged
    are those that are current. -/
structure Balanced (g : Session.Ground K n) (t : Refinement E K n) : Prop where
  bounds : t.session.program.bounds.length = t.session.rowsAdded
  count : t.sets.count currentSet = t.session.rowsAdded
  bears : ∃ order : List Nat, order.Perm t.current ∧
    List.Forall₂ (fun i b => t.session.program.Bears (g.constraint i) b) order
      t.session.program.bounds
  rows_nodup : (t.session.program.bounds.map (·.row)).Nodup
  nodup : t.current.Nodup
  flagged : ∀ i ∈ t.deferred, t.session.isAdded i = true ↔ i ∈ t.current

/-- A step promoted exactly the constraints of a list: it bound rows for them, in this order,
    behind those there were, flagged them, made them current and counted them; and the loop goes on
    if there were any. -/
structure Promotes (g : Session.Ground K n) (new : List Nat) (t t' : Refinement E K n) :
    Prop where
  bounds : ∃ more, t'.session.program.bounds = t.session.program.bounds ++ more ∧
    List.Forall₂ (fun i b => t'.session.program.Bears (g.constraint i) b) new more
  flags : ∀ i, t'.session.isAdded i = true ↔ t.session.isAdded i = true ∨ i ∈ new
  current : ∀ i, i ∈ t'.current ↔ i ∈ t.current ∨ i ∈ new
  promoted : t'.promoted = t.promoted + new.length
  phase : t'.phase = if new = [] then .abort else .solve

/-! ## The invariant -/

/-- The books of a state whose loop started on a problem and has promoted the constraints `new`. -/
structure Booked (g : Session.Ground K n) (p : Problem K n) (new : List Nat)
    (t : Refinement E K n) : Prop where
  tracks : Tracks g p.current p.deferred (p.current ++ new) t
  sets : t.sets = p.sets.addAll currentSet new
  promoted : t.promoted = new.length

namespace Booked

variable {g : Session.Ground K n} {p : Problem K n} {new more : List Nat} {s t : Refinement E K n}
  {apart : Bool}

/-- The current set of the problem comes in two pieces, and what was promoted is between them. -/
theorem exists_split (harr : p.Arranged p.deferred apart) :
    ∃ own others, p.current = own ++ others ∧
      ∀ {new : List Nat} {t : Refinement E K n}, Booked g p new t →
        t.current = own ++ new ++ others := by
  obtain ⟨own, refs, hstar, -, -⟩ := harr.star
  refine ⟨own, refs.flatMap p.sets.ownOf, hstar.items_eq, fun {new t} h => ?_⟩
  unfold Refinement.current
  rw [h.sets]
  exact hstar.items_addAll new

/-- The ledger lists what is current, in another order. -/
theorem perm_current (h : Booked g p new t) (harr : p.Arranged p.deferred apart) :
    (p.current ++ new).Perm t.current := by
  obtain ⟨own, others, hp, ht⟩ := exists_split (E := E) (g := g) harr
  -- promotions come before the formulas in the enumeration and behind them in the ledger
  rw [hp, ht h, List.append_assoc, List.append_assoc]
  exact List.perm_append_comm.append_left own

theorem mem_current_iff (h : Booked g p new t) (harr : p.Arranged p.deferred apart) {i : Nat} :
    i ∈ t.current ↔ i ∈ p.current ++ new := (h.perm_current harr).mem_iff.symm

/-- What is current stays current, and in its order. -/
theorem current_sublist (hs : Booked g p new s) (ht : Booked g p (new ++ more) t)
    (harr : p.Arranged p.deferred apart) : s.current.Sublist t.current := by
  obtain ⟨own, others, -, hcurrent⟩ := exists_split (E := E) (g := g) harr
  rw [hcurrent hs, hcurrent ht]
  exact ((List.sublist_append_left new more).append_left own).append_right others

/-- **The records agree.** -/
theorem balanced (h : Booked g p new t) (harr : p.Arranged p.deferred apart) : Balanced g t where
  bounds := h.tracks.ledger.length_bounds.trans h.tracks.ledger.count.symm
  count := by
    rw [h.tracks.ledger.count, SetFamily.count_eq_length_items]
    exact (h.perm_current harr).length_eq.symm
  bears := ⟨_, h.perm_current harr, h.tracks.ledger.bears⟩
  rows_nodup := h.tracks.ledger.rows_nodup
  nodup := (h.perm_current harr).nodup_iff.1 h.tracks.ledger.nodup
  flagged i _ := by rw [h.tracks.ledger.isAdded_iff, h.mem_current_iff harr]

/-- With the two sets apart, what was promoted are the deferred constraints that are flagged. -/
theorem perm_flagged (h : Booked g p new t) (harr : p.Arranged p.deferred true) :
    new.Perm (t.deferred.filter fun i => t.session.isAdded i) := by
  rw [h.tracks.deferred_eq]
  obtain ⟨-, hnodup, -⟩ := List.nodup_append.1 h.tracks.ledger.nodup
  refine (List.perm_ext_iff_of_nodup hnodup (h.tracks.waiting_nodup.filter _)).2 fun i => ?_
  rw [List.mem_filter, h.tracks.ledger.isAdded_iff, List.mem_append]
  constructor
  · intro hi
    -- nothing is in the ledger twice, so what was promoted was not current at the start
    have hnot : i ∉ p.current := fun hcurrent =>
      (List.nodup_append.1 h.tracks.ledger.nodup).2.2 i hcurrent i hi rfl
    have hsub := h.tracks.sub i (List.mem_append_right _ hi)
    exact ⟨hsub.resolve_left hnot, Or.inr hi⟩
  · rintro ⟨hi, hcurrent | hnew⟩
    · exact absurd hi (harr.disjoint hcurrent)
    · exact hnew

/-- With the two sets united, nothing is left to be promoted. -/
theorem eq_nil (h : Booked g p new t) (harr : p.Arranged p.deferred false) : new = [] := by
  refine List.eq_nil_iff_forall_not_mem.2 fun i hi => ?_
  have hcurrent : i ∈ p.current := by
    rcases h.tracks.sub i (List.mem_append_right _ hi) with hi | hi
    · exact hi
    · exact harr.joined hi
  exact (List.nodup_append.1 h.tracks.ledger.nodup).2.2 i hcurrent i hi rfl

/-- What was promoted between two states, if the bounds of the first are still there. -/
theorem promotes (hs : Booked g p new s) (ht : Booked g p (new ++ more) t)
    (harr : p.Arranged p.deferred apart)
    (hbounds : s.session.program.bounds <+: t.session.program.bounds)
    (hphase : t.phase = if more = [] then .abort else .solve) : Promotes g more s t where
  bounds := by
    obtain ⟨rest, hrest⟩ := hbounds
    refine ⟨rest, hrest.symm, ?_⟩
    -- the ledger lists what was promoted last, and as many bounds as entries were there before it
    have hbears := ht.tracks.ledger.bears
    rw [← hrest, ← List.append_assoc] at hbears
    have hlen := hs.tracks.ledger.length_bounds
    have hdrop := List.forall₂_drop (p.current ++ new).length hbears
    rwa [List.drop_left, List.drop_left' hlen] at hdrop
  flags i := by
    rw [ht.tracks.ledger.isAdded_iff, hs.tracks.ledger.isAdded_iff, ← List.append_assoc,
      List.mem_append]
  current i := by
    rw [ht.mem_current_iff harr, hs.mem_current_iff harr, ← List.append_assoc, List.mem_append]
  promoted := by rw [ht.promoted, hs.promoted, List.length_append]
  phase := hphase

variable [Engine E K] {q : Quest K}

/-- A round of promotions keeps the books, and the bounds there are. -/
theorem round (h : Booked g p new s) {order : List Nat} (ho : order.Perm s.pending) {x : List K}
    {added : Nat} (hok : promoteViolated q x 0 order s = .ok added t) (u : Refinement E K n)
    (hsession : u.session = t.session) (hsets : u.sets = t.sets)
    (hpromoted : u.promoted = t.promoted + added) :
    ∃ more, more = chosen q (fun i => violated (g.constraint i) x) 0 order ∧ more.length = added ∧
      Booked g p (new ++ more) u ∧ s.session.program.bounds <+: u.session.program.bounds := by
  obtain ⟨more, hmore, hlen, ht, -, hexports, hadded, heq⟩ := h.tracks.promoteViolated ho hok
  rw [List.append_assoc] at ht
  refine ⟨more, hmore, hlen, ⟨ht.congr (hsession ▸ ht.ledger) hsets, ?_, ?_⟩,
    hsession ▸ hexports.prefix_bounds⟩
  · rw [hsets, hadded, h.sets, SetFamily.addAll_append]
  · rw [hpromoted, congrArg Refinement.promoted heq, h.promoted, List.length_append, hlen]

/-- **Every turn keeps the books.** -/
theorem turn (h : Booked g p new s) (hturn : Turn q s t) : ∃ more, Booked g p (new ++ more) t := by
  have hsame : ∀ {t : Refinement E K n}, Session.Ledger g (p.current ++ new) t.session →
      t.sets = s.sets → t.promoted = s.promoted → ∃ more, Booked g p (new ++ more) t :=
    fun hledger hsets hpromoted => ⟨[], by
      rw [List.append_nil]
      exact ⟨h.tracks.congr hledger hsets, hsets.trans h.sets, hpromoted.trans h.promoted⟩⟩
  have hasked : ∀ engine : E,
      Session.Ledger g (p.current ++ new) { s.session with engine := engine } := fun engine =>
    h.tracks.ledger.congr rfl rfl (List.prefix_refl _) rfl rfl rfl
  -- only the two ways out of a refinement write anything down
  cases hturn with
  | cap hp hcap => exact hsame h.tracks.ledger rfl rfl
  | unsolved hp hcap hs hx => exact hsame (hasked _) rfl rfl
  | solved hp hcap hs hx => exact hsame (hasked _) rfl rfl
  | rejected hp hl hs => exact hsame h.tracks.ledger rfl rfl
  | accepted hp hl hs => exact hsame h.tracks.ledger rfl rfl
  | @stuck t _ hp ho hok =>
    obtain ⟨more, -, -, ht, -⟩ := h.round ho hok (t.giveUp .nothingViolated) rfl rfl rfl
    exact ⟨more, ht⟩
  | @refined t _ added hp ho hok h0 =>
    obtain ⟨more, -, -, ht, -⟩ :=
      h.round ho hok { t with promoted := t.promoted + added, phase := .solve } rfl rfl rfl
    exact ⟨more, ht⟩

/-- Wherever turns lead, the books are kept. -/
theorem of_turns (h : Booked g p new s) (hst : Relation.ReflTransGen (Turn q) s t) :
    ∃ more, Booked g p (new ++ more) t := by
  refine inv_of_turns (I := fun t => ∃ more, Booked g p (new ++ more) t) ?_
    ⟨[], by rwa [List.append_nil]⟩ hst
  rintro u v ⟨more, hu⟩ hturn
  obtain ⟨more', hv⟩ := hu.turn hturn
  exact ⟨more ++ more', by rwa [← List.append_assoc]⟩

/-- **A refinement** promotes the first so many pending constraints that the solution violates. -/
theorem refined (h : Booked g p new s) (harr : p.Arranged p.deferred apart) {x : List K}
    (hp : s.phase = .refine) (hx : s.solution = some x) {m : Nat}
    (hm : Scalar.Counts q.settings.maxPromotions m) (hst : Leads q s t) :
    Promotes g ((s.pending.filter fun i => violated (g.constraint i) x).take m) s t := by
  have hrefine : refineStep q s = .ok () t := by
    unfold Leads step at hst
    rw [Step.get_bind, hp] at hst
    exact hst
  unfold refineStep at hrefine
  rw [Step.get_bind] at hrefine
  obtain ⟨added, u, hok, hlast⟩ := Step.bind_ok_iff.1 hrefine
  -- both ways out of a refinement leave session and sets alone
  have hround : ∀ phase reason, t = { u with promoted := u.promoted + added, phase, reason } →
      phase = (if added = 0 then .abort else .solve) →
      Promotes g ((s.pending.filter fun i => violated (g.constraint i) x).take m) s t := by
    rintro phase reason rfl hphase
    obtain ⟨more, hmore, hlen, ht, hbounds⟩ := h.round (List.Perm.refl _) hok
      { u with promoted := u.promoted + added, phase, reason } rfl rfl rfl
    rw [chosen_eq_take hm, hx] at hmore
    simp only [← hlen, List.length_eq_zero_iff] at hphase
    exact hmore ▸ h.promotes ht harr hbounds hphase
  by_cases h0 : added = 0
  · subst h0
    cases hlast
    exact hround .abort .nothingViolated rfl rfl
  · rw [if_neg h0] at hlast
    cases hlast
    exact hround .solve u.reason rfl (if_neg h0).symm

end Booked

end Refinement

/-! ## The attempt -/

namespace Attempt

section

variable {E K S : Type} [Exponential K] [Engine E K] [Source S K] {q : Quest K} {origin : List K}
  {trace : Trace} {label : Int} {draws : S} {p : Problem K (q.net.inDim + 1)}
  {s : Session E K (q.net.inDim + 1)}

/-- The books are in order when the loop starts. -/
theorem Launch.booked (h : Launch q.net q.settings origin trace label q.target draws p s) :
    Refinement.Booked (ground origin p s) p [] (Refinement.start s p.sets) where
  tracks := by
    rw [List.append_nil]
    exact h.tracks
  sets := rfl
  promoted := rfl

/-- Writing vectors back into the image changes no count. -/
theorem counts_of_restored {net : Net K} {datum : List K} {r r' : AttemptResult K}
    (h : restored net datum r = .ok r') :
    r'.iterations = r.iterations ∧ r'.promoted = r.promoted := by
  unfold restored at h
  split at h
  · obtain ⟨full, -, h⟩ := Outcome.bind_ok_iff.1 h
    obtain ⟨unrounded, -, h⟩ := Outcome.bind_ok_iff.1 h
    cases h
    exact ⟨rfl, rfl⟩
  · cases h
    exact ⟨rfl, rfl⟩

/-- **The books balance.**  Whatever the solver answers, wherever the loop of an attempt gets to:

    * the records of what is in the program agree, the deferred constraints are still those of the
      problem, and no step takes a constraint out of the current set;
    * a refinement promotes, in the order in which they are deferred, the first so many of the
      pending constraints that the solution violates, and no other; it goes through if the solver
      refuses nothing and the solution has a value for every variable;
    * with laziness, the count of promotions is that of the deferred constraints that are flagged,
      and of the rows bound since the start; without it, every deferred constraint was bound before
      the first solve and nothing is ever promoted;
    * the count of promotions is the one in the result. -/
theorem Launch.books_balance
    (h : Launch q.net q.settings origin trace label q.target draws p s)
    {t : Refinement E K (q.net.inDim + 1)}
    (ht : Relation.ReflTransGen (Refinement.Leads q) (Refinement.start s p.sets) t) :
    Refinement.Balanced (ground origin p s) t ∧ t.deferred = p.deferred ∧
    (∀ t', Refinement.Leads q t t' → t.current.Sublist t'.current) ∧
    (t.phase = .refine → ∃ x, t.solution = some x ∧
      (∀ m, Scalar.Counts q.settings.maxPromotions m → ∀ t', Refinement.Leads q t t' →
        Refinement.Promotes (ground origin p s) ((t.pending.filter fun i =>
          Refinement.violated ((ground origin p s).constraint i) x).take m) t t') ∧
      ((∀ (e : E) (c : Command K), (Engine.receive e c).1 = .ok ()) →
        x.length = q.net.inDim + 1 → ∃ t', Refinement.Leads q t t')) ∧
    (q.settings.lazy = true →
      t.promoted = (t.deferred.filter fun i => t.session.isAdded i).length ∧
      t.session.program.bounds.length = s.program.bounds.length + t.promoted) ∧
    (q.settings.lazy = false →
      (∀ i ∈ p.deferred, s.isAdded i = true ∧
        ∃ b ∈ s.program.bounds, s.program.Bears ((ground origin p s).constraint i) b) ∧
      t.promoted = 0) ∧
    ∀ datum r, restored q.net datum (resultOf t) = .ok r → r.promoted = t.promoted := by
  have harr := h.arranged
  have hturns := Refinement.turns_of_leads ht
  obtain ⟨new, hbooked⟩ := h.booked.of_turns hturns
  have hbooked : Refinement.Booked (ground origin p s) p new t := hbooked
  refine ⟨hbooked.balanced harr, hbooked.tracks.deferred_eq, ?kept, ?refined, ?lazy, ?eager,
    fun datum r hr => (counts_of_restored hr).2⟩
  case kept =>
    intro t' hstep
    cases hf : t.finished with
    | true => rw [Refinement.step_finished hf hstep]
    | false =>
      obtain ⟨more, ht'⟩ := hbooked.turn (Refinement.step_turn hf hstep)
      exact hbooked.current_sublist ht' harr
  case refined =>
    intro hp
    have hsolved : Refinement.Solved (fun _ => True) t :=
      Refinement.inv_of_turns (fun _ _ hs hturn => hs.turn (fun _ _ _ _ _ => trivial) hturn)
        (Refinement.Solved.start _ s p.sets) hturns
    obtain ⟨x, hx, -⟩ := hsolved (Or.inr hp)
    have hf : t.finished = false := by
      unfold Refinement.finished
      rw [hp]
    refine ⟨x, hx, fun m hm t' hstep => hbooked.refined harr hp hx hm hstep, fun ha hlen => ?_⟩
    refine Refinement.step_succeeds ha h.fresh hbooked.tracks hf (fun hsolve => ?_)
      (fun hvalidate => ?_) (fun _ => by rw [hx]; exact hlen)
    · exact absurd (hp.symm.trans hsolve) nofun
    · exact absurd (hp.symm.trans hvalidate) nofun
  case lazy =>
    intro hlazy
    rw [hlazy] at harr
    have hstart := h.tracks.ledger.length_bounds
    have hnow := hbooked.tracks.ledger.length_bounds
    rw [List.length_append, ← hstart, ← hbooked.promoted] at hnow
    exact ⟨hbooked.promoted.trans (hbooked.perm_flagged harr).length_eq, hnow⟩
  case eager =>
    intro hlazy
    rw [hlazy] at harr
    refine ⟨fun i hi => ?_, by rw [hbooked.promoted, hbooked.eq_nil harr]; rfl⟩
    have hlog := harr.joined hi
    exact ⟨(h.tracks.ledger.isAdded_iff i).2 hlog, h.tracks.ledger.exists_bound hlog⟩

end

/-! ### Two constraints, promoted one by one -/

/-- A solver that gives minus two for every variable, whatever it is asked, and counts how often it
    was asked. -/
structure Stubborn where
  asked : Nat

instance Stubborn.instEngine : Engine Stubborn Rat where
  receive e _ := (.ok (), e)
  solve e p _ := (.ok ⟨.optimal, some (p.vars.map fun _ => -2)⟩, ⟨e.asked + 1⟩)

namespace Ridge

attribute [local instance] Transcendental.flat

/-- `x + 1` and `-x`. -/
def slopes : DenseLayer Rat := .flat 0 1 [[1], [-1]] [1, 0] rfl (by decide)

/-- Two units. -/
def units : Relu := .flat 1 2

/-- The first value and twice the second, and the constant one. -/
def head : DenseLayer Rat :=
  .flat 2 2 [[1, 2], [0, 0]] [0, 1] (by decide) (by decide)

/-- The network with the outputs `max (x + 1) 0 + 2 * max (-x) 0` and `1`. -/
def net : Net Rat where
  first := .affine (.stage (.dense slopes))
  rest := [.relu units, .affine (.stage (.dense head))]
  crop := none
  fits := rfl
  crop_fits := by decide

/-- At one the first unit is active, and the second is not. -/
def trace : Trace :=
  ((Trace.empty.record 0 .none).record 1 ⟨some [.active, .inactive], none⟩).record 2 .none

/-- One promotion a round, and everything that can be deferred is. -/
def quest : Quest Rat := ⟨net, { plain with samplingRatio := 0, maxPromotions := 1 }, 1, 0⟩

/-- Draws that defer every live constraint. -/
def draws : Cyclic Rat := .of [1 / 2] []

/-- The problem and the session of the attempt at one, and its state after some phases.  Minus two
    has the label of one, but none of the choices made at one. -/
def after (k : Nat) :
    Option (Problem Rat 2 × Session Stubborn Rat 2 × Refinement Stubborn Rat 2) := do
  let p ← (Problem.build net quest.settings [1] trace 0 1 draws).toOption
  match openSession quest.settings [1] p (Session.fresh ⟨0⟩ 1 p.pool) with
  | .error _ _ => none
  | .ok _ s =>
    match Refinement.stepsUpTo quest k (Refinement.start s p.sets) with
    | .error _ _ => none
    | .ok _ t => some (p, s, t)

theorem launch_of_after {k : Nat} {p : Problem Rat 2} {s : Session Stubborn Rat 2}
    {t : Refinement Stubborn Rat 2} (h : after k = some (p, s, t)) :
    Launch net quest.settings [1] trace 0 1 draws p s ∧
      Refinement.stepsUpTo quest k (Refinement.start s p.sets) = .ok () t := by
  unfold after at h
  cases hp : Problem.build net quest.settings [1] trace 0 1 draws with
  | error e =>
    rw [hp] at h
    cases h
  | ok p' =>
    rw [hp] at h
    cases hs : openSession quest.settings [1] p' (Session.fresh (⟨0⟩ : Stubborn) 1 p'.pool) with
    | error e s' => simp [Except.toOption, hs] at h
    | ok u s' =>
      cases ht : Refinement.stepsUpTo quest k (Refinement.start s' p'.sets) with
      | error e t' => simp [Except.toOption, hs, ht] at h
      | ok u t' =>
        simp only [Except.toOption, hs, ht, Option.bind_eq_bind, Option.bind_some,
          Option.some.injEq] at h
        obtain ⟨rfl, rfl, rfl⟩ := h
        exact ⟨⟨hp, ⟨0⟩, hs⟩, ht⟩

/-- The solution violates both constraints, and the first of them is promoted. -/
theorem books_balance_ridge :
    ∃ (p : Problem Rat 2) (s : Session Stubborn Rat 2) (t t' : Refinement Stubborn Rat 2),
      Launch net quest.settings [1] trace 0 1 draws p s ∧ Refinement.Leads quest t t' ∧
      t.pending = [0, 1] ∧ Refinement.Promotes (ground [1] p s) [0] t t' ∧
      Refinement.Balanced (ground [1] p s) t' ∧
      t'.promoted = (t'.deferred.filter fun i => t'.session.isAdded i).length := by
  have hafter : (after 2).map (fun (p, s, t) => (t.phase, t.solution, t.pending,
      t.pending.filter fun i => Refinement.violated ((ground [1] p s).constraint i) [-2, -2])) =
        some (.refine, some [-2, -2], [0, 1], [0, 1]) := by cbv
  cases h : after 2 with
  | none =>
    rw [h] at hafter
    cases hafter
  | some found =>
    obtain ⟨p, s, t⟩ := found
    rw [h] at hafter
    simp only [Option.map_some, Option.some.injEq, Prod.mk.injEq] at hafter
    obtain ⟨hp, hx, hpending, hviolated⟩ := hafter
    obtain ⟨hlaunch, hsteps⟩ := launch_of_after h
    have ht := Refinement.stepsUpTo_leads hsteps
    obtain ⟨-, -, -, hrefine, -⟩ := Launch.books_balance (q := quest) hlaunch ht
    obtain ⟨x, hx', hpromotes, hgoes⟩ := hrefine hp
    cases hx.symm.trans hx'
    obtain ⟨t', hstep⟩ := hgoes (fun _ _ => rfl) rfl
    obtain ⟨hbalanced, -, -, -, hlazy, -⟩ :=
      Launch.books_balance (q := quest) hlaunch (ht.tail hstep)
    have hone : Refinement.Promotes (ground [1] p s) ((t.pending.filter fun i =>
        Refinement.violated ((ground [1] p s).constraint i) [-2, -2]).take 1) t t' :=
      hpromotes 1 (Scalar.counts_ofNat 1) t' hstep
    rw [hviolated] at hone
    exact ⟨p, s, t, t', hlaunch, hstep, hpending, hone, hbalanced, (hlazy rfl).1⟩

end Ridge

end Attempt

end Perturb
