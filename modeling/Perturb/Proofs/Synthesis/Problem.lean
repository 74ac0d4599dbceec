/-
  What a built problem consists of.

  1. **The pool** — it holds what the replay left behind, then the lead of the target, then, as the
     settings ask, the ball and the raised pixel; all of it as it was first made (`build_ok`,
     `pool_fresh`).

  2. **The sets** — `Arranged` says what the search relies on: the current set is the hub of a star
     (the deferred set has items of its own and no references), and the sets hold every number of
     the pool exactly once, in order.  Attaching a formula keeps this, because the new set takes the
     next numbers and the current set is given a reference to it, and so does uniting the two sets
     at the end.  So no constraint is current twice, and whether a constraint can be both current
     and deferred is a question of laziness alone.  Formulas never wait: all of them are current
     (`Arranged.isCurrent_of_formula`).

  3. **Success** — a problem can be built whenever the replay succeeds and the labels are those of
     outputs (`build_succeeds`); only a raised pixel, which has to be drawn, could fail.
-/
import Perturb.Proofs.Constraint.Enumeration
import Perturb.Proofs.Synthesis.Formula
import Perturb.Synthesis.Problem

namespace Perturb

namespace Problem

variable {K : Type} {n : Nat}

/-! ## The sets -/

/-- The current set refers to every set but itself and, if the two are kept apart, the deferred one;
    no other set refers to anything.  The deferred set holds `waiting`, and the numbers of the pool
    are those of the sets. -/
structure Arranged (p : Problem K n) (waiting : List Nat) (apart : Bool) : Prop where
  star : ∃ live refs, p.sets.Star currentSet live refs ∧ (deferredSet ∈ refs ↔ apart = false) ∧
    ∀ k < p.sets.nodes.length, k = currentSet ∨ k = deferredSet ∨ k ∈ refs
  second : p.sets.nodes[deferredSet]? = some ⟨waiting, []⟩
  numbered : (p.sets.nodes.map (·.own)).flatten = List.range p.pool.length

/-- What a replay left behind is arranged, with the two sets apart. -/
theorem arranged_ofReplay {S : Type} (outputs : List (Affine K n)) (r : Replay S K n)
    (target : Int) : (ofReplay outputs r target).Arranged
      (List.range' r.current.length r.deferred.length) true := by
  have hpool : (ofReplay outputs r target).pool = r.current ++ r.deferred := rfl
  have hnodes : (ofReplay outputs r target).sets.nodes =
      [⟨List.range' 0 r.current.length, []⟩,
        ⟨List.range' r.current.length r.deferred.length, []⟩] := rfl
  constructor
  case star =>
    refine ⟨List.range' 0 r.current.length, [], ⟨by rw [hnodes]; rfl, ?_, ?_⟩, by simp, ?_⟩
    · exact List.forall_mem_nil _
    · exact List.nodup_singleton _
    · intro k hk
      rw [hnodes] at hk
      have hk : k < 2 := hk
      have htwo : k = 0 ∨ k = 1 := by omega
      exact htwo.imp id Or.inl
  case second =>
    rw [hnodes]
    rfl
  case numbered =>
    rw [hnodes, hpool, List.length_append, List.range_eq_range', ← List.range'_append_1,
      Nat.zero_add]
    simp

/-- `p'` has some constraints more than `p` and is arranged. -/
structure Grown (p p' : Problem K n) (waiting : List Nat) (apart : Bool)
    (cs : List (Constraint K n)) : Prop where
  pool_eq : p'.pool = p.pool ++ cs
  outputs_eq : p'.outputs = p.outputs
  arranged : p'.Arranged waiting apart

namespace Arranged

variable {p p' : Problem K n} {waiting : List Nat} {apart : Bool} {cs : List (Constraint K n)}

theorem two_le (h : p.Arranged waiting apart) : 2 ≤ p.sets.nodes.length :=
  (List.getElem?_eq_some_iff.1 h.second).1

/-- The deferred constraints are those of the second set. -/
theorem deferred_eq (h : p.Arranged waiting apart) : p.deferred = waiting :=
  SetFamily.items_of_leaf h.second

theorem ownOf_deferred (h : p.Arranged waiting apart) : p.sets.ownOf deferredSet = waiting := by
  unfold SetFamily.ownOf
  rw [h.second]
  rfl

/-- No number is in two sets. -/
theorem nodup_own (h : p.Arranged waiting apart) : (p.sets.nodes.flatMap (·.own)).Nodup := by
  rw [List.flatMap_def, h.numbered]
  exact List.nodup_range

/-- The numbers in the sets are those of the pool. -/
theorem mem_own_iff (h : p.Arranged waiting apart) {i : Nat} :
    (∃ k, i ∈ p.sets.ownOf k) ↔ i < p.pool.length := by
  rw [← List.mem_range, ← h.numbered, ← List.flatMap_def, List.mem_flatMap]
  constructor
  · rintro ⟨k, hk⟩
    unfold SetFamily.ownOf at hk
    cases hnode : p.sets.nodes[k]? with
    | none => simp [hnode] at hk
    | some node =>
      rw [hnode] at hk
      exact ⟨node, List.mem_of_getElem? hnode, hk⟩
  · rintro ⟨node, hnode, hi⟩
    obtain ⟨k, hk⟩ := List.mem_iff_getElem?.1 hnode
    refine ⟨k, ?_⟩
    unfold SetFamily.ownOf
    rw [hk]
    exact hi

theorem current_lt (h : p.Arranged waiting apart) {i : Nat} (hi : i ∈ p.current) :
    i < p.pool.length := by
  obtain ⟨k, -, hk⟩ := List.mem_flatMap.1 hi
  exact h.mem_own_iff.1 ⟨k, hk⟩

theorem deferred_lt (h : p.Arranged waiting apart) {i : Nat} (hi : i ∈ waiting) :
    i < p.pool.length := by
  rw [← h.ownOf_deferred] at hi
  exact h.mem_own_iff.1 ⟨_, hi⟩

/-- **No constraint is current twice**, and none is deferred twice. -/
theorem nodup_current (h : p.Arranged waiting apart) : p.current.Nodup :=
  SetFamily.nodup_items h.nodup_own currentSet

theorem nodup_waiting (h : p.Arranged waiting apart) : waiting.Nodup := by
  rw [← h.ownOf_deferred]
  exact SetFamily.nodup_ownOf h.nodup_own deferredSet

/-- Every constraint of the pool is current or deferred. -/
theorem covers (h : p.Arranged waiting apart) {i : Nat} (hi : i < p.pool.length) :
    i ∈ p.current ∨ i ∈ waiting := by
  obtain ⟨live, refs, hstar, -, hall⟩ := h.star
  obtain ⟨k, hk⟩ := h.mem_own_iff.2 hi
  have hlt : k < p.sets.nodes.length := by
    by_contra hnot
    unfold SetFamily.ownOf at hk
    rw [List.getElem?_eq_none (not_lt.1 hnot)] at hk
    cases hk
  have hcurrent : k ∈ currentSet :: refs → i ∈ p.current := fun hmem =>
    List.mem_flatMap.2 ⟨k, by rw [hstar.reached_eq]; exact hmem, hk⟩
  rcases hall k hlt with hk0 | rfl | hmem
  · exact Or.inl (hcurrent (hk0 ▸ List.mem_cons_self ..))
  · exact Or.inr (h.ownOf_deferred ▸ hk)
  · exact Or.inl (hcurrent (List.mem_cons_of_mem _ hmem))

/-- Where the two sets are kept apart, no constraint is both current and deferred. -/
theorem disjoint (h : p.Arranged waiting true) {i : Nat} (hi : i ∈ p.current) : i ∉ waiting := by
  obtain ⟨live, refs, hstar, hiff, -⟩ := h.star
  have hnot : deferredSet ∉ refs := fun hmem => Bool.noConfusion (hiff.1 hmem)
  intro hw
  rw [← h.ownOf_deferred] at hw
  obtain ⟨k, hk, hik⟩ := List.mem_flatMap.1 hi
  rw [hstar.reached_eq] at hk
  have hne : k ≠ deferredSet := by
    rintro rfl
    rcases List.mem_cons.1 hk with hk | hk
    · cases hk
    · exact hnot hk
  exact SetFamily.disjoint_ownOf h.nodup_own hne hik hw

/-- Where the two sets are united, every deferred constraint is current. -/
theorem joined (h : p.Arranged waiting false) {i : Nat} (hi : i ∈ waiting) : i ∈ p.current := by
  obtain ⟨live, refs, hstar, hiff, -⟩ := h.star
  refine List.mem_flatMap.2 ⟨deferredSet, ?_, by rw [h.ownOf_deferred]; exact hi⟩
  rw [hstar.reached_eq]
  exact List.mem_cons_of_mem _ (hiff.2 rfl)

/-- Letting the current set refer to the deferred one. -/
theorem unite (h : p.Arranged waiting true) {sets : SetFamily Nat}
    (hok : p.sets.unite currentSet deferredSet = .ok sets) :
    Arranged { p with sets } waiting false := by
  obtain ⟨live, refs, hstar, hiff, hall⟩ := h.star
  have hnot : deferredSet ∉ refs := fun hmem => Bool.noConfusion (hiff.1 hmem)
  have hown := SetFamily.unite_map_own hok
  have hlen : sets.nodes.length = p.sets.nodes.length := by
    have := congrArg List.length hown
    simpa using this
  constructor
  case star =>
    refine ⟨live, refs ++ [deferredSet], hstar.unite h.second hnot hok, by simp, fun k hk => ?_⟩
    rw [hlen] at hk
    exact (hall k hk).imp_right (Or.imp_right (List.mem_append_left _))
  case second => exact (SetFamily.unite_getElem?_ne hok (by decide)).trans h.second
  case numbered => exact (congrArg List.flatten hown).trans h.numbered

/-- **Attaching.**  Constraints that are attached stand at the end of the pool, and the problem is
    arranged as before. -/
theorem attach (h : p.Arranged waiting apart) (hok : p.attach cs = .ok p') :
    Grown p p' waiting apart cs := by
  unfold Problem.attach at hok
  obtain ⟨sets, hsets, hok⟩ := Outcome.bind_ok_iff.1 hok
  cases hok
  have hsets : (p.sets.create (List.range' p.pool.length cs.length)).2.unite currentSet
      p.sets.nodes.length = .ok sets := hsets
  have hnew : (p.sets.create (List.range' p.pool.length cs.length)).2.nodes[p.sets.nodes.length]? =
      some ⟨List.range' p.pool.length cs.length, []⟩ := List.getElem?_concat_length
  have hlen : (p.pool ++ cs).length = p.pool.length + cs.length := List.length_append
  obtain ⟨live, refs, hstar, hiff, hall⟩ := h.star
  have hbound : ∀ r ∈ refs, r < p.sets.nodes.length := by
    intro r hr
    obtain ⟨own, hown⟩ := hstar.leaves r hr
    exact (List.getElem?_eq_some_iff.1 hown).1
  have htwo := h.two_le
  have hown := SetFamily.unite_map_own hsets
  have hcreated : (p.sets.create (List.range' p.pool.length cs.length)).2.nodes =
      p.sets.nodes ++ [⟨List.range' p.pool.length cs.length, []⟩] := rfl
  refine ⟨rfl, rfl, ⟨⟨live, refs ++ [p.sets.nodes.length], ?_, ?_, fun k hk => ?_⟩, ?_, ?_⟩⟩
  · refine (hstar.create _).unite hnew (fun hmem => ?_) hsets
    exact absurd (hbound _ hmem) (Nat.lt_irrefl _)
  · -- the new set is not the deferred one
    rw [← hiff, List.mem_append, List.mem_singleton, or_iff_left]
    show ¬ 1 = p.sets.nodes.length
    omega
  · have hk : k < sets.nodes.length := hk
    have hcount := congrArg List.length hown
    rw [List.length_map, List.length_map, hcreated, List.length_append, List.length_singleton]
      at hcount
    rcases Nat.lt_or_ge k p.sets.nodes.length with hold | hge
    · exact (hall k hold).imp_right (Or.imp_right (List.mem_append_left _))
    · have hlast : k = p.sets.nodes.length := by omega
      exact Or.inr (Or.inr (List.mem_append_right _ (List.mem_singleton.2 hlast)))
  · rw [SetFamily.unite_getElem?_ne hsets (by decide), hcreated,
      List.getElem?_append_left (show deferredSet < _ from htwo), h.second]
  · show (sets.nodes.map _).flatten = List.range (p.pool ++ cs).length
    rw [hown, hcreated, List.map_append, List.flatten_append, h.numbered, hlen,
      List.range_eq_range', List.range_eq_range', ← List.range'_append_1, Nat.zero_add]
    simp

/-- Attaching does not fail. -/
theorem attach_succeeds (h : p.Arranged waiting apart) (cs : List (Constraint K n)) :
    ∃ p', p.attach cs = .ok p' := by
  have hne : ¬ currentSet = p.sets.nodes.length := by
    have := h.two_le
    show ¬ 0 = p.sets.nodes.length
    omega
  unfold Problem.attach
  show ∃ p', ((p.sets.create (List.range' p.pool.length cs.length)).2.unite currentSet
    p.sets.nodes.length >>= _) = .ok p'
  unfold SetFamily.unite
  rw [if_neg hne]
  exact ⟨_, rfl⟩

end Arranged

/-! ## Current constraints -/

/-- A constraint is current: the enumeration of the current set has a number of it. -/
def IsCurrent (p : Problem K n) (c : Constraint K n) : Prop :=
  ∃ i ∈ p.current, p.pool[i]? = some c

/-- What is current is in the pool. -/
theorem IsCurrent.mem_pool {p : Problem K n} {c : Constraint K n} (h : p.IsCurrent c) :
    c ∈ p.pool := by
  obtain ⟨i, -, hi⟩ := h
  exact List.mem_of_getElem? hi

/-- **Formulas are current.**  Only numbers of the replay wait, so what comes after it in the pool
    does not. -/
theorem Arranged.isCurrent_of_formula {p : Problem K n} {a b : Nat} {apart : Bool}
    (h : p.Arranged (List.range' a b) apart) {kept leads near lift : List (Constraint K n)}
    (hpool : p.pool = kept ++ leads ++ near ++ lift) (hkept : kept.length = a + b)
    {c : Constraint K n} (hc : c ∈ leads ++ near ++ lift) : p.IsCurrent c := by
  obtain ⟨j, hj⟩ := List.mem_iff_getElem?.1 hc
  have hnumber : p.pool[kept.length + j]? = some c := by
    rw [hpool, List.append_assoc, List.append_assoc, ← List.append_assoc leads,
      List.getElem?_append_right (Nat.le_add_right _ _), Nat.add_sub_cancel_left]
    exact hj
  have hlt := (List.getElem?_eq_some_iff.1 hnumber).1
  rcases h.covers hlt with hcurrent | hwaiting
  · exact ⟨_, hcurrent, hnumber⟩
  · rw [List.mem_range'_1] at hwaiting
    omega

variable [Scalar K]

/-! ## The pixels -/

@[simp] theorem length_pixels (count : Nat) :
    (pixels count : List (Affine K n)).length = count := by
  unfold pixels
  rw [List.length_map, List.length_range]

/-- A pixel is the variable of its number. -/
theorem getElem?_pixels_iff {count i : Nat} {t : Affine K n} :
    (pixels count : List (Affine K n))[i]? = some t ↔ i < count ∧ t = Affine.var i := by
  unfold pixels
  rw [List.getElem?_map, Option.map_eq_some_iff]
  constructor
  · rintro ⟨j, hj, rfl⟩
    obtain ⟨hi, rfl⟩ := List.getElem?_eq_some_iff.1 hj
    rw [List.length_range] at hi
    rw [List.getElem_range]
    exact ⟨hi, rfl⟩
  · rintro ⟨hi, rfl⟩
    exact ⟨i, List.getElem?_range hi, rfl⟩

/-! ## The parts of a problem -/

/-- The problem with the ball and the objective, if the settings ask for them. -/
def optimised (settings : Settings K) (inputs : List (Affine K n)) (origin : List K)
    (eps : Affine K n) (outputs : List (Affine K n)) (label target : Int) (p : Problem K n) :
    Outcome (Problem K n) :=
  if settings.optimise then do
    let p ← p.attach (Formula.ball inputs origin eps settings.epsilon)
    let o ← Formula.objective settings.objective eps outputs label target
    .ok { p with objective := some o }
  else .ok p

/-- The problem with the raised pixel, if the settings ask for it. -/
def lifted {S : Type} [Source S K] (settings : Settings K) (inputs : List (Affine K n))
    (origin : List K) (draws : S) (p : Problem K n) : Outcome (Problem K n) :=
  if settings.quantized then do
    let (cs, _) ← Formula.raised inputs origin draws settings.quantizationStep
    p.attach cs
  else .ok p

/-- The problem with the two sets united, unless the deferred constraints are to wait. -/
def united (settings : Settings K) (p : Problem K n) : Outcome (Problem K n) :=
  if settings.lazy then .ok p
  else do
    let sets ← p.sets.unite currentSet deferredSet
    .ok { p with sets }

/-- Building a problem is adding one part after the other. -/
theorem build_eq {S : Type} [Source S K] (net : Net K) (settings : Settings K)
    (origin : List K) (trace : Trace) (label target : Int) (draws : S) :
    build net settings origin trace label target draws = (do
      let (outs, r) ← net.replay trace settings.samplingRatio (pixels net.inDim)
        (Replay.start draws)
      let leads ← Formula.beats outs target settings.margin
      let p ← (ofReplay outs r target).attach leads
      let p ← p.optimised settings (pixels net.inDim) origin (Affine.var net.inDim) outs label
        target
      let p ← p.lifted settings (pixels net.inDim) origin r.draws
      p.united settings) := by
  unfold build
  refine bind_congr fun ⟨outs, r⟩ => bind_congr fun leads => bind_congr fun p => ?_
  unfold optimised lifted united
  cases settings.optimise <;> cases settings.quantized <;>
    simp only [if_true, Bool.false_eq_true, if_false, bind_assoc, Outcome.ok_bind]

/-! ## The pool -/

/-- The constraints that keep the inputs near their origin, if the settings ask for an objective. -/
def nearby (settings : Settings K) (inputs : List (Affine K n)) (origin : List K)
    (eps : Affine K n) : List (Constraint K n) :=
  if settings.optimise then Formula.ball inputs origin eps settings.epsilon else []

/-- The constraint on the drawn input, if the settings ask for one. -/
def raises {S : Type} [Source S K] (settings : Settings K) (inputs : List (Affine K n))
    (origin : List K) (draws : S) : Outcome (List (Constraint K n)) :=
  if settings.quantized then
    (Formula.raised inputs origin draws settings.quantizationStep).map (·.1)
  else .ok []

/-- There is a constraint on a drawn input if the settings ask for one, and none otherwise. -/
theorem raises_ok {S : Type} [Source S K] {settings : Settings K} {inputs : List (Affine K n)}
    {origin : List K} {draws : S} {lift : List (Constraint K n)}
    (h : raises settings inputs origin draws = .ok lift) :
    (settings.quantized = true ∧ ∃ left,
      Formula.raised inputs origin draws settings.quantizationStep = .ok (lift, left)) ∨
    (settings.quantized = false ∧ lift = []) := by
  unfold raises at h
  cases hq : settings.quantized with
  | false =>
    rw [hq] at h
    cases h
    exact Or.inr ⟨rfl, rfl⟩
  | true =>
    rw [hq, if_pos rfl] at h
    cases hr : Formula.raised inputs origin draws settings.quantizationStep with
    | error e =>
      rw [hr] at h
      cases h
    | ok found =>
      rw [hr] at h
      cases h
      exact Or.inl ⟨rfl, found.2, rfl⟩

theorem Arranged.optimised {p p' : Problem K n} {waiting : List Nat} {apart : Bool}
    (h : p.Arranged waiting apart) {settings : Settings K} {inputs outputs : List (Affine K n)}
    {origin : List K} {eps : Affine K n} {label target : Int}
    (hok : p.optimised settings inputs origin eps outputs label target = .ok p') :
    Grown p p' waiting apart (nearby settings inputs origin eps) := by
  unfold Problem.optimised at hok
  unfold nearby
  split at hok
  · rename_i hopt
    obtain ⟨q, hq, hok⟩ := Outcome.bind_ok_iff.1 hok
    obtain ⟨o, -, hok⟩ := Outcome.bind_ok_iff.1 hok
    cases hok
    obtain ⟨hpool, hout, harr⟩ := h.attach hq
    rw [if_pos hopt]
    exact ⟨hpool, hout, harr.star, harr.second, harr.numbered⟩
  · rename_i hopt
    cases hok
    rw [if_neg hopt]
    exact ⟨(List.append_nil _).symm, rfl, h⟩

theorem Arranged.lifted {S : Type} [Source S K] {p p' : Problem K n} {waiting : List Nat}
    (h : p.Arranged waiting apart) {settings : Settings K} {inputs : List (Affine K n)}
    {origin : List K} {draws : S}
    (hok : p.lifted settings inputs origin draws = .ok p') :
    ∃ cs, raises settings inputs origin draws = .ok cs ∧ Grown p p' waiting apart cs := by
  unfold Problem.lifted at hok
  unfold raises
  split at hok
  · rename_i hq
    obtain ⟨⟨cs, draws'⟩, hcs, hok⟩ := Outcome.bind_ok_iff.1 hok
    obtain ⟨hpool, hout, harr⟩ := h.attach hok
    rw [if_pos hq, hcs]
    exact ⟨cs, rfl, hpool, hout, harr⟩
  · rename_i hq
    cases hok
    rw [if_neg hq]
    exact ⟨[], rfl, (List.append_nil _).symm, rfl, h⟩

omit [Scalar K] in
theorem Arranged.united {p p' : Problem K n} {waiting : List Nat} (h : p.Arranged waiting true)
    {settings : Settings K} (hok : p.united settings = .ok p') :
    Grown p p' waiting settings.lazy [] := by
  unfold Problem.united at hok
  split at hok
  · rename_i hlazy
    cases hok
    exact ⟨(List.append_nil _).symm, rfl, hlazy ▸ h⟩
  · rename_i hlazy
    obtain ⟨sets, hsets, hok⟩ := Outcome.bind_ok_iff.1 hok
    cases hok
    rw [Bool.not_eq_true] at hlazy
    exact ⟨(List.append_nil _).symm, rfl, hlazy ▸ h.unite hsets⟩

/-- **What was built.**  The pool holds what the replay left behind, the lead of the target, and
    what the settings ask for; and the problem is arranged, with what the replay deferred
    waiting. -/
theorem build_ok {S : Type} [Source S K] {net : Net K} {settings : Settings K}
    {origin : List K} {trace : Trace} {label target : Int} {draws : S}
    {p : Problem K (net.inDim + 1)}
    (h : build net settings origin trace label target draws = .ok p) :
    ∃ (outs : List (Affine K (net.inDim + 1))) (r : Replay S K (net.inDim + 1))
      (leads lift : List (Constraint K (net.inDim + 1))),
      net.replay trace settings.samplingRatio (pixels net.inDim) (Replay.start draws) =
        .ok (outs, r) ∧
      Formula.beats outs target settings.margin = .ok leads ∧
      raises settings (pixels net.inDim) origin r.draws = .ok lift ∧
      p.pool = r.current ++ r.deferred ++ leads ++
        nearby settings (pixels net.inDim) origin (Affine.var net.inDim) ++ lift ∧
      p.Arranged (List.range' r.current.length r.deferred.length) settings.lazy := by
  rw [build_eq] at h
  obtain ⟨⟨outs, r⟩, hreplay, h⟩ := Outcome.bind_ok_iff.1 h
  obtain ⟨leads, hleads, h⟩ := Outcome.bind_ok_iff.1 h
  obtain ⟨p₁, hp₁, h⟩ := Outcome.bind_ok_iff.1 h
  obtain ⟨p₂, hp₂, h⟩ := Outcome.bind_ok_iff.1 h
  obtain ⟨p₃, hp₃, h⟩ := Outcome.bind_ok_iff.1 h
  have h₁ := (arranged_ofReplay outs r target).attach hp₁
  have h₂ := h₁.arranged.optimised hp₂
  obtain ⟨lift, hlift, h₃⟩ := h₂.arranged.lifted hp₃
  have h₄ := h₃.arranged.united h
  refine ⟨outs, r, leads, lift, hreplay, hleads, hlift, ?_, h₄.arranged⟩
  rw [h₄.pool_eq, h₃.pool_eq, h₂.pool_eq, h₁.pool_eq, List.append_nil]
  rfl

/-- **The objective** of a problem that was built is the one the settings name, if they ask for
    one. -/
theorem build_objective {S : Type} [Source S K] {net : Net K} {settings : Settings K}
    {origin : List K} {trace : Trace} {label target : Int} {draws : S}
    {p : Problem K (net.inDim + 1)}
    (h : build net settings origin trace label target draws = .ok p)
    (hoptimise : settings.optimise = true) :
    ∃ outs o, Formula.objective settings.objective (Affine.var net.inDim) outs label target =
      .ok o ∧ p.objective = some o := by
  rw [build_eq] at h
  obtain ⟨⟨outs, r⟩, -, h⟩ := Outcome.bind_ok_iff.1 h
  obtain ⟨leads, -, h⟩ := Outcome.bind_ok_iff.1 h
  obtain ⟨p₁, -, h⟩ := Outcome.bind_ok_iff.1 h
  obtain ⟨p₂, hp₂, h⟩ := Outcome.bind_ok_iff.1 h
  obtain ⟨p₃, hp₃, hp⟩ := Outcome.bind_ok_iff.1 h
  unfold Problem.optimised at hp₂
  rw [if_pos hoptimise] at hp₂
  obtain ⟨q, -, hp₂⟩ := Outcome.bind_ok_iff.1 hp₂
  obtain ⟨o, ho, hp₂⟩ := Outcome.bind_ok_iff.1 hp₂
  cases hp₂
  -- neither the raised pixel nor uniting the sets touches the objective
  have hlifted : p₃.objective = some o := by
    unfold Problem.lifted at hp₃
    split at hp₃
    · obtain ⟨⟨cs, left⟩, -, hp₃⟩ := Outcome.bind_ok_iff.1 hp₃
      obtain ⟨sets, -, hp₃⟩ := Outcome.bind_ok_iff.1 hp₃
      cases hp₃
      rfl
    · cases hp₃
      rfl
  have hunited : p.objective = p₃.objective := by
    unfold Problem.united at hp
    split at hp
    · cases hp
      rfl
    · obtain ⟨sets, -, hp⟩ := Outcome.bind_ok_iff.1 hp
      cases hp
      rfl
  exact ⟨outs, o, ho, hunited.trans hlifted⟩

/-- A problem without a raised pixel is built whenever the replay succeeds, both labels are those of
    outputs, and the objective has a known name. -/
theorem build_succeeds {S : Type} [Source S Rat] {net : Net Rat} {settings : Settings Rat}
    {origin : List Rat} {trace : Trace} {label target : Nat} {draws : S}
    {outs : List (Affine Rat (net.inDim + 1))} {r : Replay S Rat (net.inDim + 1)}
    (hreplay : net.replay trace settings.samplingRatio (pixels net.inDim) (Replay.start draws) =
      .ok (outs, r)) (hlabel : label < outs.length) (htarget : target < outs.length)
    (hq : settings.quantized = false)
    (hobj : settings.objective = "min-linf" ∨ settings.objective = "max-conf") :
    ∃ p, build net settings origin trace (Int.ofNat label) (Int.ofNat target) draws = .ok p := by
  have hobjective : ∃ o, Formula.objective settings.objective
      (Affine.var net.inDim : Affine Rat (net.inDim + 1)) outs (Int.ofNat label)
        (Int.ofNat target) = .ok o := by
    rcases hobj with hobj | hobj
    · exact ⟨_, by rw [hobj]; rfl⟩
    · refine ⟨⟨(outs[target]).sub outs[label], ⟨"max"⟩⟩, ?_⟩
      unfold Formula.objective
      rw [hobj, if_neg (by decide), if_pos rfl, Program.pick_ofNat, Program.pick_ofNat,
        List.getElem?_eq_getElem htarget, List.getElem?_eq_getElem hlabel]
      rfl
  obtain ⟨o, ho⟩ := hobjective
  have hleads := Formula.beats_eq (List.getElem?_eq_getElem htarget) settings.margin
  obtain ⟨p₁, hp₁⟩ := (arranged_ofReplay outs r (Int.ofNat target)).attach_succeeds
    ((Formula.rivals outs (Int.ofNat target)).map fun rival =>
      .of ((outs[target].sub rival).addScalar (-settings.margin)) .ge)
  have h₁ := (arranged_ofReplay outs r (Int.ofNat target)).attach hp₁
  have hsecond : ∃ p₂, p₁.optimised settings (pixels net.inDim) origin (Affine.var net.inDim) outs
      (Int.ofNat label) (Int.ofNat target) = .ok p₂ := by
    unfold Problem.optimised
    split
    · obtain ⟨q, hq⟩ := h₁.arranged.attach_succeeds
        (Formula.ball (pixels net.inDim) origin (Affine.var net.inDim) settings.epsilon)
      rw [hq, Outcome.ok_bind, ho]
      exact ⟨_, rfl⟩
    · exact ⟨p₁, rfl⟩
  obtain ⟨p₂, hp₂⟩ := hsecond
  have hthird : p₂.lifted settings (pixels net.inDim) origin r.draws = .ok p₂ := by
    unfold Problem.lifted
    rw [hq]
    rfl
  rw [build_eq, hreplay, Outcome.ok_bind]
  show ∃ p, (Formula.beats outs (Int.ofNat target) settings.margin >>= _) = .ok p
  rw [hleads, Outcome.ok_bind, hp₁, Outcome.ok_bind, hp₂, Outcome.ok_bind, hthird, Outcome.ok_bind]
  unfold Problem.united
  split
  · exact ⟨p₂, rfl⟩
  · exact ⟨_, rfl⟩

/-- Everything in the pool is as it was first made, if what the replay left behind is. -/
theorem pool_fresh {S : Type} [Source S K] {settings : Settings K}
    {inputs : List (Affine K n)} {origin : List K} {eps : Affine K n} {draws : S}
    {outs : List (Affine K n)} {target : Int} {kept leads lift : List (Constraint K n)}
    (hkept : ∀ c ∈ kept, c.Fresh) (hleads : Formula.beats outs target settings.margin = .ok leads)
    (hlift : raises settings inputs origin draws = .ok lift) :
    ∀ c ∈ kept ++ leads ++ nearby settings inputs origin eps ++ lift, c.Fresh := by
  refine List.forall_mem_append.2 ⟨List.forall_mem_append.2 ⟨List.forall_mem_append.2
    ⟨hkept, Formula.beats_fresh hleads⟩, ?_⟩, ?_⟩
  · unfold nearby
    split
    · exact Formula.ball_fresh inputs origin eps settings.epsilon
    · exact List.forall_mem_nil _
  · rcases raises_ok hlift with ⟨-, left, hraised⟩ | ⟨-, rfl⟩
    · obtain ⟨i, x, o, -, -, -, rfl⟩ := Formula.raised_ok hraised
      intro c hc
      rw [List.mem_singleton.1 hc]
      exact Constraint.fresh_of _ fun _ h => by cases h
    · exact List.forall_mem_nil _

end Problem

end Perturb
