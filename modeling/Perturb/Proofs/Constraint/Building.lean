/-
  Building a set of constraints in a store.

  A formula drafts a new term for each of its constraints, works on the draft, some of it in place,
  and puts a constraint on it into a new set.  Here is what such a run does to a store that held
  something before.

  1. **Nothing old is touched (`Grown`)** — every object of the store stays what it was, and every
     name but the three of the run refers to what it referred to.  Drafts are the only terms updated
     in place, and every draft is a new term.

  2. **What the set holds (`Built`)** — one constraint after the other, each on a new term.  Kept
     from one piece of a run to the next: a draft never changes what the set holds already
     (`Built.keep`), and a constraint on it is put behind the others (`Built.addTerm`).

  3. **Runs (`runs_built`)** — whichever operations draft the terms, the set ends up with the
     constraints on them (`Drafts`).
-/
import Perturb.Proofs.Constraint.Holds
import Perturb.Proofs.Constraint.Sets
import Perturb.Proofs.Constraint.Sharing

namespace Perturb

/-- The names of a run: that of its set, that of the term it drafts, and that of the constraint it
    has put in last. -/
structure Desk where
  set : String
  draft : String
  last : String
  set_ne_draft : set ≠ draft
  set_ne_last : set ≠ last
  draft_ne_last : draft ≠ last

namespace Desk

/-- A name that a run does not use. -/
def Spares (d : Desk) (name : String) : Prop := name ≠ d.set ∧ name ≠ d.draft ∧ name ≠ d.last

/-- A run: a new set, and for every piece the operations that draft its term and the relation of
    the constraint on it. -/
def ops {K : Type} (d : Desk) (pieces : List (List (StoreOp K) × Relation)) : List (StoreOp K) :=
  .set d.set [] :: pieces.flatMap fun (draft, relation) =>
    draft ++ [.addTerm d.last d.set d.draft relation.name]

end Desk

namespace Store

variable {K : Type} {d : Desk} {s s' : Store K}

/-! ## Nothing old is touched -/

/-- A store that has grown: what was there is there unchanged, under the names it had. -/
structure Grown (d : Desk) (s s' : Store K) : Prop where
  spaces : s'.spaces = s.spaces
  terms : s.terms <+: s'.terms
  constraints : s.constraints <+: s'.constraints
  sets : s.sets.nodes <+: s'.sets.nodes
  named : ∀ name, d.Spares name → s'.resolve name = s.resolve name

theorem resolve_bind_self (s : Store K) (name : String) (item : StoredItem) :
    (s.bind name item).resolve name = .ok item := by
  rw [resolve_ok_iff]
  exact List.lookup_cons_self

theorem resolve_bind_ne (s : Store K) {name other : String} (h : other ≠ name)
    (item : StoredItem) : (s.bind name item).resolve other = s.resolve other := by
  unfold resolve bind
  rw [List.lookup_cons, beq_false_of_ne h]

/-- A new binding of one of the names hides nothing else. -/
theorem Grown.bind (h : Grown d s s') {name : String} (hname : ¬ d.Spares name)
    (item : StoredItem) : Grown d s (s'.bind name item) where
  spaces := h.spaces
  terms := h.terms
  constraints := h.constraints
  sets := h.sets
  named other hother := by
    have hne : other ≠ name := fun heq => hname (heq ▸ hother)
    rw [resolve_bind_ne s' hne, h.named other hother]

/-- A named term keeps its number and what it is. -/
theorem Grown.term (h : Grown d s s') {name : String} (hname : d.Spares name)
    {p : Nat × StoredTerm K} (hp : s.term name = .ok p) : s'.term name = .ok p := by
  obtain ⟨i, t⟩ := p
  obtain ⟨hitem, ht⟩ := term_ok_iff.1 hp
  refine term_ok_iff.2 ⟨(h.named name hname).trans hitem, ?_⟩
  obtain ⟨more, hmore⟩ := h.terms
  rw [← hmore, List.getElem?_append_left (List.getElem?_eq_some_iff.1 ht).1, ht]

/-! ## What the set holds -/

variable {n space : Nat} {cs : List (Constraint K n)}

/-- The number of a constraint that is on a term not older than `least`. -/
def Carries (s : Store K) (least space id : Nat) (c : Constraint K n) : Prop :=
  ∃ i, least ≤ i ∧ s.constraintAt id = .ok (⟨i, c.relation, c.added⟩, ⟨space, n, c.term⟩)

theorem constraintAt_ok_iff {id : Nat} {c : StoredConstraint} {t : StoredTerm K} :
    s.constraintAt id = .ok (c, t) ↔ s.constraints[id]? = some c ∧ s.terms[c.term]? = some t := by
  unfold constraintAt
  rw [Outcome.bind_ok_iff]
  constructor
  · rintro ⟨c', hc, h⟩
    obtain ⟨t', ht, h⟩ := Outcome.bind_ok_iff.1 h
    cases h
    exact ⟨element_ok_iff.1 hc, element_ok_iff.1 ht⟩
  · rintro ⟨hc, ht⟩
    refine ⟨c, element_ok_iff.2 hc, ?_⟩
    rw [element_ok_iff.2 ht]
    rfl

/-- A constraint keeps its term when terms and constraints are added. -/
theorem Carries.grown {least id : Nat} {c : Constraint K n} (h : Carries s least space id c)
    (hterms : s.terms <+: s'.terms) (hconstraints : s.constraints <+: s'.constraints) :
    Carries s' least space id c := by
  obtain ⟨i, hi, hc⟩ := h
  obtain ⟨hc, ht⟩ := constraintAt_ok_iff.1 hc
  obtain ⟨terms, hterms⟩ := hterms
  obtain ⟨constraints, hconstraints⟩ := hconstraints
  refine ⟨i, hi, constraintAt_ok_iff.2 ⟨?_, ?_⟩⟩
  · rw [← hconstraints, List.getElem?_append_left (List.getElem?_eq_some_iff.1 hc).1, hc]
  · rw [← hterms, List.getElem?_append_left (List.getElem?_eq_some_iff.1 ht).1, ht]

/-- A run that began at `s` has come to `s'`, and its set holds the constraints `cs`. -/
structure Built (d : Desk) (s : Store K) (space : Nat) (cs : List (Constraint K n))
    (s' : Store K) : Prop where
  grown : Grown d s s'
  listed : ∃ k ids, s'.resolve d.set = .ok (.set k) ∧ s.sets.nodes.length ≤ k ∧
    s'.sets.nodes[k]? = some ⟨ids, []⟩ ∧ List.Forall₂ (Carries s' s.terms.length space) ids cs

/-- The set of a run enumerates the numbers of its constraints, in order. -/
theorem Built.members (h : Built d s space cs s') : ∃ ids, s'.membersOf d.set = .ok ids ∧
    List.Forall₂ (Carries s' s.terms.length space) ids cs := by
  obtain ⟨k, ids, hset, -, hnode, hids⟩ := h.listed
  refine ⟨ids, ?_, hids⟩
  unfold membersOf setId
  rw [hset]
  show Except.ok (s'.sets.items k) = _
  rw [SetFamily.items_of_leaf hnode]

/-- A draft changes nothing the set holds. -/
theorem Built.keep (h : Built d s space cs s') (t : StoredTerm K) :
    Built d s space cs (s'.keep d.draft t) where
  grown := by
    have hterms : Grown d s { s' with terms := s'.terms ++ [t] } :=
      ⟨h.grown.spaces, h.grown.terms.trans (List.prefix_append ..), h.grown.constraints,
        h.grown.sets, h.grown.named⟩
    exact hterms.bind (fun hspares => hspares.2.1 rfl) _
  listed := by
    obtain ⟨k, ids, hset, hk, hnode, hids⟩ := h.listed
    refine ⟨k, ids, ?_, hk, hnode, hids.imp fun id c hc =>
      hc.grown (List.prefix_append ..) List.prefix_rfl⟩
    exact (resolve_bind_ne _ d.set_ne_draft _).trans hset

/-- The term that was drafted last. -/
theorem term_keep_self (s : Store K) (name : String) (t : StoredTerm K) :
    (s.keep name t).term name = .ok (s.terms.length, t) :=
  term_ok_iff.2 ⟨resolve_bind_self .., List.getElem?_concat_length⟩

variable [Scalar K]

/-- A run begins with a new set that holds nothing. -/
theorem built_set (d : Desk) (s : Store K) (space : Nat) :
    ∃ s', s.apply (.set d.set []) = .ok s' ∧ Built d s space ([] : List (Constraint K n)) s' := by
  refine ⟨_, rfl, ?_, s.sets.nodes.length, [], resolve_bind_self .., le_rfl,
    List.getElem?_concat_length, .nil⟩
  have hsets : Grown d s { s with sets := (s.sets.create []).2 } :=
    ⟨rfl, List.prefix_rfl, List.prefix_rfl, List.prefix_append .., fun _ _ => rfl⟩
  exact hsets.bind (fun hspares => hspares.1 rfl) _

/-- A constraint on the draft is put behind the others. -/
theorem Built.addTerm (h : Built d s space cs s') (t : Affine K n) {relation : String}
    {r : Relation} (hr : Relation.ofName relation = r) :
    ∃ s'', (s'.keep d.draft ⟨space, n, t⟩).apply (.addTerm d.last d.set d.draft relation) = .ok s'' ∧
      Built d s space (cs ++ [.of t r]) s'' := by
  have hkept := h.keep ⟨space, n, t⟩
  generalize hstore : s'.keep d.draft ⟨space, n, t⟩ = b at hkept
  have hterm : b.term d.draft = .ok (s'.terms.length, ⟨space, n, t⟩) :=
    hstore ▸ term_keep_self ..
  obtain ⟨-, hplace⟩ := term_ok_iff.1 hterm
  obtain ⟨k, ids, hset, hk, hnode, hids⟩ := hkept.listed
  let b' := b.keepConstraint d.last ⟨s'.terms.length, r, false⟩
  have hsetId : b.setId d.set = .ok k := by
    unfold setId
    rw [hset]
    rfl
  refine ⟨{ b' with sets := b'.sets.add k b.constraints.length }, ?_, ?_, k,
    ids ++ [b.constraints.length], ?_, hk, ?_, ?_⟩
  · show (b.setId d.set >>= _) = _
    rw [hsetId, Outcome.ok_bind, hterm, Outcome.ok_bind, hr]
  · -- the only set that changes is new
    have hnodes : s.sets.nodes <+: (b.sets.add k b.constraints.length).nodes := by
      rw [List.prefix_iff_getElem?]
      intro i hi
      show (b.sets.nodes.modify k _)[i]? = _
      rw [List.getElem?_modify_ne _ _ (by omega)]
      exact List.prefix_iff_getElem?.1 hkept.grown.sets i hi
    have hgrown : Grown d s { b with
        constraints := b.constraints ++ [⟨s'.terms.length, r, false⟩]
        sets := b.sets.add k b.constraints.length } :=
      ⟨hkept.grown.spaces, hkept.grown.terms,
        hkept.grown.constraints.trans (List.prefix_append ..), hnodes, hkept.grown.named⟩
    exact hgrown.bind (fun hspares => hspares.2.2 rfl) _
  · exact (resolve_bind_ne _ d.set_ne_last _).trans hset
  · show (b.sets.nodes.modify k _)[k]? = _
    rw [List.getElem?_modify_eq, hnode]
    rfl
  · refine List.rel_append (hids.imp fun id c hc =>
      hc.grown List.prefix_rfl (List.prefix_append ..)) (.cons ⟨s'.terms.length, ?_, ?_⟩ .nil)
    · exact h.grown.terms.length_le
    · exact constraintAt_ok_iff.2 ⟨List.getElem?_concat_length, hplace⟩

/-! ## Drafts -/

/-- Operations that draft a term: from wherever a run has come to, the term becomes the draft, and
    the set is as it was. -/
def Drafts (d : Desk) (s : Store K) (space : Nat) (ops : List (StoreOp K)) (t : Affine K n) :
    Prop :=
  ∀ (cs : List (Constraint K n)) (s₁ : Store K), Built d s space cs s₁ →
    ∃ s₂, Built d s space cs s₂ ∧ ops.foldlM apply s₁ = .ok (s₂.keep d.draft ⟨space, n, t⟩)

/-- A term of the store by name, one that the run will not rename. -/
def Names (d : Desk) (s : Store K) (space : Nat) (name : String) (t : Affine K n) : Prop :=
  d.Spares name ∧ ∃ i, s.term name = .ok (i, ⟨space, n, t⟩)

omit [Scalar K] in
/-- It is found wherever a run has come to. -/
theorem Names.term {name : String} {t : Affine K n} (h : Names d s space name t)
    (hb : Built d s space cs s') : ∃ i, s'.term name = .ok (i, ⟨space, n, t⟩) := by
  obtain ⟨hname, i, ht⟩ := h
  exact ⟨i, hb.grown.term hname ht⟩

omit [Scalar K] in
theorem joined_of_dim (f : {n : Nat} → Affine K n → Affine K n → Affine K n) (space : Nat)
    (t u : Affine K n) :
    joined f (⟨space, n, t⟩ : StoredTerm K) ⟨space, n, u⟩ = .ok ⟨space, n, f t u⟩ := by
  unfold joined
  rw [dif_pos ⟨rfl, rfl⟩]

/-- A run of one operation. -/
theorem foldlM_apply_singleton (s : Store K) (op : StoreOp K) : [op].foldlM apply s = s.apply op :=
  bind_pure (s.apply op)

/-- The operators draft new terms. -/
theorem drafts_combine {f : Operator} {a b : Operand K} {t : Affine K n}
    (h : ∀ (cs : List (Constraint K n)) (s₁ : Store K), Built d s space cs s₁ →
      s₁.combination f a b = .ok ⟨space, n, t⟩) :
    Drafts d s space [.combine d.draft f a b] t := by
  intro cs s₁ hb
  refine ⟨s₁, hb, ?_⟩
  rw [foldlM_apply_singleton]
  show (s₁.combination f a b >>= _) = _
  rw [h cs s₁ hb]
  rfl

/-- An operator on two terms of the store drafts what it makes of them. -/
theorem drafts_joined {f : Operator} {g : {n : Nat} → Affine K n → Affine K n → Affine K n}
    {a b : String} {t u : Affine K n}
    (hf : ∀ s₁ : Store K, s₁.combination f (.term a) (.term b) =
      s₁.term a >>= fun p => s₁.term b >>= fun q => joined g p.2 q.2)
    (ha : Names d s space a t) (hb : Names d s space b u) :
    Drafts d s space [.combine d.draft f (.term a) (.term b)] (g t u) :=
  drafts_combine fun _ s₁ hbuilt => by
    obtain ⟨i, hi⟩ := ha.term hbuilt
    obtain ⟨j, hj⟩ := hb.term hbuilt
    rw [hf, hi, Outcome.ok_bind, hj]
    exact joined_of_dim g space t u

theorem drafts_subNumber {a : String} {t : Affine K n} (ha : Names d s space a t) (x : K) :
    Drafts d s space [.combine d.draft .sub (.term a) (.number x)] (t.addScalar (-x)) :=
  drafts_combine fun _ s₁ hbuilt => by
    obtain ⟨i, hi⟩ := ha.term hbuilt
    show (s₁.term a >>= _) = _
    rw [hi]
    rfl

theorem drafts_copy {a : String} {t : Affine K n} (ha : Names d s space a t) :
    Drafts d s space [.copy d.draft a] t := by
  intro cs s₁ hbuilt
  obtain ⟨i, hi⟩ := ha.term hbuilt
  refine ⟨s₁, hbuilt, ?_⟩
  rw [foldlM_apply_singleton]
  show (s₁.term a >>= _) = _
  rw [hi]
  rfl

/-- From a draft the operators make a new one. -/
theorem Drafts.subNumber {ops : List (StoreOp K)} {t : Affine K n} (h : Drafts d s space ops t)
    (x : K) : Drafts d s space (ops ++ [.combine d.draft .sub (.term d.draft) (.number x)])
      (t.addScalar (-x)) := by
  intro cs s₁ hbuilt
  obtain ⟨s₂, hbuilt', hops⟩ := h cs s₁ hbuilt
  refine ⟨s₂.keep d.draft ⟨space, n, t⟩, hbuilt'.keep _, ?_⟩
  rw [List.foldlM_append, hops, Outcome.ok_bind, foldlM_apply_singleton]
  show ((s₂.keep d.draft ⟨space, n, t⟩).term d.draft >>= _) >>= _ = _
  rw [term_keep_self]
  rfl

/-- A draft may be updated in place: nothing else refers to it. -/
theorem Drafts.addScalarIn {ops : List (StoreOp K)} {t : Affine K n} (h : Drafts d s space ops t)
    (x : K) : Drafts d s space (ops ++ [.addScalarIn d.draft x]) (t.addScalar x) := by
  intro cs s₁ hbuilt
  obtain ⟨s₂, hbuilt', hops⟩ := h cs s₁ hbuilt
  refine ⟨s₂, hbuilt', ?_⟩
  rw [List.foldlM_append, hops, Outcome.ok_bind, foldlM_apply_singleton]
  show ((s₂.keep d.draft ⟨space, n, t⟩).term d.draft >>= _) = _
  rw [term_keep_self]
  show Except.ok ((s₂.keep d.draft ⟨space, n, t⟩).replace s₂.terms.length _) = _
  unfold replace keep bind
  dsimp only
  rw [List.modify_eq_take_drop, List.take_left, List.drop_left]
  rfl

/-! ## Runs -/

/-- The operations succeed, and the set they build enumerates constraints `cs` on new terms, while
    nothing that was in the store has changed. -/
def Builds (d : Desk) (s : Store K) (space : Nat) (ops : List (StoreOp K))
    (cs : List (Constraint K n)) : Prop :=
  ∃ s', ops.foldlM apply s = .ok s' ∧ Grown d s s' ∧ ∃ ids, s'.membersOf d.set = .ok ids ∧
    List.Forall₂ (Carries s' s.terms.length space) ids cs

/-- A piece of a run that drafts the term of a constraint. -/
def Writes (d : Desk) (s : Store K) (space : Nat) (piece : List (StoreOp K) × Relation)
    (c : Constraint K n) : Prop :=
  ∃ t, c = .of t piece.2 ∧ Relation.ofName piece.2.name = piece.2 ∧ Drafts d s space piece.1 t

/-- The pieces of a run, one after the other. -/
theorem pieces_built {pieces : List (List (StoreOp K) × Relation)} {more : List (Constraint K n)}
    (h : List.Forall₂ (Writes d s space) pieces more) (hb : Built d s space cs s') :
    ∃ s'', (pieces.flatMap fun (draft, relation) =>
        draft ++ [.addTerm d.last d.set d.draft relation.name]).foldlM apply s' = .ok s'' ∧
      Built d s space (cs ++ more) s'' := by
  induction h generalizing cs s' with
  | nil => exact ⟨s', rfl, by rwa [List.append_nil]⟩
  | @cons piece c pieces more hpiece _ ih =>
    obtain ⟨t, rfl, hname, hdraft⟩ := hpiece
    obtain ⟨s₁, hb₁, hops⟩ := hdraft cs s' hb
    obtain ⟨s₂, hadd, hb₂⟩ := hb₁.addTerm t hname
    obtain ⟨s₃, hrest, hb₃⟩ := ih hb₂
    refine ⟨s₃, ?_, by rwa [List.append_cons]⟩
    rw [List.flatMap_cons, List.append_assoc, List.foldlM_append, hops, Outcome.ok_bind,
      List.singleton_append, List.foldlM_cons, hadd]
    exact hrest

/-- **Runs.**  If each piece drafts the term of its constraint, the run builds the constraints. -/
theorem runs_built {pieces : List (List (StoreOp K) × Relation)} {cs : List (Constraint K n)}
    (h : List.Forall₂ (Writes d s space) pieces cs) : Builds d s space (d.ops pieces) cs := by
  obtain ⟨s₁, hset, hb₁⟩ := built_set (n := n) d s space
  obtain ⟨s₂, hrest, hb₂⟩ := pieces_built h hb₁
  rw [List.nil_append] at hb₂
  refine ⟨s₂, ?_, hb₂.grown, hb₂.members⟩
  unfold Desk.ops
  rw [List.foldlM_cons, hset]
  exact hrest

end Store

end Perturb
