/-
  What one operation changes in a store.

  Names refer to objects, and several names or constraints may refer to one term.  So what an
  operation does is said of objects, not of names.

  1. **Changes (`apply_change`)** — `Change` lists what an operation that succeeds can do to a store,
     with the number of the term it updates in place, if it updates one.  Everything else here is
     read off this list.

  2. **Frames** — an operation leaves every term alone but the one it updates in place
     (`Change.kept`), and no constraint ever gets another term or another relation (`Change.held`).
     So copies and the results of operators, which are terms of their own, share nothing with what
     they were made from.

  3. **Soundness (`Change.sound`)** — every term keeps as many coefficients as its space has
     variables, hence two terms mix exactly if they are of one space; and names and constraints
     refer to terms there are, hence nothing refers to a new term but its name (`apply_made`).

  4. **Mixing (`apply_mixed`)** — an operation on two terms of different spaces fails with a
     mismatch.

  5. **Runs (`run_sound`)** — a run goes on after an operation that fails, and every run is sound.

  Nothing here computes with numbers.
-/
import Perturb.Constraint.Store
import Perturb.Proofs.Outcome

namespace Perturb

/-- The two terms that an operation combines, by name. -/
def StoreOp.mixes? {K : Type} : StoreOp K → Option (String × String)
  | .addIn name other => some (name, other)
  | .subIn name other => some (name, other)
  | .addMulIn name other _ => some (name, other)
  | .combine _ .add (.term a) (.term b) => some (a, b)
  | .combine _ .sub (.term a) (.term b) => some (a, b)
  | .addCompare _ _ (.term a) _ (.term b) => some (a, b)
  | _ => none

/-- The name that an operation gives to a new term, if it makes one term and nothing else. -/
def StoreOp.makes? {K : Type} : StoreOp K → Option String
  | .const name _ _ => some name
  | .term name _ _ _ => some name
  | .copy name _ => some name
  | .combine name _ _ _ => some name
  | .neg name _ => some name
  | _ => none

/-! ## Spaces -/

namespace Space

variable {v v' : Space}

/-- A variable handed out is one of the space, which keeps its size. -/
theorem fresh_spec {x : Nat} (h : v.fresh = .ok (x, v')) : v'.size = v.size ∧ x < v'.size := by
  unfold fresh at h
  split at h
  · rename_i hlt
    cases h
    exact ⟨rfl, hlt⟩
  · cases h

/-- Variables handed out are of the space, which keeps its size. -/
theorem freshMany_spec {xs : List Nat} {count : Int} (h : v.freshMany count = .ok (xs, v')) :
    v'.size = v.size ∧ ∀ x ∈ xs, x < v'.size := by
  unfold freshMany at h
  split at h
  · rename_i hle
    cases h
    exact ⟨rfl, fun x hx => Nat.lt_of_lt_of_le (List.mem_range'_1.1 hx).2 hle⟩
  · cases h

end Space

namespace Store

/-! ## Looking up -/

section

variable {K : Type} {s : Store K}

theorem element_ok_iff {α : Type} {xs : List α} {i : Nat} {x : α} :
    element xs i = .ok x ↔ xs[i]? = some x := by
  unfold element
  cases xs[i]? <;> simp

theorem resolve_ok_iff {name : String} {item : StoredItem} :
    s.resolve name = .ok item ↔ s.names.lookup name = some item := by
  unfold resolve
  cases s.names.lookup name <;> simp

theorem mem_names {name : String} {item : StoredItem} (h : s.resolve name = .ok item) :
    (name, item) ∈ s.names := by
  obtain ⟨newer, older, hnames, -⟩ := List.lookup_eq_some_iff.1 (resolve_ok_iff.1 h)
  exact hnames ▸ List.mem_append_right newer List.mem_cons_self

/-- A name that refers to a term gives its number and what it is. -/
theorem term_ok_iff {name : String} {i : Nat} {t : StoredTerm K} :
    s.term name = .ok (i, t) ↔ s.resolve name = .ok (.term i) ∧ s.terms[i]? = some t := by
  unfold term
  rw [Outcome.bind_ok_iff]
  constructor
  · rintro ⟨item, hitem, h⟩
    cases item with
    | term j =>
      obtain ⟨u, hu, h⟩ := Outcome.bind_ok_iff.1 h
      cases h
      exact ⟨hitem, element_ok_iff.1 hu⟩
    | _ => cases h
  · rintro ⟨hitem, ht⟩
    refine ⟨_, hitem, ?_⟩
    show (element s.terms i >>= _) = _
    rw [element_ok_iff.2 ht]
    rfl

theorem mem_terms {name : String} {p : Nat × StoredTerm K} (h : s.term name = .ok p) :
    p.2 ∈ s.terms :=
  List.mem_of_getElem? (term_ok_iff.1 h).2

theorem space_ok_iff {name : String} {i : Nat} {v : Space} :
    s.space name = .ok (i, v) ↔ s.resolve name = .ok (.space i) ∧ s.spaces[i]? = some v := by
  unfold space
  rw [Outcome.bind_ok_iff]
  constructor
  · rintro ⟨item, hitem, h⟩
    cases item with
    | space j =>
      obtain ⟨u, hu, h⟩ := Outcome.bind_ok_iff.1 h
      cases h
      exact ⟨hitem, element_ok_iff.1 hu⟩
    | _ => cases h
  · rintro ⟨hitem, hv⟩
    refine ⟨_, hitem, ?_⟩
    show (element s.spaces i >>= _) = _
    rw [element_ok_iff.2 hv]
    rfl

end

/-! ## Terms and their spaces -/

section

variable {K : Type}

/-- A term has as many coefficients as its space has variables. -/
def Fit (spaces : List Space) (t : StoredTerm K) : Prop :=
  ∃ v, spaces[t.space]? = some v ∧ v.size = t.dim

/-- A store whose terms fit their spaces, and whose constraints and names refer to terms there
    are. -/
structure Sound (s : Store K) : Prop where
  fits : ∀ t ∈ s.terms, Fit s.spaces t
  held : ∀ c ∈ s.constraints, c.term < s.terms.length
  named : ∀ name i, (name, StoredItem.term i) ∈ s.names → i < s.terms.length

theorem sound_empty : Sound (empty : Store K) :=
  ⟨List.forall_mem_nil _, List.forall_mem_nil _, fun _ _ h => nomatch h⟩

/-- Spaces of which none has lost or changed its size. -/
def SpacesKept (spaces spaces' : List Space) : Prop :=
  ∀ (i : Nat) (v : Space), spaces[i]? = some v → ∃ v', spaces'[i]? = some v' ∧ v'.size = v.size

theorem Fit.kept {spaces spaces' : List Space} {t : StoredTerm K} (h : Fit spaces t)
    (hkept : SpacesKept spaces spaces') : Fit spaces' t := by
  obtain ⟨v, hv, hsize⟩ := h
  obtain ⟨v', hv', hsize'⟩ := hkept _ v hv
  exact ⟨v', hv', hsize'.trans hsize⟩

theorem SpacesKept.refl (spaces : List Space) : SpacesKept spaces spaces :=
  fun _ v hv => ⟨v, hv, rfl⟩

theorem spacesKept_append (spaces more : List Space) : SpacesKept spaces (spaces ++ more) := by
  intro i v hv
  refine ⟨v, ?_, rfl⟩
  rw [List.getElem?_append_left (List.getElem?_eq_some_iff.1 hv).1, hv]

/-- A space may hand out variables. -/
theorem spacesKept_modify {spaces : List Space} {i : Nat} {v v' : Space}
    (hv : spaces[i]? = some v) (hsize : v'.size = v.size) :
    SpacesKept spaces (spaces.modify i fun _ => v') := by
  intro j w hw
  rw [List.getElem?_modify, hw]
  by_cases hij : i = j
  · subst hij
    rw [hv] at hw
    cases hw
    exact ⟨v', by simp, hsize⟩
  · exact ⟨w, by simp [hij], rfl⟩

/-- What handing out variables does to a store. -/
theorem handOut_eq [Scalar K] (s : Store K) (i : Nat) (v : Space) (names : List String)
    (vars : List Nat) : ∃ more, (s.handOut i v names vars).terms = s.terms ++ more ∧
      (∀ t ∈ more, t.space = i ∧ t.dim = v.size) ∧
      (s.handOut i v names vars).spaces = s.spaces.modify i (fun _ => v) ∧
      (s.handOut i v names vars).constraints = s.constraints ∧
      ∀ name j, (name, StoredItem.term j) ∈ (s.handOut i v names vars).names →
        (name, StoredItem.term j) ∈ s.names ∨ j < (s.terms ++ more).length := by
  have hfold : ∀ (pairs : List (String × Nat)) (s s' : Store K),
      s' = pairs.foldl (fun s e => s.keep e.1 ⟨i, v.size, Affine.var e.2⟩) s →
      ∃ more, s'.terms = s.terms ++ more ∧ (∀ t ∈ more, t.space = i ∧ t.dim = v.size) ∧
        s'.spaces = s.spaces ∧ s'.constraints = s.constraints ∧
        ∀ name j, (name, StoredItem.term j) ∈ s'.names →
          (name, StoredItem.term j) ∈ s.names ∨ j < (s.terms ++ more).length := by
    intro pairs
    induction pairs with
    | nil =>
      rintro s s' rfl
      exact ⟨[], (List.append_nil _).symm, List.forall_mem_nil _, rfl, rfl, fun _ _ => Or.inl⟩
    | cons pair pairs ih =>
      intro s s' hs'
      obtain ⟨more, hterms, hmore, hspaces, hconstraints, hnames⟩ := ih _ s' hs'
      have happend : (s.keep pair.1 ⟨i, v.size, Affine.var pair.2⟩).terms ++ more =
          s.terms ++ ⟨i, v.size, Affine.var pair.2⟩ :: more := List.append_assoc s.terms [_] more
      refine ⟨⟨i, v.size, Affine.var pair.2⟩ :: more, hterms.trans happend, ?_, hspaces,
        hconstraints, ?_⟩
      · exact List.forall_mem_cons.2 ⟨⟨rfl, rfl⟩, hmore⟩
      · intro name j hmem
        rw [← happend]
        rcases hnames name j hmem with hmem | hlt
        · rcases List.mem_cons.1 hmem with hnew | hmem
          · cases hnew
            right
            rw [happend, List.length_append, List.length_cons]
            omega
          · exact .inl hmem
        · exact .inr hlt
  exact hfold (names.zip vars) { s with spaces := s.spaces.modify i fun _ => v } _ rfl

end

/-! ## Changes -/

section

variable {K : Type} [Scalar K]

/-- What an operation that succeeds can do to a store, with the number of the term it updates in
    place, if it updates one. -/
inductive Change (s : Store K) : Option Nat → Store K → Prop
  /-- A space is opened. -/
  | opened (name : String) (v : Space) :
      Change s none ({ s with spaces := s.spaces ++ [v] }.bind name (.space s.spaces.length))
  /-- Variables are handed out, each a new term. -/
  | handedOut (names : List String) (vars : List Nat) {i : Nat} {v v' : Space}
      (hv : s.spaces[i]? = some v) (hsize : v'.size = v.size) :
      Change s none (s.handOut i v' names vars)
  /-- A new term is stored. -/
  | stored (name : String) {t : StoredTerm K} (ht : Fit s.spaces t) : Change s none (s.keep name t)
  /-- A term is updated in place. -/
  | updated {i : Nat} {t u : StoredTerm K} (hi : s.terms[i]? = some t) (hspace : u.space = t.space)
      (hdim : u.dim = t.dim) : Change s (some i) (s.replace i u)
  /-- A constraint on a term is stored; sets may change. -/
  | constrained (name : String) {c : StoredConstraint} (hc : c.term < s.terms.length)
      (sets : SetFamily Nat) : Change s none { s.keepConstraint name c with sets }
  /-- A new term and a constraint on it are stored. -/
  | compared (name : String) {t : StoredTerm K} (ht : Fit s.spaces t) {c : StoredConstraint}
      (hc : c.term = s.terms.length) (sets : SetFamily Nat) :
      Change s none { { s with terms := s.terms ++ [t] }.keepConstraint name c with sets }
  /-- A constraint is marked as added or not. -/
  | marked (i : Nat) (on : Bool) :
      Change s none { s with constraints := s.constraints.modify i fun c => { c with added := on } }
  /-- Sets or names change, and no name gets a term that had none. -/
  | arranged (sets : SetFamily Nat) {names : List (String × StoredItem)}
      (hnames : ∀ name i, (name, StoredItem.term i) ∈ names →
        ∃ name', (name', StoredItem.term i) ∈ s.names) :
      Change s none { s with sets, names }

/-- The term that an operation updates in place, if it updates one. -/
def target? (s : Store K) : StoreOp K → Option Nat
  | .addIn name _ => (s.term name).toOption.map (·.1)
  | .subIn name _ => (s.term name).toOption.map (·.1)
  | .addMulIn name _ _ => (s.term name).toOption.map (·.1)
  | .addScalarIn name _ => (s.term name).toOption.map (·.1)
  | .mulIn name _ => (s.term name).toOption.map (·.1)
  | _ => none

omit [Scalar K] in
/-- Terms that could be joined gave one of the space of the first. -/
theorem joined_ok {f : {n : Nat} → Affine K n → Affine K n → Affine K n} {t u w : StoredTerm K}
    (h : joined f t u = .ok w) : w.space = t.space ∧ w.dim = t.dim := by
  unfold joined at h
  split at h
  · cases h
    exact ⟨rfl, rfl⟩
  · cases h

variable {s s' : Store K}

theorem updateBy_change {name other : String}
    {f : {n : Nat} → Affine K n → Affine K n → Affine K n} (h : s.updateBy name other f = .ok s') :
    Change s ((s.term name).toOption.map (·.1)) s' := by
  obtain ⟨⟨i, t⟩, ht, h⟩ := Outcome.bind_ok_iff.1 h
  obtain ⟨⟨j, u⟩, -, h⟩ := Outcome.bind_ok_iff.1 h
  obtain ⟨w, hw, h⟩ := Outcome.bind_ok_iff.1 h
  cases h
  rw [ht]
  obtain ⟨hspace, hdim⟩ := joined_ok hw
  exact .updated (term_ok_iff.1 ht).2 hspace hdim

theorem update_change {name : String} {f : {n : Nat} → Affine K n → Affine K n}
    (h : s.update name f = .ok s') : Change s ((s.term name).toOption.map (·.1)) s' := by
  obtain ⟨⟨i, t⟩, ht, h⟩ := Outcome.bind_ok_iff.1 h
  cases h
  rw [ht]
  exact .updated (term_ok_iff.1 ht).2 rfl rfl

omit [Scalar K] in
theorem Sound.fit (h : Sound s) {name : String} {i : Nat} {t : StoredTerm K}
    (ht : s.term name = .ok (i, t)) : Fit s.spaces t :=
  h.fits t (mem_terms ht)

omit [Scalar K] in
theorem Sound.lt (h : Sound s) {name : String} {i : Nat} (hi : s.resolve name = .ok (.term i)) :
    i < s.terms.length :=
  h.named name i (mem_names hi)

/-- The result of an operator is a term of one of the spaces. -/
theorem Sound.combination (h : Sound s) {f : Operator} {a b : Operand K} {w : StoredTerm K}
    (hok : s.combination f a b = .ok w) : Fit s.spaces w := by
  have hjoined : ∀ (f : {n : Nat} → Affine K n → Affine K n → Affine K n) (t u : String),
      (do joined f (← s.term t).2 (← s.term u).2 : Outcome _) = .ok w → Fit s.spaces w := by
    intro f t u hok
    obtain ⟨⟨i, t⟩, ht, hok⟩ := Outcome.bind_ok_iff.1 hok
    obtain ⟨⟨j, u⟩, -, hok⟩ := Outcome.bind_ok_iff.1 hok
    obtain ⟨hspace, hdim⟩ := joined_ok hok
    obtain ⟨v, hv, hsize⟩ := h.fit ht
    exact ⟨v, hspace ▸ hv, hdim ▸ hsize⟩
  have hsingle : ∀ (f : {n : Nat} → Affine K n → Affine K n) (t : String),
      (s.term t >>= fun p => .ok { p.2 with term := f p.2.term } : Outcome _) = .ok w →
        Fit s.spaces w := by
    intro f t hok
    obtain ⟨⟨i, u⟩, hu, hok⟩ := Outcome.bind_ok_iff.1 hok
    cases hok
    obtain ⟨v, hv, hsize⟩ := h.fit hu
    exact ⟨v, hv, hsize⟩
  cases a with
  | number d =>
    cases b with
    | number e => cases f <;> cases hok
    | term u =>
      cases f with
      | mul => exact hsingle (fun t => t.mul d) u hok
      | _ => cases hok
  | term t =>
    cases b with
    | number d =>
      cases f with
      | add => exact hsingle (fun t => t.addScalar d) t hok
      | sub => exact hsingle (fun t => t.addScalar (-d)) t hok
      | mul => exact hsingle (fun t => t.mul d) t hok
    | term u =>
      cases f with
      | add => exact hjoined Affine.add t u hok
      | sub => exact hjoined Affine.sub t u hok
      | mul => cases hok

/-- **One operation** that succeeds does one of the changes. -/
theorem apply_change (h : Sound s) {op : StoreOp K} (hok : s.apply op = .ok s') :
    Change s (s.target? op) s' := by
  cases op with
  | space name size =>
    obtain ⟨v, -, hok⟩ := Outcome.bind_ok_iff.1 hok
    cases hok
    exact .opened name v
  | const name space value =>
    obtain ⟨⟨i, v⟩, hv, hok⟩ := Outcome.bind_ok_iff.1 hok
    cases hok
    exact .stored name ⟨v, (space_ok_iff.1 hv).2, rfl⟩
  | fresh name space =>
    obtain ⟨⟨i, v⟩, hv, hok⟩ := Outcome.bind_ok_iff.1 hok
    obtain ⟨⟨x, v'⟩, hfresh, hok⟩ := Outcome.bind_ok_iff.1 hok
    cases hok
    exact .handedOut _ _ (space_ok_iff.1 hv).2 (Space.fresh_spec hfresh).1
  | freshMany stem space count =>
    obtain ⟨⟨i, v⟩, hv, hok⟩ := Outcome.bind_ok_iff.1 hok
    obtain ⟨⟨xs, v'⟩, hfresh, hok⟩ := Outcome.bind_ok_iff.1 hok
    cases hok
    exact .handedOut _ _ (space_ok_iff.1 hv).2 (Space.freshMany_spec hfresh).1
  | term name space coeffs intercept =>
    obtain ⟨⟨i, v⟩, hv, hok⟩ := Outcome.bind_ok_iff.1 hok
    obtain ⟨t, -, hok⟩ := Outcome.bind_ok_iff.1 hok
    cases hok
    exact .stored name ⟨v, (space_ok_iff.1 hv).2, rfl⟩
  | copy name source =>
    obtain ⟨⟨i, t⟩, ht, hok⟩ := Outcome.bind_ok_iff.1 hok
    cases hok
    exact .stored name (h.fit ht)
  | «alias» name source =>
    obtain ⟨item, hitem, hok⟩ := Outcome.bind_ok_iff.1 hok
    cases hok
    refine .arranged s.sets fun n i hmem => ?_
    rcases List.mem_cons.1 hmem with hnew | hmem
    · cases hnew
      exact ⟨source, mem_names hitem⟩
    · exact ⟨n, hmem⟩
  | addIn name other => exact updateBy_change hok
  | subIn name other => exact updateBy_change hok
  | addMulIn name other d => exact updateBy_change hok
  | addScalarIn name d => exact update_change (f := fun t => t.addScalar d) hok
  | mulIn name d => exact update_change (f := fun t => t.mul d) hok
  | combine name f a b =>
    obtain ⟨t, ht, hok⟩ := Outcome.bind_ok_iff.1 hok
    cases hok
    exact .stored name (h.combination ht)
  | neg name source =>
    obtain ⟨⟨i, t⟩, ht, hok⟩ := Outcome.bind_ok_iff.1 hok
    cases hok
    obtain ⟨v, hv, hsize⟩ := h.fit ht
    exact .stored name ⟨v, hv, hsize⟩
  | constrain name term relation =>
    obtain ⟨⟨i, t⟩, ht, hok⟩ := Outcome.bind_ok_iff.1 hok
    cases hok
    exact .constrained name (h.lt (term_ok_iff.1 ht).1) s.sets
  | mark name on =>
    obtain ⟨i, -, hok⟩ := Outcome.bind_ok_iff.1 hok
    cases hok
    exact .marked i on
  | set name members =>
    obtain ⟨ids, -, hok⟩ := Outcome.bind_ok_iff.1 hok
    cases hok
    refine .arranged _ fun n i hmem => ?_
    rcases List.mem_cons.1 hmem with hnew | hmem
    · cases hnew
    · exact ⟨n, hmem⟩
  | setAdd set name =>
    obtain ⟨i, -, hok⟩ := Outcome.bind_ok_iff.1 hok
    obtain ⟨c, -, hok⟩ := Outcome.bind_ok_iff.1 hok
    cases hok
    exact .arranged _ fun n i hmem => ⟨n, hmem⟩
  | addTerm name set term relation =>
    obtain ⟨i, -, hok⟩ := Outcome.bind_ok_iff.1 hok
    obtain ⟨⟨j, t⟩, ht, hok⟩ := Outcome.bind_ok_iff.1 hok
    cases hok
    exact .constrained name (h.lt (term_ok_iff.1 ht).1) _
  | addCompare name set left relation right =>
    obtain ⟨i, -, hok⟩ := Outcome.bind_ok_iff.1 hok
    obtain ⟨t, ht, hok⟩ := Outcome.bind_ok_iff.1 hok
    cases hok
    exact .compared name (h.combination ht) rfl _
  | union set other =>
    obtain ⟨i, -, hok⟩ := Outcome.bind_ok_iff.1 hok
    obtain ⟨j, -, hok⟩ := Outcome.bind_ok_iff.1 hok
    obtain ⟨sets, -, hok⟩ := Outcome.bind_ok_iff.1 hok
    cases hok
    exact .arranged _ fun n i hmem => ⟨n, hmem⟩

/-! ### Frames -/

namespace Change

variable {target : Option Nat}

/-- Every term but the one updated in place is as before. -/
theorem kept (h : Change s target s') {j : Nat} {t : StoredTerm K} (hj : s.terms[j]? = some t)
    (hne : target ≠ some j) : s'.terms[j]? = some t := by
  have hlt := (List.getElem?_eq_some_iff.1 hj).1
  -- new terms come after all others
  have hmore : ∀ more : List (StoredTerm K), (s.terms ++ more)[j]? = some t := fun more =>
    (List.getElem?_append_left hlt).trans hj
  cases h with
  | handedOut names vars hv hsize =>
    obtain ⟨more, hterms, -⟩ := handOut_eq s _ _ names vars
    rw [hterms]
    exact hmore more
  | stored name ht => exact hmore [_]
  | compared name ht hc sets => exact hmore [_]
  | @updated i t₀ u hi hspace hdim =>
    show (s.terms.modify i _)[j]? = _
    rw [List.getElem?_modify, hj]
    have hij : ¬ i = j := fun hij => hne (congrArg some hij)
    exact congrArg some (if_neg hij)
  | _ => exact hj

/-- Every constraint keeps its term and its relation. -/
theorem held (h : Change s target s') {k : Nat} {c : StoredConstraint}
    (hk : s.constraints[k]? = some c) :
    ∃ c', s'.constraints[k]? = some c' ∧ c'.term = c.term ∧ c'.relation = c.relation := by
  have hlt := (List.getElem?_eq_some_iff.1 hk).1
  -- and so do new constraints
  have hmore : ∀ more : List StoredConstraint, (s.constraints ++ more)[k]? = some c := fun more =>
    (List.getElem?_append_left hlt).trans hk
  cases h with
  | handedOut names vars hv hsize =>
    obtain ⟨more, -, -, -, hconstraints, -⟩ := handOut_eq s _ _ names vars
    exact ⟨c, hconstraints ▸ hk, rfl, rfl⟩
  | constrained name hc sets => exact ⟨c, hmore [_], rfl, rfl⟩
  | compared name ht hc sets => exact ⟨c, hmore [_], rfl, rfl⟩
  | marked i on =>
    show ∃ c', (s.constraints.modify i _)[k]? = some c' ∧ _
    rw [List.getElem?_modify, hk]
    by_cases hik : i = k
    · exact ⟨{ c with added := on }, congrArg some (if_pos hik), rfl, rfl⟩
    · exact ⟨c, congrArg some (if_neg hik), rfl, rfl⟩
  | _ => exact ⟨c, hk, rfl, rfl⟩

/-- No space is lost or changes its size. -/
theorem spacesKept (h : Change s target s') : SpacesKept s.spaces s'.spaces := by
  cases h with
  | opened name v => exact spacesKept_append s.spaces [v]
  | handedOut names vars hv hsize =>
    obtain ⟨more, -, -, hspaces, -⟩ := handOut_eq s _ _ names vars
    rw [hspaces]
    exact spacesKept_modify hv hsize
  | _ => exact .refl s.spaces

/-- No term is lost. -/
theorem length_le (h : Change s target s') : s.terms.length ≤ s'.terms.length := by
  have hmore : ∀ more : List (StoredTerm K), s.terms.length ≤ (s.terms ++ more).length :=
    fun more => (List.prefix_append s.terms more).length_le
  cases h with
  | handedOut names vars hv hsize =>
    obtain ⟨more, hterms, -⟩ := handOut_eq s _ _ names vars
    rw [hterms]
    exact hmore more
  | stored name ht => exact hmore [_]
  | compared name ht hc sets => exact hmore [_]
  | updated hi hspace hdim => exact Nat.le_of_eq (List.length_modify ..).symm
  | _ => exact Nat.le_refl _

/-- Terms keep as many coefficients as their spaces have variables. -/
theorem fits (h : Change s target s') (hs : Sound s) : ∀ t ∈ s'.terms, Fit s'.spaces t := by
  have hold : ∀ t ∈ s.terms, Fit s'.spaces t := fun t ht => (hs.fits t ht).kept h.spacesKept
  intro t ht
  cases h with
  | @handedOut names vars i v v' hv hsize =>
    obtain ⟨more, hterms, hmore, hspaces, -⟩ := handOut_eq s i v' names vars
    rw [hterms] at ht
    rcases List.mem_append.1 ht with ht | ht
    · exact hold t ht
    · -- a variable is of the space that handed it out, as that space is now
      obtain ⟨hspace, hdim⟩ := hmore t ht
      refine ⟨v', ?_, hdim.symm⟩
      rw [hspace, hspaces, List.getElem?_modify, hv]
      exact congrArg some (if_pos rfl)
  | stored name hnew =>
    rcases List.mem_append.1 ht with ht | ht
    · exact hold t ht
    · exact List.mem_singleton.1 ht ▸ hnew
  | compared name hnew hc sets =>
    rcases List.mem_append.1 ht with ht | ht
    · exact hold t ht
    · exact List.mem_singleton.1 ht ▸ hnew
  | @updated i t₀ u hi hspace hdim =>
    obtain ⟨j, hj⟩ := List.getElem?_of_mem ht
    replace hj : (s.terms.modify i fun _ => u)[j]? = some t := hj
    rw [List.getElem?_modify] at hj
    obtain ⟨x, hx, rfl⟩ := Option.map_eq_some_iff.1 hj
    split
    · -- the updated term is of the space and the dimension that it had
      obtain ⟨v, hv, hsize⟩ := hs.fits t₀ (List.mem_of_getElem? hi)
      exact ⟨v, hspace ▸ hv, hdim ▸ hsize⟩
    · exact hold x (List.mem_of_getElem? hx)
  | _ => exact hold t ht

/-- Constraints are on terms there are. -/
theorem grounded (h : Change s target s') (hs : Sound s) :
    ∀ c ∈ s'.constraints, c.term < s'.terms.length := by
  have hold : ∀ c ∈ s.constraints, c.term < s'.terms.length := fun c hc =>
    Nat.lt_of_lt_of_le (hs.held c hc) h.length_le
  intro c hmem
  cases h with
  | handedOut names vars hv hsize =>
    obtain ⟨more, -, -, -, hconstraints, -⟩ := handOut_eq s _ _ names vars
    exact hold c (hconstraints ▸ hmem)
  | constrained name hc sets =>
    rcases List.mem_append.1 hmem with hmem | hmem
    · exact hold c hmem
    · exact List.mem_singleton.1 hmem ▸ hc
  | compared name ht hc sets =>
    rcases List.mem_append.1 hmem with hmem | hmem
    · exact hold c hmem
    · rw [List.mem_singleton.1 hmem, hc]
      exact List.length_append ▸ Nat.lt_succ_self _
  | marked i on =>
    obtain ⟨k, hk⟩ := List.getElem?_of_mem hmem
    replace hk : (s.constraints.modify i _)[k]? = some c := hk
    rw [List.getElem?_modify] at hk
    obtain ⟨c₀, hc₀, rfl⟩ := Option.map_eq_some_iff.1 hk
    have hlt := hold c₀ (List.mem_of_getElem? hc₀)
    split <;> exact hlt
  | _ => exact hold c hmem

/-- Names are of terms there are. -/
theorem named (h : Change s target s') (hs : Sound s) :
    ∀ name i, (name, StoredItem.term i) ∈ s'.names → i < s'.terms.length := by
  have hold : ∀ name i, (name, StoredItem.term i) ∈ s.names → i < s'.terms.length :=
    fun name i hmem => Nat.lt_of_lt_of_le (hs.named name i hmem) h.length_le
  intro n i hmem
  cases h with
  | handedOut names vars hv hsize =>
    obtain ⟨more, hterms, -, -, -, hnames⟩ := handOut_eq s _ _ names vars
    rcases hnames n i hmem with hmem | hlt
    · exact hold n i hmem
    · exact hterms ▸ hlt
  | stored name ht =>
    rcases List.mem_cons.1 hmem with hnew | hmem
    · cases hnew
      show s.terms.length < (s.terms ++ [_]).length
      simp
    · exact hold n i hmem
  | opened name v =>
    rcases List.mem_cons.1 hmem with hnew | hmem
    · cases hnew
    · exact hold n i hmem
  | constrained name hc sets =>
    rcases List.mem_cons.1 hmem with hnew | hmem
    · cases hnew
    · exact hold n i hmem
  | compared name ht hc sets =>
    rcases List.mem_cons.1 hmem with hnew | hmem
    · cases hnew
    · exact hold n i hmem
  | arranged sets hnames =>
    obtain ⟨name', hmem⟩ := hnames n i hmem
    exact hold name' i hmem
  | _ => exact hold n i hmem

/-- A sound store stays sound. -/
theorem sound (h : Change s target s') (hs : Sound s) : Sound s' :=
  ⟨h.fits hs, h.grounded hs, h.named hs⟩

end Change

/-! ### New terms -/

/-- An operation that makes one term stores it under its name. -/
theorem apply_makes {op : StoreOp K} {name : String} (hop : op.makes? = some name)
    (hok : s.apply op = .ok s') : ∃ t, s' = s.keep name t := by
  cases op with
  | const name space value =>
    obtain ⟨⟨i, v⟩, -, hok⟩ := Outcome.bind_ok_iff.1 hok
    cases hop
    cases hok
    exact ⟨_, rfl⟩
  | term name space coeffs intercept =>
    obtain ⟨⟨i, v⟩, -, hok⟩ := Outcome.bind_ok_iff.1 hok
    obtain ⟨t, -, hok⟩ := Outcome.bind_ok_iff.1 hok
    cases hop
    cases hok
    exact ⟨_, rfl⟩
  | copy name source =>
    obtain ⟨⟨i, t⟩, -, hok⟩ := Outcome.bind_ok_iff.1 hok
    cases hop
    cases hok
    exact ⟨_, rfl⟩
  | combine name f a b =>
    obtain ⟨t, -, hok⟩ := Outcome.bind_ok_iff.1 hok
    cases hop
    cases hok
    exact ⟨_, rfl⟩
  | neg name source =>
    obtain ⟨⟨i, t⟩, -, hok⟩ := Outcome.bind_ok_iff.1 hok
    cases hop
    cases hok
    exact ⟨_, rfl⟩
  | _ => cases hop

/-- **New terms.**  Nothing refers to the term that an operator or a copy makes but its name. -/
theorem apply_made (h : Sound s) {op : StoreOp K} {name : String} (hop : op.makes? = some name)
    (hok : s.apply op = .ok s') :
    s'.resolve name = .ok (.term s.terms.length) ∧
      (∀ other, other ≠ name → s'.resolve other ≠ .ok (.term s.terms.length)) ∧
      ∀ c ∈ s'.constraints, c.term ≠ s.terms.length := by
  obtain ⟨t, rfl⟩ := apply_makes hop hok
  refine ⟨?_, ?_, fun c hc => Nat.ne_of_lt (h.held c hc)⟩
  · exact resolve_ok_iff.2 List.lookup_cons_self
  · intro other hne hother
    have hlookup := resolve_ok_iff.1 hother
    replace hlookup : ((name, StoredItem.term s.terms.length) :: s.names).lookup other = _ := hlookup
    rw [List.lookup_cons, beq_false_of_ne hne] at hlookup
    exact Nat.lt_irrefl _ (h.lt (resolve_ok_iff.2 hlookup))

/-- What an operation leaves alone: every term but the one it updates in place, and what every
    constraint is on.  The term it makes, if it makes one, is under its name and nowhere else. -/
structure Frame (s : Store K) (op : StoreOp K) (s' : Store K) : Prop where
  kept : ∀ (j : Nat) (t : StoredTerm K), s.terms[j]? = some t → s.target? op ≠ some j →
    s'.terms[j]? = some t
  held : ∀ (k : Nat) (c : StoredConstraint), s.constraints[k]? = some c →
    ∃ c' : StoredConstraint, s'.constraints[k]? = some c' ∧ c'.term = c.term ∧
      c'.relation = c.relation
  made : ∀ name, op.makes? = some name →
    s'.resolve name = .ok (.term s.terms.length) ∧
      (∀ other, other ≠ name → s'.resolve other ≠ .ok (.term s.terms.length)) ∧
      ∀ c ∈ s'.constraints, c.term ≠ s.terms.length

theorem apply_frame (h : Sound s) {op : StoreOp K} (hok : s.apply op = .ok s') : Frame s op s' where
  kept _ _ := (apply_change h hok).kept
  held _ _ := (apply_change h hok).held
  made _ hop := apply_made h hop hok

/-! ### Mixing -/

omit [Scalar K] in
/-- Terms of different spaces are not joined. -/
theorem joined_of_ne {f : {n : Nat} → Affine K n → Affine K n → Affine K n} {t u : StoredTerm K}
    (h : t.space ≠ u.space) : joined f t u = .error .spacesDiffer := by
  unfold joined
  rw [dif_neg fun hboth => h hboth.1]

/-- **Mixing.**  An operation on two terms of different spaces fails with a mismatch, whatever else
    is the matter with it; only a comparison may fail for want of its set before that. -/
theorem apply_mixed {op : StoreOp K} {a b : String} (hop : op.mixes? = some (a, b))
    {i j : Nat} {t u : StoredTerm K} (ha : s.term a = .ok (i, t)) (hb : s.term b = .ok (j, u))
    (hne : t.space ≠ u.space)
    (hset : ∀ name set left relation right, op = .addCompare name set left relation right →
      ∃ k, s.setId set = .ok k) : s.apply op = .error .spacesDiffer := by
  -- both terms are found, and then they do not join
  have hupdate : ∀ f : {n : Nat} → Affine K n → Affine K n → Affine K n,
      s.updateBy a b f = .error .spacesDiffer := by
    intro f
    unfold updateBy
    rw [ha, hb]
    show (joined f t u >>= _) = _
    rw [joined_of_ne hne]
    rfl
  have hjoined : ∀ f : {n : Nat} → Affine K n → Affine K n → Affine K n,
      (do joined f (← s.term a).2 (← s.term b).2 : Outcome _) = .error .spacesDiffer := by
    intro f
    rw [ha, hb]
    exact joined_of_ne hne
  cases op with
  | addIn name other =>
    cases hop
    exact hupdate _
  | subIn name other =>
    cases hop
    exact hupdate _
  | addMulIn name other d =>
    cases hop
    exact hupdate _
  | combine name f x y =>
    have hcombination : s.combination f x y = .error .spacesDiffer := by
      cases f <;> cases x <;> cases y <;> cases hop <;> exact hjoined _
    show (s.combination f x y >>= _) = _
    rw [hcombination]
    rfl
  | addCompare name set x relation y =>
    obtain ⟨k, hk⟩ := hset name set x relation y rfl
    have hcombination : s.combination .sub x y = .error .spacesDiffer := by
      cases x <;> cases y <;> cases hop
      exact hjoined _
    show (s.setId set >>= _) = _
    rw [hk]
    show (s.combination .sub x y >>= _) = _
    rw [hcombination]
    rfl
  | _ => cases hop

/-! ### Runs -/

/-- The store after an operation, whether or not it fails. -/
def step (s : Store K) (op : StoreOp K) : Store K := (s.apply op).toOption.getD s

/-- The store after operations on nothing. -/
def run (ops : List (StoreOp K)) : Store K := ops.foldl step empty

theorem step_sound (h : Sound s) (op : StoreOp K) : Sound (s.step op) := by
  unfold step
  cases hok : s.apply op with
  | error e => exact h
  | ok s' => exact (apply_change h hok).sound h

/-- Every run is sound. -/
theorem run_sound (ops : List (StoreOp K)) : Sound (run ops) := by
  -- the run may start anywhere sound
  have hfoldl : ∀ (ops : List (StoreOp K)) (s : Store K), Sound s → Sound (ops.foldl step s) := by
    intro ops
    induction ops with
    | nil => exact fun s h => h
    | cons op ops ih => exact fun s h => ih _ (step_sound h op)
  exact hfoldl ops empty sound_empty

end

end Store

end Perturb
