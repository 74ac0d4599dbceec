/-
  What a space hands out.

  A space counts how many of its variables are in use, and the variables it hands out carry their
  numbers.  Operations on a store ask spaces by name, one variable or many at a time; between them
  anything else may happen to the store.

  1. **Requests (`apply_of_le`, `apply_of_lt`)** — one variable and many are handed out by two rules,
     each with a test of its own.  Both come to the same: the next so many, if as many are left.
     A constant is a request for none.

  2. **The crux (`step_moves`)** — an operation moves a space on by as many variables as it hands out
     of it, and those are the next ones.  Operations that do not ask the space leave it alone
     (`step_of_not_asked`), and one that fails leaves everything alone.

  3. **Runs (`run_moves`)** — what was handed out along a run is therefore the variables from the
     first to the last, in order.

  That they differ, and what their values are, is a question of one variable (`IsVariable`).
-/
import Perturb.Proofs.Constraint.Sharing
import Perturb.Proofs.Term.Eval

namespace Perturb

/-- The space that an operation asks for variables, by name, and for how many.  A negative count
    asks for none, and so does a constant. -/
def StoreOp.asks? {K : Type} : StoreOp K → Option (String × Nat)
  | .const _ owner _ => some (owner, 0)
  | .fresh _ owner => some (owner, 1)
  | .freshMany _ owner count => some (owner, count.toNat)
  | _ => none

/-! ## Requests -/

namespace Space

variable {v : Space}

/-- A space of a positive size has none of its variables in use. -/
theorem ofSize_ok {n : Int} (hn : 1 ≤ n) :
    ∃ v, ofSize n = .ok v ∧ (v.size : Int) = n ∧ v.next = 0 := by
  have hpos : 0 < n.toNat := by omega
  exact ⟨⟨n.toNat, 0, hpos, Nat.zero_le _⟩, dif_pos hpos, Int.toNat_of_nonneg (by omega), rfl⟩

/-- The space after the next so many variables are handed out. -/
def moved (v : Space) (count : Nat) (h : v.next + count ≤ v.size) : Space :=
  { v with next := v.next + count, next_le := h }

@[simp] theorem moved_size {count : Nat} (h : v.next + count ≤ v.size) :
    (v.moved count h).size = v.size := rfl

@[simp] theorem moved_next {count : Nat} (h : v.next + count ≤ v.size) :
    (v.moved count h).next = v.next + count := rfl

theorem fresh_of_le (h : v.next + 1 ≤ v.size) : v.fresh = .ok (v.next, v.moved 1 h) := dif_pos h

theorem fresh_of_lt (h : v.size < v.next + 1) :
    v.fresh = .error (.spaceExhausted (v.next + 1) v.size) := dif_neg (by omega)

theorem freshMany_of_le {count : Int} (h : v.next + count.toNat ≤ v.size) :
    v.freshMany count = .ok (List.range' v.next count.toNat, v.moved count.toNat h) := dif_pos h

theorem freshMany_of_lt {count : Int} (h : v.size < v.next + count.toNat) :
    v.freshMany count = .error (.spaceShort count (v.size - v.next)) := dif_neg (by omega)

end Space

namespace Store

section

variable {K : Type} [Scalar K]

/-- The `j`-th variable of the space with a number. -/
def unit (i size j : Nat) : StoredTerm K := ⟨i, size, Affine.var j⟩

/-- The number of the space that an operation asks for variables, and for how many. -/
def asked? (s : Store K) (op : StoreOp K) : Option (Nat × Nat) :=
  op.asks?.bind fun (name, count) => (s.space name).toOption.map fun (i, _) => (i, count)

/-- The variables that an operation hands out of the space with a number: the terms that it adds to
    the store, unless it is a constant. -/
def handedBy (s : Store K) (i : Nat) (op : StoreOp K) : List (StoredTerm K) :=
  match op with
  | .const .. => []
  | _ => if (s.asked? op).map (·.1) = some i then (s.step op).terms.drop s.terms.length else []

/-- The variables that operations, in order, hand out of the space with a number. -/
def handed (i : Nat) (s : Store K) : List (StoreOp K) → List (StoredTerm K)
  | [] => []
  | op :: ops => s.handedBy i op ++ handed i (s.step op) ops

variable {s s' : Store K} {op : StoreOp K} {i k : Nat} {v : Space}

omit [Scalar K] in
theorem asked?_eq_some_iff : s.asked? op = some (i, k) ↔
    ∃ name, op.asks? = some (name, k) ∧ ∃ v, s.space name = .ok (i, v) := by
  unfold asked?
  rw [Option.bind_eq_some_iff]
  constructor
  · rintro ⟨⟨name, k'⟩, hasks, h⟩
    obtain ⟨⟨j, v⟩, hv, h⟩ := Option.map_eq_some_iff.1 h
    cases h
    exact ⟨name, hasks, v, Outcome.ok_of_toOption hv⟩
  · rintro ⟨name, hasks, v, hv⟩
    refine ⟨(name, k), hasks, ?_⟩
    show (s.space name).toOption.map _ = _
    rw [hv]
    rfl

omit [Scalar K] in
/-- What is asked is the space that the operation finds under a name. -/
theorem owner_of_asked (hasked : s.asked? op = some (i, k)) (hv : s.spaces[i]? = some v) :
    ∃ owner, op.asks? = some (owner, k) ∧ s.space owner = .ok (i, v) := by
  obtain ⟨owner, hasks, w, hw⟩ := asked?_eq_some_iff.1 hasked
  obtain rfl : v = w := Option.some.inj (hv.symm.trans (space_ok_iff.1 hw).2)
  exact ⟨owner, hasks, hw⟩

theorem step_of_ok (h : s.apply op = .ok s') : s.step op = s' := by
  unfold step
  rw [h]
  rfl

theorem step_of_error {e : Fault} (h : s.apply op = .error e) : s.step op = s := by
  unfold step
  rw [h]
  rfl

/-- Variables handed out under as many names are new terms, in order. -/
theorem terms_handOut (s : Store K) (i : Nat) (v : Space) {names : List String} {vars : List Nat}
    (hlen : names.length = vars.length) :
    (s.handOut i v names vars).terms = s.terms ++ vars.map (unit i v.size) := by
  have hfold : ∀ (pairs : List (String × Nat)) (s : Store K),
      (pairs.foldl (fun s e => s.keep e.1 ⟨i, v.size, Affine.var e.2⟩) s).terms =
        s.terms ++ (pairs.map (·.2)).map (unit i v.size) := by
    intro pairs
    induction pairs with
    | nil => exact fun s => (List.append_nil _).symm
    | cons pair pairs ih =>
      intro s
      rw [List.foldl_cons, ih]
      exact List.append_assoc s.terms [_] _
  unfold handOut
  rw [hfold, List.map_snd_zip hlen.ge]

theorem spaces_handOut (s : Store K) (i : Nat) (v : Space) (names : List String)
    (vars : List Nat) : (s.handOut i v names vars).spaces = s.spaces.set i v := by
  obtain ⟨-, -, -, hspaces, -⟩ := handOut_eq s i v names vars
  rw [hspaces, List.set_eq_modify]

/-! ## One operation -/

/-- An operation that hands out variables under as many names hands out these. -/
theorem handedBy_handOut {names : List String} {vars : List Nat} {w : Space}
    (hop : ∀ name owner d, op ≠ .const name owner d) (hasked : s.asked? op = some (i, k))
    (hok : s.apply op = .ok (s.handOut i w names vars)) (hlen : names.length = vars.length) :
    s.handedBy i op = vars.map (unit i w.size) := by
  unfold handedBy
  split
  · exact absurd rfl (hop _ _ _)
  · rw [if_pos (by rw [hasked]; rfl), step_of_ok hok, terms_handOut s i w hlen, List.drop_left]

/-- A request that a space can meet moves it on, and hands out the next variables. -/
theorem apply_of_le (hasked : s.asked? op = some (i, k)) (hv : s.spaces[i]? = some v)
    (h : v.next + k ≤ v.size) : ∃ s', s.apply op = .ok s' ∧
      s'.spaces = s.spaces.set i (v.moved k h) ∧
      s.handedBy i op = (List.range' v.next k).map (unit i v.size) := by
  obtain ⟨owner, hasks, hw⟩ := owner_of_asked hasked hv
  cases op with
  | const name owner d =>
    cases hasks
    refine ⟨s.keep name ⟨i, v.size, Affine.const d⟩, ?_, ?_, rfl⟩
    · show (s.space owner >>= _) = _
      rw [hw]
      rfl
    · obtain ⟨hi, rfl⟩ := List.getElem?_eq_some_iff.1 hv
      exact (List.set_getElem_self hi).symm
  | fresh name owner =>
    cases hasks
    have hok : s.apply (.fresh name owner) = .ok (s.handOut i (v.moved 1 h) [name] [v.next]) := by
      show (s.space owner >>= _) = _
      rw [hw]
      show (v.fresh >>= _) = _
      rw [Space.fresh_of_le h]
      rfl
    have hhanded := handedBy_handOut nofun hasked hok rfl
    exact ⟨_, hok, spaces_handOut .., hhanded⟩
  | freshMany stem owner count =>
    cases hasks
    have hok : s.apply (.freshMany stem owner count) =
        .ok (s.handOut i (v.moved count.toNat h)
          ((List.range (List.range' v.next count.toNat).length).map fun k =>
            stem ++ Number.digitsOf k) (List.range' v.next count.toNat)) := by
      show (s.space owner >>= _) = _
      rw [hw]
      show (v.freshMany count >>= _) = _
      rw [Space.freshMany_of_le h]
      rfl
    have hhanded := handedBy_handOut nofun hasked hok (by simp)
    exact ⟨_, hok, spaces_handOut .., hhanded⟩
  | _ => cases hasks

/-- A request that a space cannot meet fails for want of variables. -/
theorem apply_of_lt (hasked : s.asked? op = some (i, k)) (hv : s.spaces[i]? = some v)
    (h : v.size < v.next + k) : ∃ e, s.apply op = .error e ∧ e.kind = .exhausted := by
  obtain ⟨owner, hasks, hw⟩ := owner_of_asked hasked hv
  cases op with
  | const name owner d =>
    cases hasks
    exact absurd v.next_le (Nat.not_le_of_lt h)
  | fresh name owner =>
    cases hasks
    refine ⟨.spaceExhausted (v.next + 1) v.size, ?_, rfl⟩
    show (s.space owner >>= _) = _
    rw [hw]
    show (v.fresh >>= _) = _
    rw [Space.fresh_of_lt h]
    rfl
  | freshMany stem owner count =>
    cases hasks
    refine ⟨.spaceShort count (v.size - v.next), ?_, rfl⟩
    show (s.space owner >>= _) = _
    rw [hw]
    show (v.freshMany count >>= _) = _
    rw [Space.freshMany_of_lt h]
    rfl
  | _ => cases hasks

omit [Scalar K] in
/-- An update in place leaves the spaces alone. -/
theorem spaces_update {name : String} {f : {n : Nat} → Affine K n → Affine K n}
    (hok : s.update name f = .ok s') : s'.spaces = s.spaces := by
  obtain ⟨⟨j, t⟩, -, hok⟩ := Outcome.bind_ok_iff.1 hok
  cases hok
  rfl

omit [Scalar K] in
/-- So does one by another term. -/
theorem spaces_updateBy {name other : String}
    {f : {n : Nat} → Affine K n → Affine K n → Affine K n}
    (hok : s.updateBy name other f = .ok s') : s'.spaces = s.spaces := by
  obtain ⟨⟨j, t⟩, -, hok⟩ := Outcome.bind_ok_iff.1 hok
  obtain ⟨⟨l, u⟩, -, hok⟩ := Outcome.bind_ok_iff.1 hok
  obtain ⟨w, -, hok⟩ := Outcome.bind_ok_iff.1 hok
  cases hok
  rfl

/-- An operation that asks no space leaves all of them alone; it may open one more. -/
theorem spaces_of_silent (hsilent : op.asks? = none) (hok : s.apply op = .ok s') :
    s.spaces <+: s'.spaces := by
  cases op with
  | const name owner d => cases hsilent
  | fresh name owner => cases hsilent
  | freshMany stem owner count => cases hsilent
  | space name size =>
    obtain ⟨v, -, hok⟩ := Outcome.bind_ok_iff.1 hok
    cases hok
    exact List.prefix_append _ _
  | addIn name other => exact spaces_updateBy hok ▸ List.prefix_refl _
  | subIn name other => exact spaces_updateBy hok ▸ List.prefix_refl _
  | addMulIn name other d => exact spaces_updateBy hok ▸ List.prefix_refl _
  | addScalarIn name d =>
    exact spaces_update (f := fun t => t.addScalar d) hok ▸ List.prefix_refl _
  | mulIn name d => exact spaces_update (f := fun t => t.mul d) hok ▸ List.prefix_refl _
  | term name owner coeffs intercept =>
    obtain ⟨⟨j, v⟩, -, hok⟩ := Outcome.bind_ok_iff.1 hok
    obtain ⟨t, -, hok⟩ := Outcome.bind_ok_iff.1 hok
    cases hok
    exact List.prefix_refl _
  | setAdd set name =>
    obtain ⟨j, -, hok⟩ := Outcome.bind_ok_iff.1 hok
    obtain ⟨c, -, hok⟩ := Outcome.bind_ok_iff.1 hok
    cases hok
    exact List.prefix_refl _
  | addTerm name set term relation =>
    obtain ⟨j, -, hok⟩ := Outcome.bind_ok_iff.1 hok
    obtain ⟨⟨l, t⟩, -, hok⟩ := Outcome.bind_ok_iff.1 hok
    cases hok
    exact List.prefix_refl _
  | addCompare name set left relation right =>
    obtain ⟨j, -, hok⟩ := Outcome.bind_ok_iff.1 hok
    obtain ⟨t, -, hok⟩ := Outcome.bind_ok_iff.1 hok
    cases hok
    exact List.prefix_refl _
  | union set other =>
    obtain ⟨j, -, hok⟩ := Outcome.bind_ok_iff.1 hok
    obtain ⟨l, -, hok⟩ := Outcome.bind_ok_iff.1 hok
    obtain ⟨sets, -, hok⟩ := Outcome.bind_ok_iff.1 hok
    cases hok
    exact List.prefix_refl _
  | _ =>
    -- what is left looks up one thing and stores another
    obtain ⟨x, -, hok⟩ := Outcome.bind_ok_iff.1 hok
    cases hok
    exact List.prefix_refl _

/-- An operation that asks a space for variables looks it up first. -/
theorem apply_of_missing {owner : String} {e : Fault} (hasks : op.asks? = some (owner, k))
    (hmissing : s.space owner = .error e) : s.apply op = .error e := by
  have hlookup : ∃ f : Nat × Space → Outcome (Store K), s.apply op = s.space owner >>= f := by
    cases op with
    | const => cases hasks; exact ⟨_, rfl⟩
    | fresh => cases hasks; exact ⟨_, rfl⟩
    | freshMany => cases hasks; exact ⟨_, rfl⟩
    | _ => cases hasks
  obtain ⟨f, hf⟩ := hlookup
  rw [hf, hmissing]
  rfl

/-- Nothing is handed out of a space that is not asked. -/
theorem handedBy_of_not_asked (h : ∀ k, s.asked? op ≠ some (i, k)) : s.handedBy i op = [] := by
  have hne : (s.asked? op).map (·.1) ≠ some i := by
    intro hsome
    obtain ⟨⟨j, k⟩, hasked, rfl⟩ := Option.map_eq_some_iff.1 hsome
    exact h k hasked
  unfold handedBy
  split
  · rfl
  · exact if_neg hne

/-- Nothing is handed out by an operation that fails. -/
theorem handedBy_of_error {e : Fault} (h : s.apply op = .error e) : s.handedBy i op = [] := by
  unfold handedBy
  rw [step_of_error h, List.drop_length]
  split
  · rfl
  · exact ite_self _

/-- A space that is not asked stays as it is. -/
theorem step_of_not_asked (h : ∀ k, s.asked? op ≠ some (i, k)) (hv : s.spaces[i]? = some v) :
    (s.step op).spaces[i]? = some v := by
  cases happly : s.apply op with
  | error e => rw [step_of_error happly, hv]
  | ok s' =>
    rw [step_of_ok happly]
    cases hasks : op.asks? with
    | none =>
      obtain ⟨hlt, hget⟩ := List.getElem?_eq_some_iff.1 hv
      obtain ⟨more, hmore⟩ := spaces_of_silent hasks happly
      rw [← hmore, List.getElem?_append_left hlt, hv]
    | some request =>
      obtain ⟨name, k⟩ := request
      -- the operation found a space, and moved on that one
      cases hspace : s.space name with
      | error e =>
        rw [apply_of_missing hasks hspace] at happly
        cases happly
      | ok found =>
        obtain ⟨j, w⟩ := found
        have hasked := asked?_eq_some_iff.2 ⟨name, hasks, w, hspace⟩
        have hw := (space_ok_iff.1 hspace).2
        have hij : j ≠ i := by
          rintro rfl
          exact h k hasked
        rcases Nat.lt_or_ge w.size (w.next + k) with hlt | hle
        · obtain ⟨e, herror, -⟩ := apply_of_lt hasked hw hlt
          rw [herror] at happly
          cases happly
        · obtain ⟨s'', hok, hspaces, -⟩ := apply_of_le hasked hw hle
          rw [hok] at happly
          cases happly
          rw [hspaces, List.getElem?_set_ne hij, hv]

/-- **One operation** moves a space on by as many variables as it hands out of it, which are the
    next ones. -/
theorem step_moves (op : StoreOp K) (hv : s.spaces[i]? = some v) :
    ∃ (count : Nat) (h : v.next + count ≤ v.size),
      (s.step op).spaces[i]? = some (v.moved count h) ∧
      s.handedBy i op = (List.range' v.next count).map (unit i v.size) := by
  by_cases hasked : ∃ k, s.asked? op = some (i, k)
  · obtain ⟨k, hasked⟩ := hasked
    rcases Nat.lt_or_ge v.size (v.next + k) with hlt | hle
    · obtain ⟨e, herror, -⟩ := apply_of_lt hasked hv hlt
      refine ⟨0, v.next_le, ?_, ?_⟩
      · rw [step_of_error herror]
        exact hv
      · exact handedBy_of_error herror
    · obtain ⟨s', hok, hspaces, hhanded⟩ := apply_of_le hasked hv hle
      refine ⟨k, hle, ?_, hhanded⟩
      rw [step_of_ok hok, hspaces]
      exact List.getElem?_set_self (List.getElem?_eq_some_iff.1 hv).1
  · have hnot : ∀ k, s.asked? op ≠ some (i, k) := fun k h => hasked ⟨k, h⟩
    exact ⟨0, v.next_le, step_of_not_asked hnot hv, handedBy_of_not_asked hnot⟩

/-! ## Runs -/

/-- **A run** moves a space on by as many variables as it hands out of it, which are the next
    ones. -/
theorem run_moves (ops : List (StoreOp K)) (hv : s.spaces[i]? = some v) :
    ∃ (count : Nat) (h : v.next + count ≤ v.size),
      (ops.foldl step s).spaces[i]? = some (v.moved count h) ∧
      handed i s ops = (List.range' v.next count).map (unit i v.size) := by
  induction ops generalizing s v with
  | nil => exact ⟨0, v.next_le, hv, rfl⟩
  | cons op ops ih =>
    obtain ⟨first, hfirst, hstep, hhanded⟩ := step_moves op hv
    obtain ⟨more, hmore, hrest, hothers⟩ := ih hstep
    have hsum : v.next + (first + more) ≤ v.size := by
      rw [← Nat.add_assoc]
      exact hmore
    refine ⟨first + more, hsum, ?_, ?_⟩
    · rw [List.foldl_cons, hrest]
      unfold Space.moved
      simp only [Nat.add_assoc]
    · unfold handed
      rw [hhanded, hothers, Space.moved_size, Space.moved_next, ← List.map_append,
        List.range'_append_1]

/-- A space of a positive size is opened, with the next number. -/
theorem apply_space {n : Int} (hn : 1 ≤ n) (s : Store K) (name : String) :
    ∃ (opened : Store K) (v : Space), s.apply (.space name n) = .ok opened ∧
      opened.spaces[s.spaces.length]? = some v ∧ (v.size : Int) = n ∧ v.next = 0 := by
  obtain ⟨v, hv, hsize, hnext⟩ := Space.ofSize_ok hn
  have hok : s.apply (.space name n) =
      .ok ({ s with spaces := s.spaces ++ [v] }.bind name (.space s.spaces.length)) := by
    show (Space.ofSize n >>= _) = _
    rw [hv]
    rfl
  exact ⟨_, v, hok, List.getElem?_concat_length, hsize, hnext⟩

end

/-! ## Variables -/

/-- A term is the variable with a number: it has coefficient one there, zero everywhere else, no
    intercept, and the value that the point has there. -/
structure IsVariable (t : StoredTerm Rat) (j : Nat) : Prop where
  inside : j < t.dim
  coefficients : ∀ (k : Nat) (hk : k < t.dim), t.term.coeffs[k] = if k = j then 1 else 0
  intercept : t.term.intercept = 0
  value : ∀ p : Vector Rat t.dim, t.term.eval p = p[j]

theorem isVariable_unit {i size j : Nat} (hj : j < size) : IsVariable (unit i size j) j where
  inside := hj
  coefficients k hk := by simp [unit, Affine.var]
  intercept := rfl
  value p := Affine.eval_var p hj

/-- A term is one variable at most. -/
theorem IsVariable.unique {t : StoredTerm Rat} {j k : Nat} (hj : IsVariable t j)
    (hk : IsVariable t k) : j = k := by
  by_contra hne
  have hone := hj.coefficients j hj.inside
  have hzero := hk.coefficients j hj.inside
  rw [if_pos rfl] at hone
  rw [if_neg hne, hone] at hzero
  exact one_ne_zero hzero

/-- The first variables of a space, in order. -/
theorem getElem?_units {i size count j : Nat} (hle : count ≤ size) {t : StoredTerm Rat}
    (h : ((List.range count).map (unit i size))[j]? = some t) :
    t.space = i ∧ t.dim = size ∧ IsVariable t j := by
  rw [List.getElem?_map] at h
  obtain ⟨k, hk, rfl⟩ := Option.map_eq_some_iff.1 h
  obtain ⟨hlt, rfl⟩ := List.getElem?_eq_some_iff.1 hk
  rw [List.length_range] at hlt
  rw [List.getElem_range]
  exact ⟨rfl, rfl, isVariable_unit (Nat.lt_of_lt_of_le hlt hle)⟩

theorem nodup_units {i size count : Nat} (hle : count ≤ size) :
    ((List.range count).map (unit (K := Rat) i size)).Nodup := by
  refine List.Nodup.map_on (fun j hj k hk hsame => ?_) List.nodup_range
  have hunit : ∀ {j}, j ∈ List.range count → IsVariable (unit i size j) j := fun hj =>
    isVariable_unit (Nat.lt_of_lt_of_le (List.mem_range.1 hj) hle)
  exact (hunit hj).unique (hsame ▸ hunit hk)

/-- What is known of a space, by its number in a store, once the variables `out` were handed out of
    it. -/
structure Allocated (s : Store Rat) (i : Nat) (v : Space) (out : List (StoredTerm Rat)) : Prop where
  found : s.spaces[i]? = some v
  bounded : v.next ≤ v.size
  counted : out.length = v.next
  numbered : ∀ (j : Nat) (t : StoredTerm Rat), out[j]? = some t →
    t.space = i ∧ t.dim = v.size ∧ IsVariable t j
  different : out.Nodup
  granted : ∀ (op : StoreOp Rat) (k : Nat), s.asked? op = some (i, k) → v.next + k ≤ v.size →
    ∃ s' : Store Rat, s.apply op = .ok s' ∧ (s.handedBy i op).length = k ∧
      ∃ v' : Space, s'.spaces[i]? = some v' ∧ v'.size = v.size ∧ v'.next = v.next + k
  refused : ∀ (op : StoreOp Rat) (k : Nat), s.asked? op = some (i, k) → v.size < v.next + k →
    ∃ e : Fault, s.apply op = .error e ∧ e.kind = .exhausted ∧ s.handedBy i op = [] ∧
      s.step op = s

/-- **Main.**  A space of a positive size is opened, and then anything is done to the store.  Whatever
    failed in between, as many variables of the space are in use as were handed out of it, and never
    more than it has; the `j`-th of them is the variable with number `j`, and no two are the same.
    A request is met exactly if as many variables are left as it asks for; otherwise it fails for
    want of variables, nothing is handed out, and nothing changes. -/
theorem variables_handed_out {n : Int} (hn : 1 ≤ n) (s : Store Rat) (name : String)
    (ops : List (StoreOp Rat)) :
    ∃ (opened : Store Rat) (v : Space), s.apply (.space name n) = .ok opened ∧ (v.size : Int) = n ∧
      Allocated (ops.foldl step opened) s.spaces.length v (handed s.spaces.length opened ops) := by
  obtain ⟨opened, v, hopened, hv, hsize, hnext⟩ := apply_space hn s name
  obtain ⟨count, hcount, hnow, hout⟩ := run_moves ops hv
  have hle : count ≤ v.size := by omega
  rw [hnext, ← List.range_eq_range'] at hout
  refine ⟨opened, v.moved count hcount, hopened, hsize, ?_⟩
  constructor
  case found => exact hnow
  case bounded => exact hcount
  case counted =>
    rw [hout, List.length_map, List.length_range, Space.moved_next, hnext, Nat.zero_add]
  case numbered =>
    intro j t ht
    rw [hout] at ht
    exact getElem?_units hle ht
  case different =>
    rw [hout]
    exact nodup_units hle
  case granted =>
    intro op k hasked hleft
    obtain ⟨s', hok, hspaces, hhanded⟩ := apply_of_le hasked hnow hleft
    refine ⟨s', hok, ?_, (v.moved count hcount).moved k hleft, ?_, rfl, rfl⟩
    · rw [hhanded, List.length_map, List.length_range']
    · rw [hspaces]
      exact List.getElem?_set_self (List.getElem?_eq_some_iff.1 hnow).1
  case refused =>
    intro op k hasked hshort
    obtain ⟨e, herror, hkind⟩ := apply_of_lt hasked hnow hshort
    exact ⟨e, herror, hkind, handedBy_of_error herror, step_of_error herror⟩

/-- Requests of a space of two variables: for minus one, for one, for more than are left, for a
    constant, and for one more, after the first was updated in place. -/
def requests : List (StoreOp Rat) :=
  [.freshMany "n" "V" (-1), .fresh "x" "V", .freshMany "m" "V" 2, .const "c" "V" 3,
    .addIn "x" "x", .fresh "y" "V"]

/-- Both variables are handed out, what happened to the first does not touch the second, and the next
    request is refused. -/
theorem variables_handed_out_pair : (1 : Int) ≤ 2 ∧
    ∃ (opened : Store Rat) (v : Space) (t : StoredTerm Rat) (e : Fault),
      empty.apply (.space "V" 2) = .ok opened ∧ v.next = 2 ∧ (v.size : Int) = 2 ∧
      (handed 0 opened requests)[1]? = some t ∧ IsVariable t 1 ∧
      (requests.foldl step opened).apply (.fresh "z" "V") = .error e ∧ e.kind = .exhausted := by
  have htwo : (1 : Int) ≤ 2 := by decide
  obtain ⟨opened, v, hopened, hsize, hall⟩ := variables_handed_out htwo empty "V" requests
  have hcount : (handed 0 opened requests).length = 2 ∧
      (requests.foldl step opened).asked? (.fresh "z" "V") = some (0, 1) := by
    cases hopened
    exact ⟨rfl, rfl⟩
  have hnext : v.next = 2 := hall.counted.symm.trans hcount.1
  obtain ⟨e, herror, hkind, -⟩ := hall.refused _ 1 hcount.2 (by omega)
  obtain ⟨t, ht⟩ : ∃ t, (handed 0 opened requests)[1]? = some t :=
    ⟨_, List.getElem?_eq_getElem (by omega)⟩
  exact ⟨htwo, opened, v, t, e, hopened, hnext, hsize, ht, (hall.numbered 1 t ht).2.2, herror,
    hkind⟩

end Store

end Perturb
