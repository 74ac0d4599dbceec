/-
  A store of terms is a store of functions.

  The shadow of a store has, in the place of every term, the function of points that the term is.

  1. **The crux (`shadow_apply`)** — carrying an operation out and then looking at functions is
     looking at functions and then carrying it out, failures included.  Sums and differences are
     where it could go wrong: they fail unless the dimensions agree, and the reference knows spaces
     only.  Because all terms fit their spaces (`Sound`), the two tests are one (`shade_joined`).

  2. **Runs (`shadow_run`)** — a run goes on after an operation that fails; by induction the shadow
     of a run is the run of shadows.

  3. **Reading (`Sound.tells`)** — the value of a term at a point is that of its function, and a
     constraint holds where its function compares with zero as its relation says.

  The theorem is `run_on_functions`.
-/
import Perturb.Proofs.Constraint.Holds
import Perturb.Proofs.Constraint.Shadow
import Perturb.Proofs.Constraint.Sharing

namespace Perturb

/-! ## Shadows -/

/-- The function that a term is. -/
def StoredTerm.shade (t : StoredTerm Rat) : Shade :=
  ⟨t.space, fun p => t.term.eval (Vector.ofFn fun i => p i)⟩

namespace Store

/-- A store, with functions in place of terms. -/
def shadow (s : Store Rat) : Shadow :=
  ⟨s.spaces, s.terms.map StoredTerm.shade, s.constraints, s.sets, s.names⟩

theorem shadow_function (s : Store Rat) (name : String) :
    s.shadow.function name = (s.term name).map fun p => (p.1, p.2.shade) := by
  have hresolve : s.shadow.resolve name = s.resolve name := rfl
  unfold Shadow.function term
  rw [hresolve]
  cases s.resolve name with
  | error e => rfl
  | ok item =>
    cases item with
    | term i =>
      show (element (s.terms.map StoredTerm.shade) i >>= _) = Except.map _ (element s.terms i >>= _)
      unfold element
      rw [List.getElem?_map]
      cases s.terms[i]? <;> rfl
    | _ => rfl

/-! ### Storing -/

theorem shadow_keep (s : Store Rat) (name : String) (t : StoredTerm Rat) :
    (s.keep name t).shadow = s.shadow.keep name t.shade := by
  unfold shadow keep Shadow.keep Store.bind Shadow.bind
  simp

theorem shadow_replace (s : Store Rat) (i : Nat) (t : StoredTerm Rat) :
    (s.replace i t).shadow = s.shadow.write i t.shade := by
  unfold shadow replace Shadow.write
  have hmodify : (s.terms.modify i fun _ => t).map StoredTerm.shade =
      (s.terms.map StoredTerm.shade).modify i fun _ => t.shade := by
    apply List.ext_getElem?
    intro j
    rw [List.getElem?_map, List.getElem?_modify, List.getElem?_modify, List.getElem?_map]
    cases s.terms[j]? with
    | none => rfl
    | some u =>
      by_cases hij : i = j <;> simp [hij]
  rw [hmodify]

theorem shadow_handOut (s : Store Rat) (i : Nat) (v : Space) (names : List String)
    {vars : List Nat} (hvars : ∀ x ∈ vars, x < v.size) :
    (s.handOut i v names vars).shadow = s.shadow.handOut i v names vars := by
  -- each pair of a name and a variable stores one term, and one function
  have hfold : ∀ (pairs : List (String × Nat)) (s : Store Rat), (∀ e ∈ pairs, e.2 < v.size) →
      (pairs.foldl (fun s e => s.keep e.1 ⟨i, v.size, Affine.var e.2⟩) s).shadow =
        pairs.foldl (fun m e => m.keep e.1 ⟨i, fun p => p e.2⟩) s.shadow := by
    intro pairs
    induction pairs with
    | nil => exact fun s _ => rfl
    | cons pair pairs ih =>
      intro s hpairs
      obtain ⟨hpair, hpairs⟩ := List.forall_mem_cons.1 hpairs
      have hshade : (⟨i, v.size, Affine.var pair.2⟩ : StoredTerm Rat).shade =
          ⟨i, fun p => p pair.2⟩ := by
        unfold StoredTerm.shade
        refine congrArg (Shade.mk i) (funext fun p => ?_)
        rw [Affine.eval_var _ hpair, Vector.getElem_ofFn]
      rw [List.foldl_cons, List.foldl_cons, ih _ hpairs, shadow_keep, hshade]
  refine hfold (names.zip vars) { s with spaces := s.spaces.modify i fun _ => v } ?_
  exact fun e he => hvars e.2 (List.of_mem_zip he).2

/-! ### Combining

An operation `f` on coefficients that is, at every point, an operation `g` on values. -/

section

variable {s : Store Rat} {f : {n : Nat} → Affine Rat n → Affine Rat n → Affine Rat n}
  {g : Rat → Rat → Rat}
  (hfg : ∀ {n : Nat} (t u : Affine Rat n) (p : Vector Rat n),
    (f t u).eval p = g (t.eval p) (u.eval p))

include hfg

/-- Terms of one space are joined as their functions are. -/
theorem shade_joined (h : Sound s) {t u : StoredTerm Rat} (ht : t ∈ s.terms) (hu : u ∈ s.terms) :
    (joined f t u).map StoredTerm.shade = Shadow.joined g t.shade u.shade := by
  by_cases hspace : t.space = u.space
  · -- terms of one space have one dimension, because both fit it
    have hdim : u.dim = t.dim := by
      obtain ⟨v, hv, hsize⟩ := h.fits t ht
      obtain ⟨w, hw, hsize'⟩ := h.fits u hu
      rw [hspace, hw] at hv
      cases hv
      exact hsize'.symm.trans hsize
    obtain ⟨i, n, a⟩ := t
    obtain ⟨j, k, b⟩ := u
    cases hspace
    cases hdim
    have hterm : joined f ⟨i, n, a⟩ ⟨i, n, b⟩ = .ok ⟨i, n, f a b⟩ := dif_pos ⟨rfl, rfl⟩
    have hshade : Shadow.joined g (StoredTerm.shade ⟨i, n, a⟩) (StoredTerm.shade ⟨i, n, b⟩) =
        .ok ⟨i, _⟩ := if_pos rfl
    rw [hterm, hshade]
    exact congrArg Except.ok (congrArg (Shade.mk i) (funext fun p => hfg a b _))
  · -- both refuse
    rw [joined_of_ne hspace]
    exact (if_neg hspace).symm

/-- The same for named terms. -/
theorem shade_joined_named (h : Sound s) (a b : String) :
    (do joined f (← s.term a).2 (← s.term b).2 : Outcome _).map StoredTerm.shade =
      (do Shadow.joined g (← s.shadow.function a).2 (← s.shadow.function b).2) := by
  rw [shadow_function, shadow_function]
  refine Outcome.map_bind_map fun t ht => Outcome.map_bind_map fun u hu => ?_
  exact shade_joined hfg h (mem_terms ht) (mem_terms hu)

/-- Updating a term by another one, which may be the term itself, updates its function. -/
theorem shadow_updateBy (h : Sound s) (a b : String) :
    (s.updateBy a b f).map shadow = s.shadow.updateBy a b g := by
  unfold updateBy Shadow.updateBy
  rw [shadow_function, shadow_function]
  refine Outcome.map_bind_map fun ⟨i, t⟩ ht => Outcome.map_bind_map fun ⟨j, u⟩ hu => ?_
  show (joined f t u >>= _).map shadow = (Shadow.joined g t.shade u.shade >>= _)
  rw [← shade_joined hfg h (mem_terms ht) (mem_terms hu)]
  exact Outcome.map_bind_map fun w _ => congrArg Except.ok (shadow_replace s i w)

end

section

variable {f : {n : Nat} → Affine Rat n → Affine Rat n} {g : Rat → Rat}
  (hfg : ∀ {n : Nat} (t : Affine Rat n) (p : Vector Rat n), (f t).eval p = g (t.eval p))

include hfg

theorem shade_mapped (t : StoredTerm Rat) :
    ({ t with term := f t.term } : StoredTerm Rat).shade = Shadow.mapped g t.shade :=
  congrArg (Shade.mk t.space) (funext fun _ => hfg t.term _)

/-- A named term is changed as its function is. -/
theorem shade_mapped_named (s : Store Rat) (name : String) :
    (s.term name >>= fun e => .ok { e.2 with term := f e.2.term } : Outcome _).map
        StoredTerm.shade =
      s.shadow.function name >>= fun e => .ok (Shadow.mapped g e.2) := by
  rw [shadow_function]
  exact Outcome.map_bind_map fun t _ => congrArg Except.ok (shade_mapped hfg t.2)

theorem shadow_update (s : Store Rat) (name : String) :
    (s.update name f).map shadow = s.shadow.update name g := by
  unfold update Shadow.update
  rw [shadow_function]
  refine Outcome.map_bind_map fun t _ => congrArg Except.ok ?_
  rw [shadow_replace, shade_mapped hfg]

end

/-- An operator makes of terms what it makes of functions. -/
theorem shade_combination {s : Store Rat} (h : Sound s) (f : Operator) (a b : Operand Rat) :
    (s.combination f a b).map StoredTerm.shade = s.shadow.combination f a b := by
  cases a with
  | number d =>
    cases b with
    | number e => cases f <;> rfl
    | term b =>
      cases f with
      | mul =>
        refine shade_mapped_named (f := fun t => t.mul d) (g := (d * ·)) (fun t p => ?_) s b
        rw [Affine.eval_mul, mul_comm]
      | _ => rfl
  | term a =>
    cases b with
    | number d =>
      cases f with
      | add =>
        exact shade_mapped_named (f := fun t => t.addScalar d) (g := (· + d))
          (fun t p => Affine.eval_addScalar t p d) s a
      | sub =>
        refine shade_mapped_named (f := fun t => t.addScalar (-d)) (g := (· - d))
          (fun t p => ?_) s a
        rw [Affine.eval_addScalar, sub_eq_add_neg]
      | mul =>
        exact shade_mapped_named (f := fun t => t.mul d) (g := (· * d))
          (fun t p => Affine.eval_mul t p d) s a
    | term b =>
      cases f with
      | add => exact shade_joined_named (f := Affine.add) (g := (· + ·)) Affine.eval_add h a b
      | sub => exact shade_joined_named (f := Affine.sub) (g := (· - ·)) Affine.eval_sub h a b
      | mul => rfl

/-- A term of given coefficients is the linear function with them. -/
theorem shade_affineOf (n : Nat) (coeffs : Tensor Rat) (intercept : Rat) :
    (affineOf n coeffs intercept).map (fun t p => t.eval (Vector.ofFn fun i => p i)) =
      Shadow.linear n coeffs intercept := by
  by_cases h : coeffs.shape = [n] ∧ coeffs.cells.length = n
  · have hterm : affineOf n coeffs intercept = .ok ⟨⟨coeffs.cells.toArray, h.2⟩, intercept⟩ :=
      dif_pos h
    have hlinear : Shadow.linear n coeffs intercept = .ok _ := if_pos h
    rw [hterm, hlinear]
    refine congrArg Except.ok (funext fun p => (Affine.eval_eq_sum _ _).trans ?_)
    rw [Finset.sum_range]
    congr 1
    refine Finset.sum_congr rfl fun i _ => ?_
    have hi : i.val < coeffs.cells.length := h.2 ▸ i.isLt
    rw [List.getElem?_eq_getElem hi]
    simp
  · have hterm : affineOf n coeffs intercept = .error _ := dif_neg h
    have hlinear : Shadow.linear n coeffs intercept = .error _ := if_neg h
    rw [hterm, hlinear]
    rfl

/-! ## Operations -/

/-- **The crux.**  Functions after an operation are what the operation makes of functions. -/
theorem shadow_apply {s : Store Rat} (h : Sound s) (op : StoreOp Rat) :
    (s.apply op).map shadow = s.shadow.apply op := by
  cases op with
  | space name size => exact Outcome.map_bind fun v _ => rfl
  | const name space value =>
    refine Outcome.map_bind fun ⟨i, v⟩ _ => congrArg Except.ok ((shadow_keep s name _).trans ?_)
    have hshade : (⟨i, v.size, Affine.const value⟩ : StoredTerm Rat).shade =
        ⟨i, fun _ => value⟩ := congrArg (Shade.mk i) (funext fun p => Affine.eval_const _ value)
    exact congrArg (s.shadow.keep name) hshade
  | fresh name space =>
    refine Outcome.map_bind fun ⟨i, v⟩ _ => Outcome.map_bind fun ⟨x, v'⟩ hfresh => ?_
    exact congrArg Except.ok (shadow_handOut s i v' [name]
      (List.forall_mem_singleton.2 (Space.fresh_spec hfresh).2))
  | freshMany stem space count =>
    refine Outcome.map_bind fun ⟨i, v⟩ _ => Outcome.map_bind fun ⟨xs, v'⟩ hfresh => ?_
    exact congrArg Except.ok (shadow_handOut s i v' _ (Space.freshMany_spec hfresh).2)
  | term name space coeffs intercept =>
    refine Outcome.map_bind fun ⟨i, v⟩ _ => ?_
    show (affineOf v.size coeffs intercept >>= _).map shadow =
      (Shadow.linear v.size coeffs intercept >>= _)
    rw [← shade_affineOf]
    exact Outcome.map_bind_map fun t _ => congrArg Except.ok (shadow_keep s name _)
  | copy name source =>
    show (s.term source >>= _).map shadow = (s.shadow.function source >>= _)
    rw [shadow_function]
    exact Outcome.map_bind_map fun ⟨i, t⟩ _ => congrArg Except.ok (shadow_keep s name t)
  | «alias» name source => exact Outcome.map_bind fun item _ => rfl
  | addIn name other =>
    exact shadow_updateBy (f := Affine.add) (g := (· + ·)) Affine.eval_add h name other
  | subIn name other =>
    exact shadow_updateBy (f := Affine.sub) (g := (· - ·)) Affine.eval_sub h name other
  | addMulIn name other d =>
    refine shadow_updateBy (f := fun t u => t.addMul u d) (g := fun a b => a + d * b)
      (fun t u p => ?_) h name other
    rw [Affine.eval_addMul, mul_comm d]
  | addScalarIn name d =>
    exact shadow_update (f := fun t => t.addScalar d) (g := (· + d))
      (fun t p => Affine.eval_addScalar t p d) s name
  | mulIn name d =>
    exact shadow_update (f := fun t => t.mul d) (g := (· * d))
      (fun t p => Affine.eval_mul t p d) s name
  | combine name f a b =>
    show (s.combination f a b >>= _).map shadow = (s.shadow.combination f a b >>= _)
    rw [← shade_combination h]
    exact Outcome.map_bind_map fun t _ => congrArg Except.ok (shadow_keep s name t)
  | neg name source =>
    show (s.term source >>= _).map shadow = (s.shadow.function source >>= _)
    rw [shadow_function]
    refine Outcome.map_bind_map fun ⟨i, t⟩ _ => congrArg Except.ok ?_
    refine (shadow_keep s name _).trans (congrArg (s.shadow.keep name) ?_)
    refine shade_mapped (f := Affine.neg) (fun t p => ?_) t
    show (t.mul (-1)).eval p = _
    rw [Affine.eval_mul, mul_neg_one]
  | constrain name term relation =>
    show (s.term term >>= _).map shadow = (s.shadow.function term >>= _)
    rw [shadow_function]
    exact Outcome.map_bind_map fun p _ => rfl
  | mark name on => exact Outcome.map_bind fun i _ => rfl
  | set name members => exact Outcome.map_bind fun ids _ => rfl
  | setAdd set name => exact Outcome.map_bind fun i _ => Outcome.map_bind fun c _ => rfl
  | addTerm name set term relation =>
    refine Outcome.map_bind fun i _ => ?_
    show (s.term term >>= _).map shadow = (s.shadow.function term >>= _)
    rw [shadow_function]
    exact Outcome.map_bind_map fun p _ => rfl
  | addCompare name set left relation right =>
    refine Outcome.map_bind fun i _ => ?_
    show (s.combination .sub left right >>= _).map shadow =
      (s.shadow.combination .sub left right >>= _)
    rw [← shade_combination h]
    refine Outcome.map_bind_map fun t _ => congrArg Except.ok ?_
    unfold shadow keepConstraint Shadow.keepConstraint Store.bind Shadow.bind
    simp
  | union set other =>
    exact Outcome.map_bind fun i _ => Outcome.map_bind fun j _ => Outcome.map_bind fun sets _ => rfl

theorem shadow_step {s : Store Rat} (h : Sound s) (op : StoreOp Rat) :
    (s.step op).shadow = s.shadow.step op := by
  unfold step Shadow.step
  rw [← shadow_apply h]
  cases s.apply op <;> rfl

/-- **Runs.**  The functions after a run are those of the run of functions. -/
theorem shadow_run (ops : List (StoreOp Rat)) : (run ops).shadow = Shadow.run ops := by
  have hfoldl : ∀ (ops : List (StoreOp Rat)) (s : Store Rat), Sound s →
      (ops.foldl step s).shadow = ops.foldl Shadow.step s.shadow := by
    intro ops
    induction ops with
    | nil => exact fun s _ => rfl
    | cons op ops ih =>
      intro s h
      rw [List.foldl_cons, List.foldl_cons, ih _ (step_sound h op), shadow_step h]
  exact hfoldl ops empty sound_empty

/-! ## Reading -/

/-- A point by its coordinates. -/
def coords (p : List Rat) (i : Nat) : Rat := (p[i]?).getD 0

theorem pointOf_eq {n : Nat} {p : List Rat} (hp : p.length = n) :
    pointOf n p = .ok (Vector.ofFn fun i => coords p i) := by
  have hvector : (⟨p.toArray, hp⟩ : Vector Rat n) = Vector.ofFn fun i => coords p i := by
    apply Vector.ext
    intro i hi
    simp [coords, hp ▸ hi]
  exact (dif_pos hp).trans (congrArg Except.ok hvector)

section

variable {s : Store Rat} {p : List Rat}

theorem valueAt_eq {name : String} {i : Nat} {t : StoredTerm Rat} (ht : s.term name = .ok (i, t))
    (hp : p.length = t.dim) : s.valueAt name p = .ok (t.shade.value (coords p)) := by
  unfold valueAt
  rw [ht]
  show (pointOf t.dim p >>= _) = _
  rw [pointOf_eq hp]
  rfl

theorem holdsAt_eq {id : Nat} {c : StoredConstraint} {t : StoredTerm Rat}
    (hc : s.constraints[id]? = some c) (ht : s.terms[c.term]? = some t) (hp : p.length = t.dim) :
    s.holdsAt id p = c.relation.compare (t.shade.value (coords p)) 0 := by
  have hat : s.constraintAt id = .ok (c, t) := by
    unfold constraintAt
    rw [element_ok_iff.2 hc]
    show (element s.terms c.term >>= _) = _
    rw [element_ok_iff.2 ht]
    rfl
  unfold holdsAt
  rw [hat]
  show (pointOf t.dim p >>= _) = _
  rw [pointOf_eq hp]
  exact Constraint.holdsAt_of t.term _ c.relation

end

/-- A store says of terms and constraints what functions say: the same operations fail, in the same
    way; the same names are of the same terms and constraints; a term has the value of its function
    at every point of its space; and a constraint holds where its function compares with zero. -/
structure Tells (s : Store Rat) (m : Shadow) : Prop where
  fails : ∀ op e, s.apply op = .error e ↔ m.apply op = .error e
  place : ∀ name, (s.term name).map Prod.fst = (m.function name).map Prod.fst
  constraint : ∀ name, s.constraintId name = m.constraintId name
  value : ∀ (name : String) (i : Nat) (g : Shade), m.function name = .ok (i, g) →
    ∃ v : Space, m.spaces[g.space]? = some v ∧ ∀ p : List Rat, p.length = v.size →
      s.valueAt name p = .ok (g.value (coords p))
  holds : ∀ (id : Nat) (c : StoredConstraint), m.constraints[id]? = some c →
    ∃ (g : Shade) (v : Space), m.functions[c.term]? = some g ∧ m.spaces[g.space]? = some v ∧
      ∀ p : List Rat, p.length = v.size →
        s.holdsAt id p = c.relation.compare (g.value (coords p)) 0

/-- A sound store says what its shadow says. -/
theorem Sound.tells {s : Store Rat} (h : Sound s) : Tells s s.shadow where
  fails op e := by
    rw [← shadow_apply h]
    cases s.apply op <;> simp [Except.map]
  place name := by
    rw [shadow_function]
    cases s.term name <;> rfl
  constraint _ := rfl
  value name i g hg := by
    rw [shadow_function] at hg
    obtain ⟨⟨j, t⟩, ht, hg⟩ := Outcome.map_ok_iff.1 hg
    cases hg
    obtain ⟨v, hv, hsize⟩ := h.fit ht
    exact ⟨v, hv, fun p hp => valueAt_eq ht (hp.trans hsize)⟩
  holds id c hc := by
    have hlt := h.held c (List.mem_of_getElem? hc)
    have ht : s.terms[c.term]? = some s.terms[c.term] := List.getElem?_eq_getElem hlt
    obtain ⟨v, hv, hsize⟩ := h.fits _ (List.getElem_mem hlt)
    refine ⟨s.terms[c.term].shade, v, ?_, hv, fun p hp => holdsAt_eq hc ht (hp.trans hsize)⟩
    show (s.terms.map StoredTerm.shade)[c.term]? = _
    rw [List.getElem?_map, ht]
    rfl

/-- **Main.**  After any operations on nothing, a store of terms says what functions say that the
    same operations were carried out on, with the same sharing.  The next operation leaves alone
    every term but the one it updates in place, which is seen under all its names and by all
    constraints on it, and shares no term that it makes.  An operation on terms of two spaces fails
    with a mismatch and changes nothing; only a comparison may fail for want of its set before. -/
theorem run_on_functions (ops : List (StoreOp Rat)) :
    Tells (run ops) (Shadow.run ops) ∧
      (∀ op s', (run ops).apply op = .ok s' → Frame (run ops) op s') ∧
      ∀ (op : StoreOp Rat) (a b : String) (i j : Nat) (t u : StoredTerm Rat),
        op.mixes? = some (a, b) → (run ops).term a = .ok (i, t) →
        (run ops).term b = .ok (j, u) → t.space ≠ u.space →
        (∀ name set left relation right, op = .addCompare name set left relation right →
          ∃ k, (run ops).setId set = .ok k) →
        (run ops).apply op = .error .spacesDiffer ∧ Fault.spacesDiffer.kind = .mismatch ∧
          (run ops).step op = run ops := by
  have hsound := run_sound ops
  refine ⟨shadow_run ops ▸ hsound.tells, fun op s' hok => apply_frame hsound hok, ?_⟩
  intro op a b i j t u hop ha hb hne hset
  have herror := apply_mixed hop ha hb hne hset
  refine ⟨herror, rfl, ?_⟩
  unfold step
  rw [herror]
  rfl

/-- Two spaces; a term of one under two names, held by a constraint, copied, and then updated in
    place by itself and by others. -/
def sharedOps : List (StoreOp Rat) :=
  [.space "V" 2, .space "W" 1, .fresh "x" "V", .fresh "y" "V", .fresh "z" "W", .alias "a" "x",
    .copy "c" "x", .constrain "k" "x" "GE", .addIn "a" "x", .addMulIn "x" "a" (1 / 2),
    .combine "d" .add (.term "x") (.number 1), .subIn "a" "y"]

/-- At `(1, 4)` the updates under either name take `x` from `1` over `3` to `-1`, so that the
    constraint on it fails; the copy and the combination keep the values they were made with.  The
    term of the other space is refused, and the store stays as it is. -/
theorem run_on_functions_shared :
    (run sharedOps).valueAt "x" [1, 4] = .ok (-1) ∧ (run sharedOps).valueAt "c" [1, 4] = .ok 1 ∧
      (run sharedOps).valueAt "d" [1, 4] = .ok 4 ∧ (run sharedOps).holdsAt 0 [1, 4] = .ok false ∧
      (run sharedOps).step (.addIn "x" "z") = run sharedOps := by
  obtain ⟨htells, -, hmixed⟩ := run_on_functions sharedOps
  have hsize : ∀ v, (Shadow.run sharedOps).spaces[0]? = some v → v.size = 2 := by
    intro v hv
    cases hv
    rfl
  refine ⟨?_, ?_, ?_, ?_, ?_⟩
  · obtain ⟨v, hv, hvalue⟩ := htells.value "x" 0
      ⟨0, fun p => p 0 + p 0 + 1 / 2 * (p 0 + p 0) - p 1⟩ rfl
    rw [hvalue [1, 4] (hsize v hv).symm]
    norm_num [coords]
  · obtain ⟨v, hv, hvalue⟩ := htells.value "c" 3 ⟨0, fun p => p 0⟩ rfl
    rw [hvalue [1, 4] (hsize v hv).symm]
    norm_num [coords]
  · obtain ⟨v, hv, hvalue⟩ := htells.value "d" 4
      ⟨0, fun p => p 0 + p 0 + 1 / 2 * (p 0 + p 0) + 1⟩ rfl
    rw [hvalue [1, 4] (hsize v hv).symm]
    norm_num [coords]
  · obtain ⟨g, v, hg, hv, hholds⟩ := htells.holds 0 ⟨0, .ge, false⟩ rfl
    obtain rfl : ⟨0, fun p => p 0 + p 0 + 1 / 2 * (p 0 + p 0) - p 1⟩ = g := Option.some.inj hg
    rw [hholds [1, 4] (hsize v hv).symm]
    norm_num [coords, Relation.compare]
  · refine (hmixed (.addIn "x" "z") "x" "z" _ _ _ _ rfl rfl rfl (by decide) ?_).2.2
    intro _ _ _ _ _ h
    cases h

end Store

end Perturb
