/-
  What a replay leaves behind.

  Live or deferred, a constraint that was met is left behind once: adding one is adding it to
  everything there is, in some place (`all_defer`, `all_keep`).  So whatever holds of every
  constraint a layer makes holds of everything a replay leaves behind.

  1. **Passing on** — a replay runs recipes, gives inputs or zero as the outputs of units and
     windows, and compares terms with zero or with each other.  `Kept` names a property of terms and
     one of constraints that all of this passes on; then a whole network passes them on
     (`Kept.layers`).  This asks nothing of the layers, of the trace or of the draws.

  2. **As first made** — no program holds yet what a replay leaves behind, and no relation is
     unknown (`Net.replay_fresh`).

  3. **Variables** — at fractions a variable that occurs in no term put in occurs in nothing that
     comes out or is left behind (`Net.replay_spares`).  At floating point this would be wrong: an
     infinite weight turns a coefficient of zero into "not a number".
-/
import Perturb.Net.Basic
import Perturb.Proofs.Constraint.Holds
import Perturb.Proofs.Outcome

namespace Perturb

namespace Replay

variable {S K : Type} {n : Nat}

/-- Everything a replay has left behind, live or deferred. -/
def all (r : Replay S K n) : List (Constraint K n) := r.current ++ r.deferred

theorem all_defer (r : Replay S K n) (c : Constraint K n) :
    (r.defer c).all.Perm (r.all ++ [c]) := by
  unfold all defer
  rw [← List.append_assoc]

theorem all_foldl_defer {α : Type} (f : α → Constraint K n) (xs : List α) (r : Replay S K n) :
    (xs.foldl (fun r i => r.defer (f i)) r).all.Perm (r.all ++ xs.map f) := by
  induction xs generalizing r with
  | nil => rw [List.map_nil, List.append_nil]; rfl
  | cons x xs ih =>
    refine (ih (r.defer (f x))).trans ?_
    rw [List.map_cons, List.append_cons]
    exact (all_defer r (f x)).append_right _

/-- A live constraint is left behind whatever the draw says. -/
theorem all_keep [Scalar K] [Source S K] (ratio : K) (r : Replay S K n) (c : Constraint K n) :
    (r.keep ratio c).all.Perm (r.all ++ [c]) := by
  unfold keep
  generalize defersLive ratio r.draws = draw
  obtain ⟨deferred, draws⟩ := draw
  cases deferred with
  | true => exact all_defer { r with draws } c
  | false =>
    show (r.current ++ [c] ++ r.deferred).Perm (r.current ++ r.deferred ++ [c])
    rw [List.append_assoc, List.append_assoc]
    exact (List.perm_append_comm).append_left r.current

/-! ## Passing on -/

/-- Everything left behind has a property. -/
def Leaves (P : Constraint K n → Prop) (r : Replay S K n) : Prop := ∀ c ∈ r.all, P c

/-- What is added has to have the property itself. -/
theorem Leaves.of_perm {P : Constraint K n → Prop} {r r' : Replay S K n} (h : r.Leaves P)
    {cs : List (Constraint K n)} (hcs : ∀ c ∈ cs, P c) (hperm : r'.all.Perm (r.all ++ cs)) :
    r'.Leaves P := by
  intro c hc
  rcases List.mem_append.1 (hperm.mem_iff.1 hc) with hc | hc
  · exact h c hc
  · exact hcs c hc

variable [Scalar K]

/-- A property `Q` of terms that recipes pass on, and a property `P` of the constraints that units
    and windows make of such terms. -/
structure Kept (Q : Affine K n → Prop) (P : Constraint K n → Prop) : Prop where
  run : ∀ (x : List (Affine K n)) (r : Recipe K), (∀ t ∈ x, Q t) → Q (r.run x)
  side : ∀ t, Q t → P (.of t .ge) ∧ P (.of t .lt)
  lead : ∀ t u, Q t → Q u → P (.of (t.sub u) .ge)

namespace Kept

variable {Q : Affine K n → Prop} {P : Constraint K n → Prop}

/-- Zero is what the empty recipe runs to. -/
theorem zero (hk : Kept Q P) : Q (Affine.const 0) := hk.run [] ⟨0, []⟩ fun _ h => by cases h

/-- A term that is not there counts as zero. -/
theorem getD (hk : Kept Q P) {x : List (Affine K n)} (hx : ∀ t ∈ x, Q t) (i : Nat) :
    Q ((x[i]?).getD default) := by
  cases hi : x[i]? with
  | none => exact hk.zero
  | some t => exact hx t (List.mem_of_getElem? hi)

/-- Replaying windows gives inputs and leaves comparisons of inputs behind. -/
theorem windows (hk : Kept Q P) {index : Int} {selections : List Int} {x : List (Affine K n)}
    {o : Nat} {r r' : Replay S K n} {ws : List (List Nat)} {outs : List (Affine K n)}
    (hx : ∀ t ∈ x, Q t) (h : r.Leaves P)
    (hok : Replay.windows index selections x o r ws = .ok (outs, r')) :
    (∀ t ∈ outs, Q t) ∧ r'.Leaves P := by
  induction ws generalizing o r outs with
  | nil =>
    cases hok
    exact ⟨List.forall_mem_nil _, h⟩
  | cons w ws ih =>
    unfold Replay.windows at hok
    split at hok
    · cases hok
    rename_i sel _
    split at hok
    · cases hok
    · obtain ⟨⟨rest, r₁⟩, hrest, hok⟩ := Outcome.bind_ok_iff.1 hok
      cases hok
      have hlosers : ∀ c ∈ (w.filter (· != sel.toNat)).map (fun i => Constraint.of
          (((x[sel.toNat]?).getD default).sub ((x[i]?).getD default)) .ge), P c := by
        intro c hc
        obtain ⟨i, -, rfl⟩ := List.mem_map.1 hc
        exact hk.lead _ _ (hk.getD hx _) (hk.getD hx i)
      obtain ⟨hrest, hleft⟩ := ih (h.of_perm hlosers (all_foldl_defer _ _ r)) hrest
      exact ⟨List.forall_mem_cons.2 ⟨hk.getD hx _, hrest⟩, hleft⟩

variable [Source S K]

/-- Replaying units gives inputs or zero and leaves the sides of the inputs behind. -/
theorem units (hk : Kept Q P) {ratio : K} {index : Int} {choices : List Choice} {i : Nat}
    {r r' : Replay S K n} {ts outs : List (Affine K n)} (hts : ∀ t ∈ ts, Q t) (h : r.Leaves P)
    (hok : Replay.units ratio index choices i r ts = .ok (outs, r')) :
    (∀ t ∈ outs, Q t) ∧ r'.Leaves P := by
  induction ts generalizing i r outs with
  | nil =>
    cases hok
    exact ⟨List.forall_mem_nil _, h⟩
  | cons t ts ih =>
    obtain ⟨ht, hts⟩ := List.forall_mem_cons.1 hts
    obtain ⟨hactive, hinactive⟩ := hk.side t ht
    unfold Replay.units at hok
    split at hok
    · cases hok
    · cases hok
    · obtain ⟨⟨rest, r₁⟩, hrest, hok⟩ := Outcome.bind_ok_iff.1 hok
      cases hok
      obtain ⟨hrest, hleft⟩ :=
        ih hts (h.of_perm (List.forall_mem_singleton.2 hactive) (all_keep ratio r _)) hrest
      exact ⟨List.forall_mem_cons.2 ⟨ht, hrest⟩, hleft⟩
    · obtain ⟨⟨rest, r₁⟩, hrest, hok⟩ := Outcome.bind_ok_iff.1 hok
      cases hok
      obtain ⟨hrest, hleft⟩ :=
        ih hts (h.of_perm (List.forall_mem_singleton.2 hinactive) (all_defer r _)) hrest
      exact ⟨List.forall_mem_cons.2 ⟨hk.zero, hrest⟩, hleft⟩

omit [Source S K] in
/-- Replaying stages one after the other runs their recipes. -/
theorem stages (hk : Kept Q P) {ss : List (Stage K)} {x outs : List (Affine K n)}
    (hx : ∀ t ∈ x, Q t) (hok : ss.foldlM (fun x s => s.terms x) x = .ok outs) :
    ∀ t ∈ outs, Q t := by
  induction ss generalizing x with
  | nil =>
    cases hok
    exact hx
  | cons s ss ih =>
    rw [List.foldlM_cons] at hok
    obtain ⟨y, hy, hok⟩ := Outcome.bind_ok_iff.1 hok
    obtain ⟨⟨⟩, -, hy⟩ := Outcome.bind_ok_iff.1 hy
    cases hy
    refine ih (fun t ht => ?_) hok
    obtain ⟨r, -, rfl⟩ := List.mem_map.1 ht
    exact hk.run x r hx

/-- Replaying one layer, whatever its kind, passes both properties on. -/
theorem layer (hk : Kept Q P) {trace : Trace} {ratio : K} {l : Layer K} {x outs : List (Affine K n)}
    {r r' : Replay S K n} (hx : ∀ t ∈ x, Q t) (h : r.Leaves P)
    (hok : Replay.layer trace ratio l x r = .ok (outs, r')) :
    (∀ t ∈ outs, Q t) ∧ r'.Leaves P := by
  cases l with
  | affine a =>
    obtain ⟨out, hout, hok⟩ := Outcome.bind_ok_iff.1 hok
    cases hok
    exact ⟨hk.stages hx hout, h⟩
  | relu u =>
    obtain ⟨⟨⟩, -, hok⟩ := Outcome.bind_ok_iff.1 hok
    obtain ⟨b, -, hok⟩ := Outcome.bind_ok_iff.1 hok
    split at hok
    · cases hok
    · exact hk.units hx h hok
  | maxPool m =>
    obtain ⟨⟨⟩, -, hok⟩ := Outcome.bind_ok_iff.1 hok
    obtain ⟨b, -, hok⟩ := Outcome.bind_ok_iff.1 hok
    split at hok
    · cases hok
    · exact hk.windows hx h hok

/-- **Passing on.**  What every layer passes on, a run through all of them does. -/
theorem layers (hk : Kept Q P) {trace : Trace} {ratio : K} {ls : List (Layer K)}
    {x outs : List (Affine K n)} {r r' : Replay S K n} (hx : ∀ t ∈ x, Q t) (h : r.Leaves P)
    (hok : Replay.layers trace ratio x r ls = .ok (outs, r')) :
    (∀ t ∈ outs, Q t) ∧ r'.Leaves P := by
  induction ls generalizing x r with
  | nil =>
    cases hok
    exact ⟨hx, h⟩
  | cons l ls ih =>
    obtain ⟨⟨y, r₁⟩, hl, hrest⟩ := Outcome.bind_ok_iff.1 hok
    obtain ⟨hy, h₁⟩ := hk.layer hx h hl
    exact ih hy h₁ hrest

end Kept

end Replay

section

variable {S K : Type} [Scalar K] [Source S K] {n : Nat} {net : Net K} {trace : Trace} {ratio : K}
  {x outs : List (Affine K n)} {draws : S} {r : Replay S K n}

/-- A replay of a whole network passes on what its layers do. -/
theorem Net.replay_keeps {Q : Affine K n → Prop} {P : Constraint K n → Prop}
    (hk : Replay.Kept Q P) (hx : ∀ t ∈ x, Q t)
    (hok : net.replay trace ratio x (Replay.start draws) = .ok (outs, r)) :
    (∀ t ∈ outs, Q t) ∧ ∀ c ∈ r.current ++ r.deferred, P c := by
  have hstart : (Replay.start draws : Replay S K n).Leaves P := List.forall_mem_nil _
  exact hk.layers hx hstart hok

/-! ## As first made -/

/-- **Everything a replay leaves behind is as it was first made**, whatever the network. -/
theorem Net.replay_fresh (hok : net.replay trace ratio x (Replay.start draws) = .ok (outs, r)) :
    ∀ c ∈ r.current ++ r.deferred, c.Fresh := by
  have hkept : Replay.Kept (fun _ : Affine K n => True) Constraint.Fresh := by
    refine ⟨fun _ _ _ => trivial, fun t _ => ⟨?_, ?_⟩, fun t u _ _ => ?_⟩ <;>
      exact Constraint.fresh_of _ fun _ h => by cases h
  exact (Net.replay_keeps hkept (fun _ _ => trivial) hok).2

end

/-! ## Variables -/

namespace Affine

variable {n : Nat} {t u : Affine Rat n} {k : Nat}

/-- A variable does not occur in a term. -/
def Spares (t : Affine Rat n) (k : Nat) : Prop := ∀ h : k < n, t.coeffs[k] = 0

theorem spares_const (d : Rat) : (const d : Affine Rat n).Spares k := by
  intro h
  simp [const]

theorem spares_var {i : Nat} (hi : i ≠ k) : (var i : Affine Rat n).Spares k := by
  intro h
  simp [var, hi.symm]

theorem Spares.add (ht : t.Spares k) (hu : u.Spares k) : (t.add u).Spares k := by
  intro h
  simp [Affine.add, ht h, hu h]

theorem Spares.sub (ht : t.Spares k) (hu : u.Spares k) : (t.sub u).Spares k := by
  intro h
  simp [Affine.sub, ht h, hu h]

theorem Spares.addScalar (ht : t.Spares k) (d : Rat) : (t.addScalar d).Spares k := ht

theorem Spares.addMul (ht : t.Spares k) (hu : u.Spares k) (d : Rat) :
    (t.addMul u d).Spares k := by
  intro h
  simp [Affine.addMul, ht h, hu h]

theorem Spares.mul (ht : t.Spares k) (d : Rat) : (t.mul d).Spares k := by
  intro h
  simp [Affine.mul, ht h]

/-- A term does not look at a variable that does not occur in it. -/
theorem Spares.linearAt_congr (ht : t.Spares k) {v w : Vector Rat n}
    (hvw : ∀ i (_ : i < n), i ≠ k → v[i] = w[i]) : t.linearAt v = t.linearAt w := by
  rw [linearAt_eq_sum, linearAt_eq_sum]
  refine Finset.sum_congr rfl fun i _ => ?_
  by_cases hi : i.val = k
  · have hzero : t.coeffs[i] = 0 := by
      subst hi
      exact ht i.isLt
    rw [hzero, zero_mul, zero_mul]
  · have hsame : v[i] = w[i] := hvw i.val i.isLt hi
    rw [hsame]

/-- A move reads an input or none. -/
theorem Spares.apply {x : List (Affine Rat n)} (hx : ∀ t ∈ x, t.Spares k) (ht : t.Spares k)
    (m : Move Rat) : (m.apply x t).Spares k := by
  cases m with
  | add i =>
    dsimp only [Move.apply]
    cases hi : x[i]? with
    | none => exact ht
    | some u => exact ht.add (hx u (List.mem_of_getElem? hi))
  | addMul i w =>
    dsimp only [Move.apply]
    cases hi : x[i]? with
    | none => exact ht
    | some u => exact ht.addMul (hx u (List.mem_of_getElem? hi)) w
  | mul d => exact ht.mul d

/-- So a recipe spares what its inputs spare. -/
theorem Spares.run {x : List (Affine Rat n)} (hx : ∀ t ∈ x, t.Spares k) (r : Recipe Rat) :
    (r.run x).Spares k := by
  have hstep : ∀ t : Affine Rat n, t.Spares k → ∀ m ∈ r.moves, (m.apply x t).Spares k :=
    fun _ ht m _ => Spares.apply hx ht m
  exact List.foldlRecOn r.moves (Move.apply x) (motive := fun t => t.Spares k)
    (spares_const r.start) hstep

end Affine

/-- **A variable that is not put in does not come out**: neither of the outputs of a replay nor of
    what it leaves behind. -/
theorem Net.replay_spares {S : Type} [Source S Rat] {n k : Nat} {net : Net Rat} {trace : Trace}
    {ratio : Rat} {x outs : List (Affine Rat n)} {draws : S} {r : Replay S Rat n}
    (hx : ∀ t ∈ x, t.Spares k)
    (hok : net.replay trace ratio x (Replay.start draws) = .ok (outs, r)) :
    (∀ t ∈ outs, t.Spares k) ∧ ∀ c ∈ r.current ++ r.deferred, c.term.Spares k := by
  have hkept : Replay.Kept (fun t : Affine Rat n => t.Spares k) fun c => c.term.Spares k :=
    ⟨fun _ r hx => Affine.Spares.run hx r, fun _ ht => ⟨ht, ht⟩, fun _ _ ht hu => ht.sub hu⟩
  exact Net.replay_keeps hkept hx hok

end Perturb
