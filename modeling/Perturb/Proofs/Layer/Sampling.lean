/-
  What a random draw can change in a replay.

  A replay along a trace meets its constraints in a fixed order, and a draw decides of some of them
  whether they are deferred.  Here the two are taken apart.

  1. **Demands** — `Demand` is a constraint together with where it comes from: a unit that passes
     its input, one that does not, a cell that a window's winner beats.  Only the first kind is live.

  2. **The plan** — `Layer.plan` replays a layer without a source of draws: it gives the terms that
     come out and the demands in the order in which they are met.

  3. **Noting** — `Replay.noteAll` goes through demands with a source of draws, and a replay is its
     plan, noted (`Replay.layer_eq`).  So a draw moves demands and changes nothing else.

  4. **The crux (`Replay.current_mono`)** — two replays of one plan whose sources draw the same
     numbers.  They consume the draws in step as long as neither ratio reaches one; a larger ratio
     keeps whatever a smaller one keeps.  A ratio of one or more is a case of its own, for it draws
     nothing and keeps every live demand.
-/
import Perturb.Proofs.Layer.Remainder
import Perturb.Proofs.Net.Crop

namespace Perturb

/-- Numbers that compare as one expects, whether or not any two of them do. -/
class Scalar.Comparable (K : Type) [Scalar K] : Prop where
  /-- Comparisons can be chained. -/
  trans : ∀ {a b c : K}, a ≤ b → b ≤ c → a ≤ c
  /-- A smaller number is not at least as large. -/
  not_le : ∀ {a b : K}, a < b → ¬ b ≤ a

instance Scalar.instComparableRat : Scalar.Comparable Rat := ⟨le_trans, not_le_of_gt⟩

/-! ## Sources -/

namespace Source

variable {S S' K : Type} [Source S K] [Source S' K]

/-- A source after some draws from the unit interval. -/
def after (draws : S) : Nat → S
  | 0 => draws
  | k + 1 => after (Source.unit draws).2 k

/-- The draw from the unit interval that comes after `k` others. -/
def drawn (draws : S) (k : Nat) : K := (Source.unit (after draws k)).1

/-- Two sources draw the same numbers. -/
def Agree (draws : S) (draws' : S') : Prop := ∀ k, drawn draws k = drawn draws' k

/-- Every draw is at least zero and below one. -/
def InUnit [Scalar K] (draws : S) : Prop := ∀ k, 0 ≤ drawn draws k ∧ drawn draws k < 1

theorem Agree.next {draws : S} {draws' : S'} (h : Agree draws draws') :
    Agree (Source.unit draws).2 (Source.unit draws').2 := fun k => h (k + 1)

theorem InUnit.next [Scalar K] {draws : S} (h : InUnit draws) : InUnit (Source.unit draws).2 :=
  fun k => h (k + 1)

end Source

/-! ## Demands -/

/-- A constraint that a replay relies on, with where it comes from. -/
inductive Demand (K : Type) (n : Nat) where
  /-- A unit passes its input. -/
  | active (t : Affine K n)
  /-- A unit does not pass its input. -/
  | inactive (t : Affine K n)
  /-- The winner of a window is at least as large as another cell. -/
  | beaten (winner other : Affine K n)

namespace Demand

variable {K : Type} [Scalar K] {n : Nat}

/-- The constraint that is demanded. -/
def constraint : Demand K n → Constraint K n
  | .active t => .of t .ge
  | .inactive t => .of t .lt
  | .beaten winner other => .of (winner.sub other) .ge

omit [Scalar K] in
/-- Whether a draw decides if the constraint is deferred. -/
def live : Demand K n → Bool
  | .active _ => true
  | _ => false

/-- The constraints of active units. -/
def liveOf (ds : List (Demand K n)) : List (Constraint K n) := (ds.filter live).map constraint

/-- The constraints of inactive units and of windows. -/
def fixedOf (ds : List (Demand K n)) : List (Constraint K n) :=
  (ds.filter fun d => !d.live).map constraint

section

variable {d : Demand K n}

theorem liveOf_cons_live (hd : d.live = true) (ds : List (Demand K n)) :
    liveOf (d :: ds) = d.constraint :: liveOf ds := by
  simp [liveOf, hd]

theorem liveOf_cons_fixed (hd : d.live = false) (ds : List (Demand K n)) :
    liveOf (d :: ds) = liveOf ds := by
  simp [liveOf, hd]

theorem fixedOf_cons_live (hd : d.live = true) (ds : List (Demand K n)) :
    fixedOf (d :: ds) = fixedOf ds := by
  simp [fixedOf, hd]

theorem fixedOf_cons_fixed (hd : d.live = false) (ds : List (Demand K n)) :
    fixedOf (d :: ds) = d.constraint :: fixedOf ds := by
  simp [fixedOf, hd]

end

end Demand

/-! ## Plans -/

section

variable {K : Type} [Scalar K] {n : Nat}

/-- What unit `i` of a rectifier gives and demands along its recorded choice. -/
def Relu.planUnit (index : Int) (choices : List Choice) (t : Affine K n) (i : Nat) :
    Outcome (Affine K n × Demand K n) :=
  match choices[i]? with
  | none => .error .position
  | some (.undecided _) => .error (.unresolvedChoice i index)
  | some .active => .ok (t, .active t)
  | some .inactive => .ok (.const 0, .inactive t)

/-- What window `o` of a maximum gives and demands along its recorded winner. -/
def MaxPool.planWindow (index : Int) (selections : List Int) (x : List (Affine K n))
    (w : List Nat) (o : Nat) : Outcome (Affine K n × List (Demand K n)) :=
  match selections[o]? with
  | none => .error .position
  | some sel =>
    if sel < 0 || !w.contains sel.toNat then .error (.selectionOutside sel o index)
    else
      let winner := (x[sel.toNat]?).getD default
      .ok (winner, (w.filter (· != sel.toNat)).map fun i => .beaten winner ((x[i]?).getD default))

/-- What a layer gives and demands along a trace, in order. -/
def Layer.plan (trace : Trace) (l : Layer K) (x : List (Affine K n)) :
    Outcome (List (Affine K n) × List (Demand K n)) :=
  match l with
  | .affine a => do
    let out ← a.stages.foldlM (fun x s => s.terms x) x
    .ok (out, [])
  | .relu u => do
    l.check x
    let b ← trace.get u.index
    match b.choices with
    | none => .error (.noChoices u.index)
    | some choices => do
      let parts ← x.zipIdx.mapM fun p => Relu.planUnit u.index choices p.1 p.2
      .ok (parts.map (·.1), parts.map (·.2))
  | .maxPool m => do
    l.check x
    let b ← trace.get m.pooling.index
    match b.selections with
    | none => .error (.noSelections m.pooling.index)
    | some selections => do
      let parts ← m.pooling.windows.zipIdx.mapM fun p =>
        MaxPool.planWindow m.pooling.index selections x p.1 p.2
      .ok (parts.map (·.1), parts.flatMap (·.2))

end

/-! ## Noting -/

namespace Replay

variable {S S' K : Type} [Scalar K] [Source S K] [Source S' K] {n : Nat}

/-- A demand that is met: a live one is kept unless a draw defers it, any other is deferred. -/
def note (ratio : K) (r : Replay S K n) (d : Demand K n) : Replay S K n :=
  if d.live then r.keep ratio d.constraint else r.defer d.constraint

/-- Demands that are met one after the other. -/
def noteAll (ratio : K) (r : Replay S K n) (ds : List (Demand K n)) : Replay S K n :=
  ds.foldl (note ratio) r

theorem note_live {d : Demand K n} (hd : d.live = true) (ratio : K) (r : Replay S K n) :
    r.note ratio d = r.keep ratio d.constraint := if_pos hd

theorem note_fixed {d : Demand K n} (hd : d.live = false) (ratio : K) (r : Replay S K n) :
    r.note ratio d = r.defer d.constraint := by
  simp [note, hd]

@[simp] theorem noteAll_cons (ratio : K) (r : Replay S K n) (d : Demand K n)
    (ds : List (Demand K n)) : r.noteAll ratio (d :: ds) = (r.note ratio d).noteAll ratio ds := rfl

theorem noteAll_append (ratio : K) (r : Replay S K n) (ds es : List (Demand K n)) :
    r.noteAll ratio (ds ++ es) = (r.noteAll ratio ds).noteAll ratio es := List.foldl_append

/-- Replaying units is noting what they demand. -/
theorem units_eq (ratio : K) (index : Int) (choices : List Choice) (i : Nat) (r : Replay S K n)
    (ts : List (Affine K n)) : units ratio index choices i r ts =
      ((ts.zipIdx i).mapM fun p => Relu.planUnit index choices p.1 p.2 : Outcome _).map
        fun parts => (parts.map (·.1), r.noteAll ratio (parts.map (·.2))) := by
  induction ts generalizing i r with
  | nil => rfl
  | cons t ts ih =>
    have hunit : Relu.planUnit index choices t i = match choices[i]? with
        | none => .error .position
        | some (.undecided _) => .error (.unresolvedChoice i index)
        | some .active => .ok (t, .active t)
        | some .inactive => .ok (.const 0, .inactive t) := rfl
    rw [units, List.zipIdx_cons, List.mapM_cons, hunit]
    cases choices[i]? with
    | none => rfl
    | some c =>
      cases c with
      | undecided code => rfl
      | _ =>
        simp only [ih]
        generalize (List.mapM _ (ts.zipIdx (i + 1)) : Outcome _) = parts
        cases parts <;> rfl

/-- Replaying windows is noting what they demand. -/
theorem windows_eq (ratio : K) (index : Int) (selections : List Int) (x : List (Affine K n))
    (o : Nat) (r : Replay S K n) (ws : List (List Nat)) :
    windows index selections x o r ws =
      ((ws.zipIdx o).mapM fun p => MaxPool.planWindow index selections x p.1 p.2 : Outcome _).map
        fun parts => (parts.map (·.1), r.noteAll ratio (parts.flatMap (·.2))) := by
  induction ws generalizing o r with
  | nil => rfl
  | cons w ws ih =>
    have hwindow : MaxPool.planWindow index selections x w o = match selections[o]? with
        | none => .error .position
        | some sel =>
          if sel < 0 || !w.contains sel.toNat then .error (.selectionOutside sel o index)
          else
            let winner := (x[sel.toNat]?).getD default
            .ok (winner, (w.filter (· != sel.toNat)).map fun i =>
              .beaten winner ((x[i]?).getD default)) := rfl
    rw [windows, List.zipIdx_cons, List.mapM_cons, hwindow]
    cases selections[o]? with
    | none => rfl
    | some sel =>
      dsimp only
      split
      · rfl
      · have hlosers : ∀ (is : List Nat) (r : Replay S K n), is.foldl (fun r i => r.defer (.of
            (((x[sel.toNat]?).getD default).sub ((x[i]?).getD default)) .ge)) r =
              r.noteAll ratio (is.map fun i =>
                .beaten ((x[sel.toNat]?).getD default) ((x[i]?).getD default)) := by
          intro is r
          rw [noteAll, List.foldl_map]
          rfl
        rw [hlosers, ih]
        generalize (List.mapM _ (ws.zipIdx (o + 1)) : Outcome _) = parts
        cases parts with
        | error e => rfl
        | ok parts =>
          exact congrArg (fun r => Except.ok (_ :: parts.map (·.1), r))
            (noteAll_append ratio r _ _).symm

/-- **A layer's replay is its plan, noted.** -/
theorem layer_eq (trace : Trace) (ratio : K) (l : Layer K) (x : List (Affine K n))
    (r : Replay S K n) : layer trace ratio l x r =
      (l.plan trace x).map fun p => (p.1, r.noteAll ratio p.2) := by
  cases l with
  | affine a =>
    simp only [layer, Layer.plan]
    refine (Outcome.map_bind fun out _ => ?_).symm
    rfl
  | relu u =>
    refine (Outcome.map_bind fun _ _ => Outcome.map_bind fun b _ => ?_).symm
    cases b.choices with
    | none => rfl
    | some choices =>
      dsimp only
      rw [units_eq]
      generalize (List.mapM _ x.zipIdx : Outcome _) = parts
      cases parts <;> rfl
  | maxPool m =>
    refine (Outcome.map_bind fun _ _ => Outcome.map_bind fun b _ => ?_).symm
    cases b.selections with
    | none => rfl
    | some selections =>
      dsimp only
      rw [windows_eq ratio]
      generalize (List.mapM _ m.pooling.windows.zipIdx : Outcome _) = parts
      cases parts <;> rfl

/-! ## What noting does -/

theorem all_note (ratio : K) (r : Replay S K n) (d : Demand K n) :
    (r.note ratio d).all.Perm (r.all ++ [d.constraint]) := by
  unfold note
  split
  · exact all_keep ratio r _
  · exact all_defer r _

/-- Every demand is left behind once, whatever is drawn. -/
theorem all_noteAll (ratio : K) (r : Replay S K n) (ds : List (Demand K n)) :
    (r.noteAll ratio ds).all.Perm (r.all ++ ds.map Demand.constraint) := by
  induction ds generalizing r with
  | nil =>
    rw [List.map_nil, List.append_nil]
    rfl
  | cons d ds ih =>
    rw [List.map_cons, List.append_cons]
    exact (ih (r.note ratio d)).trans ((all_note ratio r d).append_right _)

/-- A live constraint is kept, or deferred by a draw. -/
theorem keep_cases (ratio : K) (r : Replay S K n) (c : Constraint K n) :
    ((r.keep ratio c).current = r.current ++ [c] ∧ (r.keep ratio c).deferred = r.deferred) ∨
      ((r.keep ratio c).current = r.current ∧ (r.keep ratio c).deferred = r.deferred ++ [c]) := by
  unfold keep
  rcases defersLive ratio r.draws with ⟨deferred, draws⟩
  cases deferred with
  | true => exact Or.inr ⟨rfl, rfl⟩
  | false => exact Or.inl ⟨rfl, rfl⟩

/-- What stays live is among what active units demand. -/
theorem current_sublist (ratio : K) (r : Replay S K n) (ds : List (Demand K n)) :
    (r.noteAll ratio ds).current.Sublist (r.current ++ Demand.liveOf ds) := by
  induction ds generalizing r with
  | nil => exact List.sublist_append_left ..
  | cons d ds ih =>
    refine (ih (r.note ratio d)).trans ?_
    cases hd : d.live with
    | false =>
      rw [Demand.liveOf_cons_fixed hd, note_fixed hd]
      exact List.Sublist.refl _
    | true =>
      rw [Demand.liveOf_cons_live hd, note_live hd, List.append_cons]
      refine List.Sublist.append_right ?_ _
      rcases keep_cases ratio r d.constraint with ⟨h, -⟩ | ⟨h, -⟩ <;> rw [h]
      exact List.sublist_append_left ..

/-- What inactive units and windows demand is deferred. -/
theorem fixed_sublist (ratio : K) (r : Replay S K n) (ds : List (Demand K n)) :
    (r.deferred ++ Demand.fixedOf ds).Sublist (r.noteAll ratio ds).deferred := by
  induction ds generalizing r with
  | nil =>
    show (r.deferred ++ []).Sublist _
    rw [List.append_nil]
    exact List.Sublist.refl _
  | cons d ds ih =>
    refine List.Sublist.trans ?_ (ih (r.note ratio d))
    cases hd : d.live with
    | false =>
      rw [Demand.fixedOf_cons_fixed hd, note_fixed hd, List.append_cons]
      exact List.Sublist.refl _
    | true =>
      rw [Demand.fixedOf_cons_live hd, note_live hd]
      refine List.Sublist.append_right ?_ _
      rcases keep_cases ratio r d.constraint with ⟨-, h⟩ | ⟨-, h⟩ <;> rw [h]
      exact List.sublist_append_left ..

/-! ### Ratios -/

/-- A ratio of one or more keeps every live demand and draws nothing. -/
theorem noteAll_of_one_le {ratio : K} (h : 1 ≤ ratio) (r : Replay S K n) (ds : List (Demand K n)) :
    (r.noteAll ratio ds).current = r.current ++ Demand.liveOf ds ∧
      (r.noteAll ratio ds).draws = r.draws := by
  have hkeep : ∀ (r : Replay S K n) c, r.keep ratio c = { r with current := r.current ++ [c] } := by
    intro r c
    unfold keep defersLive
    rw [if_pos h]
    rfl
  induction ds generalizing r with
  | nil => exact ⟨(List.append_nil _).symm, rfl⟩
  | cons d ds ih =>
    obtain ⟨hcurrent, hdraws⟩ := ih (r.note ratio d)
    rw [noteAll_cons, hcurrent, hdraws]
    cases hd : d.live with
    | false =>
      rw [Demand.liveOf_cons_fixed hd, note_fixed hd]
      exact ⟨rfl, rfl⟩
    | true =>
      rw [Demand.liveOf_cons_live hd, note_live hd, hkeep]
      exact ⟨(List.append_cons ..).symm, rfl⟩

/-- A ratio that does not reach one draws for every live constraint, and compares the draw with
    the ratio. -/
theorem keep_of_not {ratio : K} (h : ¬ 1 ≤ ratio) (r : Replay S K n) (c : Constraint K n) :
    r.keep ratio c =
      { current := if ratio ≤ (Source.unit r.draws).1 then r.current else r.current ++ [c]
        deferred := if ratio ≤ (Source.unit r.draws).1 then r.deferred ++ [c] else r.deferred
        draws := (Source.unit r.draws).2 } := by
  unfold keep defersLive
  rw [if_neg h]
  by_cases hu : ratio ≤ (Source.unit r.draws).1
  · simp only [decide_eq_true hu, if_pos hu]
    rfl
  · simp only [decide_eq_false hu, if_neg hu]
    rfl

/-- **One draw per live demand**, if the ratio does not reach one. -/
theorem draws_noteAll {ratio : K} (h : ¬ 1 ≤ ratio) (r : Replay S K n) (ds : List (Demand K n)) :
    (r.noteAll ratio ds).draws = Source.after r.draws (ds.filter Demand.live).length := by
  induction ds generalizing r with
  | nil => rfl
  | cons d ds ih =>
    refine (ih (r.note ratio d)).trans ?_
    cases hd : d.live with
    | false =>
      rw [List.filter_cons_of_neg (by simp [hd]), note_fixed hd]
      rfl
    | true =>
      rw [List.filter_cons_of_pos hd, note_live hd, keep_of_not h]
      rfl

variable [Scalar.Comparable K]

/-- A ratio of zero or less keeps nothing, if no draw is below zero. -/
theorem current_of_le_zero {ratio : K} (h : ratio ≤ 0) {r : Replay S K n}
    (hr : Source.InUnit r.draws) (ds : List (Demand K n)) :
    (r.noteAll ratio ds).current = r.current := by
  have hone : ¬ 1 ≤ ratio := fun h1 =>
    Scalar.Comparable.not_le (hr 0).2 (Scalar.Comparable.trans (Scalar.Comparable.trans h1 h) (hr 0).1)
  induction ds generalizing r with
  | nil => rfl
  | cons d ds ih =>
    rw [noteAll_cons]
    cases hd : d.live with
    | false =>
      rw [note_fixed hd]
      exact ih (r := r.defer d.constraint) hr
    | true =>
      have hdefer : ratio ≤ (Source.unit r.draws).1 := Scalar.Comparable.trans h (hr 0).1
      rw [note_live hd, keep_of_not hone, if_pos hdefer, if_pos hdefer]
      exact ih (r := ⟨r.current, r.deferred ++ [d.constraint], (Source.unit r.draws).2⟩) hr.next

/-- **A larger ratio keeps what a smaller one keeps**, if the draws are the same. -/
theorem current_mono {ratio ratio' : K} (h : ratio ≤ ratio') {r : Replay S K n}
    {r' : Replay S' K n} (hcurrent : r.current.Sublist r'.current)
    (hagree : Source.Agree r.draws r'.draws) (ds : List (Demand K n)) :
    (r.noteAll ratio ds).current.Sublist (r'.noteAll ratio' ds).current := by
  by_cases hone' : 1 ≤ ratio'
  · -- nothing is drawn on the right, so the draws no longer run in step; but all of it is kept
    rw [(noteAll_of_one_le hone' r' ds).1]
    exact (current_sublist ratio r ds).trans (hcurrent.append_right _)
  have hone : ¬ 1 ≤ ratio := fun h1 => hone' (Scalar.Comparable.trans h1 h)
  induction ds generalizing r r' with
  | nil => exact hcurrent
  | cons d ds ih =>
    rw [noteAll_cons, noteAll_cons]
    cases hd : d.live with
    | false =>
      rw [note_fixed hd, note_fixed hd]
      have hcurrent' : (r.defer d.constraint).current.Sublist (r'.defer d.constraint).current :=
        hcurrent
      exact ih hcurrent' hagree
    | true =>
      -- both sides draw, and they draw the same number
      have hdraw : (Source.unit r.draws).1 = (Source.unit r'.draws).1 := hagree 0
      rw [note_live hd, note_live hd, keep_of_not hone, keep_of_not hone']
      refine ih ?_ hagree.next
      show List.Sublist (if _ then _ else _) (if _ then _ else _)
      rw [← hdraw]
      by_cases hkept' : ratio' ≤ (Source.unit r.draws).1
      · rw [if_pos (Scalar.Comparable.trans h hkept'), if_pos hkept']
        exact hcurrent
      · rw [if_neg hkept']
        split
        · exact hcurrent.trans (List.sublist_append_left ..)
        · exact hcurrent.append_right _

end Replay

end Perturb
