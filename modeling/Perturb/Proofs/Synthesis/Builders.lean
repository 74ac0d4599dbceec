/-
  The formulas of an attempt: what they say, and that they are made without touching anything.

  1. **Values** — read at a point, the three formulas speak of the values of inputs and outputs,
     place by place: a lead (`lead_iff`), a ball (`within_radius_iff`) and a box (`within_holds_iff`).
     The box has two branches; both are one set, `clip`, and a session limits its pixels to the same
     set (`pixel_limits`).

  2. **Objects** — here terms are objects that others may hold.  Each formula is written out as the
     operations that draft its terms (`leadPieces`, `boxPieces`, `ballPieces`), in-place updates
     included.  Run in any store, under any names for the terms, aliases among them, they build the
     constraints of the formula and leave every object as it was.
-/
import Mathlib.Order.Interval.Set.Basic
import Perturb.Proofs.Constraint.Building
import Perturb.Proofs.Data.Label
import Perturb.Proofs.Program.Limits
import Perturb.Proofs.Synthesis.Formula

namespace Perturb.Formula

variable {n : Nat}

/-! ## Places -/

/-- What is asked of the pairs of two lists, place by place. -/
theorem forall_zip_iff {α β : Type} {P : α → β → Prop} {xs : List α} {ys : List β}
    (hlen : ys.length = xs.length) : (∀ p ∈ List.zip xs ys, P p.1 p.2) ↔
      ∀ i (hi : i < xs.length), P xs[i] ys[i] := by
  constructor
  · intro h i hi
    refine h (xs[i], ys[i]) (List.mem_iff_getElem?.2 ⟨i, List.getElem?_zip_eq_some.2 ⟨?_, ?_⟩⟩)
    · exact List.getElem?_eq_getElem hi
    · exact List.getElem?_eq_getElem (hlen ▸ hi)
  · rintro h ⟨x, y⟩ hp
    obtain ⟨i, hi⟩ := List.mem_iff_getElem?.1 hp
    obtain ⟨hx, hy⟩ := List.getElem?_zip_eq_some.1 hi
    obtain ⟨hi, rfl⟩ := List.getElem?_eq_some_iff.1 hx
    obtain ⟨-, rfl⟩ := List.getElem?_eq_some_iff.1 hy
    exact h i hi

/-! ## The lead -/

/-- A point satisfies the constraints of a lead exactly if the output leads every other by the
    margin. -/
theorem lead_iff {outputs : List (Affine Rat n)} {k : Nat} (hk : k < outputs.length)
    {margin : Rat} {cs : List (Constraint Rat n)}
    (h : beats outputs (Int.ofNat k) margin = .ok cs) (v : Vector Rat n) :
    (∀ c ∈ cs, c.Holds v) ↔ ∀ i (hi : i < outputs.length), i ≠ k →
      outputs[i].eval v + margin ≤ outputs[k].eval v := by
  rw [beats_holds_iff (List.getElem?_eq_getElem hk) h]
  constructor
  · intro hall i hi hne
    exact hall i _ hne (List.getElem?_eq_getElem hi)
  · intro hall i t hne ht
    obtain ⟨hi, rfl⟩ := List.getElem?_eq_some_iff.1 ht
    exact hall i hi hne

/-- An output that leads every other by a positive margin is the label. -/
theorem largest_of_lead {outputs : List (Affine Rat n)} {k : Nat} (hk : k < outputs.length)
    {margin : Rat} (hmargin : 0 < margin) {v : Vector Rat n}
    (h : ∀ i (hi : i < outputs.length), i ≠ k →
      outputs[i].eval v + margin ≤ outputs[k].eval v) :
    Label.largest (outputs.map fun t => t.eval v) = .ok (outputs[k].eval v, k) := by
  have hvalue : (outputs.map fun t => t.eval v)[k]? = some (outputs[k].eval v) := by
    rw [List.getElem?_map, List.getElem?_eq_getElem hk]
    rfl
  obtain ⟨x, j, hj⟩ : ∃ x j, Label.largest (outputs.map fun t => t.eval v) = .ok (x, j) := by
    cases outputs with
    | nil => cases hk
    | cons t outputs => exact ⟨_, _, rfl⟩
  have hleads : ∀ i z, i ≠ k → (outputs.map fun t => t.eval v)[i]? = some z →
      z < outputs[k].eval v := by
    intro i z hne hz
    rw [List.getElem?_map, Option.map_eq_some_iff] at hz
    obtain ⟨t, ht, rfl⟩ := hz
    obtain ⟨hi, rfl⟩ := List.getElem?_eq_some_iff.1 ht
    have := h i hi hne
    linarith
  obtain rfl := Label.largest_of_leads hj hvalue hleads
  obtain rfl := Option.some.inj ((Label.largest_ok hj).1.symm.trans hvalue)
  exact hj

/-! ## The ball -/

/-- A point satisfies the constraints of a ball exactly if no input is farther from its origin than
    the radius, which is positive and not too large. -/
theorem within_radius_iff {inputs : List (Affine Rat n)} {origin : List Rat}
    (horigin : origin.length = inputs.length) (eps : Affine Rat n) (most : Rat)
    (v : Vector Rat n) : (∀ c ∈ ball inputs origin eps most, c.Holds v) ↔
      (0 < eps.eval v ∧ eps.eval v ≤ most) ∧
      ∀ i (hi : i < inputs.length), |inputs[i].eval v - origin[i]| ≤ eps.eval v := by
  have hnear : (∀ x o, (x, o) ∈ List.zip inputs origin →
      o - eps.eval v ≤ x.eval v ∧ x.eval v ≤ o + eps.eval v) ↔
      ∀ p ∈ List.zip inputs origin, |p.1.eval v - p.2| ≤ eps.eval v := by
    rw [Prod.forall]
    refine forall_congr' fun x => forall_congr' fun o => forall_congr' fun _ => ?_
    rw [abs_le]
    constructor <;> rintro ⟨h₁, h₂⟩ <;> constructor <;> linarith
  rw [ball_holds_iff, hnear, and_comm]
  exact and_congr_right fun _ =>
    forall_zip_iff (P := fun (x : Affine Rat n) o => |x.eval v - o| ≤ eps.eval v) horigin

/-! ## The box -/

/-- The neighbourhood of a value cut off at the ends of a range; all of it, if nothing would be
    left. -/
def clip (bound least most o : Rat) : Set Rat :=
  {a | a ∈ Set.Icc (o - bound) (o + bound) ∩ Set.Icc least most ∨
    Set.Icc (o - bound) (o + bound) ∩ Set.Icc least most = ∅ ∧
      a ∈ Set.Icc (o - bound) (o + bound)}

/-- Clipping gives the ends of this set. -/
theorem Icc_clippedInterval (bound least most o : Rat) :
    Set.Icc (clippedInterval bound least most o).1 (clippedInterval bound least most o).2 =
      clip bound least most o := by
  have hboth : Set.Icc (o - bound) (o + bound) ∩ Set.Icc least most =
      Set.Icc (max least (o - bound)) (min most (o + bound)) := by
    rw [Set.Icc_inter_Icc, max_comm, min_comm]
  unfold clip clippedInterval
  rw [hboth]
  simp only [Scalar.larger_rat, Scalar.smaller_rat]
  ext a
  rw [Set.mem_ofPred_eq]
  split
  · rename_i hempty
    have hnone := Set.Icc_eq_empty (not_le.2 hempty)
    rw [hnone]
    exact ⟨fun ha => Or.inr ⟨rfl, ha⟩, fun ha => ha.elim (fun h => h.elim) And.right⟩
  · rename_i hfilled
    have hsome := (Set.nonempty_Icc.2 (not_lt.1 hfilled)).ne_empty
    exact ⟨Or.inl, fun ha => ha.elim id fun h => absurd h.1 hsome⟩

/-- A point satisfies the constraints of a box exactly if every input lies in its clipped
    neighbourhood. -/
theorem within_holds_iff {inputs : List (Affine Rat n)} {origin : List Rat}
    (horigin : origin.length = inputs.length) (bound least most : Rat) (v : Vector Rat n) :
    (∀ c ∈ within inputs origin bound least most, c.Holds v) ↔
      ∀ i (hi : i < inputs.length), inputs[i].eval v ∈ clip bound least most origin[i] := by
  have hone : ∀ (x : Affine Rat n) (o : Rat),
      (∀ c ∈ [Constraint.of (x.addScalar (-(clippedInterval bound least most o).1)) .ge,
        Constraint.of (x.addScalar (-(clippedInterval bound least most o).2)) .le], c.Holds v) ↔
      x.eval v ∈ clip bound least most o := by
    intro x o
    rw [← Icc_clippedInterval, Set.mem_Icc]
    simp only [List.forall_mem_cons, List.not_mem_nil, false_imp_iff, implies_true, and_true,
      Constraint.holds_ge_iff, Constraint.holds_le_iff, Affine.eval_addScalar]
    constructor <;> rintro ⟨h₁, h₂⟩ <;> constructor <;> linarith
  rw [← forall_zip_iff (P := fun x o => x.eval v ∈ clip bound least most o) horigin]
  unfold within clippedBounds
  rw [List.forall_mem_flatMap, List.zip_map_right, List.forall_mem_map]
  exact forall₂_congr fun p _ => hone p.1 p.2

/-- A session limits a pixel to the same set. -/
theorem pixel_limits {E : Type} [Engine E Rat] {origin : List Rat} {bound least most : Rat}
    {integrality : Bool} {s s' : Session E Rat n}
    (h : Session.begin origin bound least most integrality s = .ok () s') {i : Nat}
    (hi : i < origin.length) (hn : i < n) :
    ∃ x low high, s'.program.vars[i]? = some x ∧ x.lo = some low ∧ x.hi = some high ∧
      Set.Icc low high = clip bound least most origin[i] := by
  obtain ⟨engine, rfl⟩ := Session.begin_ok h
  refine ⟨_, _, _, Program.getElem?_begun_vars hn, rfl, rfl, ?_⟩
  rw [← Icc_clippedInterval]
  unfold clippedBounds
  rw [List.getElem?_map, List.getElem?_eq_getElem hi]
  rfl

/-! ## Objects -/

section

variable {K : Type}

/-- The lead: the winner minus a rival, and the margin taken off in place. -/
def leadPieces (d : Desk) (outputs : List String) (k : Nat) (margin : K) [Neg K] :
    List (List (StoreOp K) × Relation) :=
  (rivals outputs (Int.ofNat k)).map fun rival =>
    ([.combine d.draft .sub (.term ((outputs[k]?).getD "")) (.term rival),
      .addScalarIn d.draft (-margin)], .ge)

/-- The box: an input minus either end of its interval. -/
def boxPieces [Scalar K] (d : Desk) (inputs : List String) (origin : List K)
    (bound least most : K) : List (List (StoreOp K) × Relation) :=
  (List.zip inputs (clippedBounds origin bound least most)).flatMap fun (x, lo, hi) =>
    [([.combine d.draft .sub (.term x) (.number lo)], .ge),
      ([.combine d.draft .sub (.term x) (.number hi)], .le)]

/-- The ball: an input plus and minus the radius, minus its origin; then a copy of the radius, and
    the radius minus its largest value. -/
def ballPieces (d : Desk) (inputs : List String) (origin : List K) (eps : String) (most : K) :
    List (List (StoreOp K) × Relation) :=
  ((List.zip inputs origin).flatMap fun (x, o) =>
    [([.combine d.draft .add (.term x) (.term eps),
        .combine d.draft .sub (.term d.draft) (.number o)], .ge),
      ([.combine d.draft .sub (.term x) (.term eps),
        .combine d.draft .sub (.term d.draft) (.number o)], .le)])
  ++ [([.copy d.draft eps], .gt), ([.combine d.draft .sub (.term eps) (.number most)], .le)]

end

/-- Lists that correspond do so next to a third one. -/
theorem forall₂_zip {α β γ : Type} {R : α → β → Prop} {xs : List α} {ys : List β}
    (h : List.Forall₂ R xs ys) (zs : List γ) :
    List.Forall₂ (fun p q => R p.1 q.1 ∧ p.2 = q.2) (List.zip xs zs) (List.zip ys zs) := by
  induction h generalizing zs with
  | nil => exact .nil
  | cons hxy _ ih =>
    cases zs with
    | nil => exact .nil
    | cons z zs => exact .cons ⟨hxy, rfl⟩ (ih zs)

section

variable {d : Desk} {s : Store Rat} {space : Nat}

/-- The operations of a lead build its constraints. -/
theorem builds_lead {names : List String} {outputs : List (Affine Rat n)}
    (h : List.Forall₂ (Store.Names d s space) names outputs) {k : Nat} {margin : Rat}
    {cs : List (Constraint Rat n)} (hk : k < outputs.length)
    (hcs : beats outputs (Int.ofNat k) margin = .ok cs) :
    Store.Builds d s space (d.ops (leadPieces d names k margin)) cs := by
  rw [beats_eq (List.getElem?_eq_getElem hk)] at hcs
  cases hcs
  have hwinner : Store.Names d s space ((names[k]?).getD "") outputs[k] := by
    have hk' : k < names.length := h.length_eq ▸ hk
    rw [List.getElem?_eq_getElem hk']
    exact List.forall₂_iff_get.1 h |>.2 k hk' hk
  refine Store.runs_built ?_
  rw [leadPieces, List.forall₂_map_left_iff, List.forall₂_map_right_iff]
  exact (forall₂_rivals h _).imp fun rival t ht => ⟨_, rfl, rfl,
    (Store.drafts_joined (fun _ => rfl) hwinner ht).addScalarIn (-margin)⟩

/-- The operations of a box build its constraints. -/
theorem builds_box {names : List String} {inputs : List (Affine Rat n)}
    (h : List.Forall₂ (Store.Names d s space) names inputs) (origin : List Rat)
    (bound least most : Rat) :
    Store.Builds d s space (d.ops (boxPieces d names origin bound least most))
      (within inputs origin bound least most) := by
  refine Store.runs_built (List.rel_flatMap (forall₂_zip h _) ?_)
  rintro ⟨name, lo, hi⟩ ⟨x, _, _⟩ ⟨hx, heq⟩
  cases heq
  exact .cons ⟨_, rfl, rfl, Store.drafts_subNumber hx lo⟩
    (.cons ⟨_, rfl, rfl, Store.drafts_subNumber hx hi⟩ .nil)

/-- The operations of a ball build its constraints. -/
theorem builds_ball {names : List String} {inputs : List (Affine Rat n)}
    (h : List.Forall₂ (Store.Names d s space) names inputs) {name : String} {eps : Affine Rat n}
    (heps : Store.Names d s space name eps) (origin : List Rat) (most : Rat) :
    Store.Builds d s space (d.ops (ballPieces d names origin name most))
      (ball inputs origin eps most) := by
  refine Store.runs_built (List.rel_append (List.rel_flatMap (forall₂_zip h origin) ?_) ?_)
  · rintro ⟨name', o⟩ ⟨x, _⟩ ⟨hx, heq⟩
    cases heq
    exact .cons ⟨_, rfl, rfl, (Store.drafts_joined (fun _ => rfl) hx heps).subNumber o⟩
      (.cons ⟨_, rfl, rfl, (Store.drafts_joined (fun _ => rfl) hx heps).subNumber o⟩ .nil)
  · exact .cons ⟨_, rfl, rfl, Store.drafts_copy heps⟩
      (.cons ⟨_, rfl, rfl, Store.drafts_subNumber heps most⟩ .nil)

end

/-- **The formulas mean what they say**, for inputs, outputs and a radius that are any terms over one
    space, and an origin as long as the inputs.

    * The lead of an output, which exists for every output, holds exactly where the output is at
      least every other one plus the margin; with a positive margin it is then the first largest.
    * The ball holds exactly where the radius is positive and not too large, and no input is farther
      than the radius from its origin.
    * The box holds exactly where every input is in its clipped neighbourhood, the set to which a
      session limits the pixel of that number.
    * Run in a store that holds the terms, the operations of each formula build its constraints on
      new terms and change nothing that was there. -/
theorem formulas_say (inputs outputs : List (Affine Rat n)) (eps : Affine Rat n)
    (origin : List Rat) (horigin : origin.length = inputs.length) :
    (∀ (k : Nat) (hk : k < outputs.length) (margin : Rat), ∃ cs,
      beats outputs (Int.ofNat k) margin = .ok cs ∧ ∀ v : Vector Rat n,
        ((∀ c ∈ cs, c.Holds v) ↔ ∀ i (hi : i < outputs.length), i ≠ k →
          outputs[i].eval v + margin ≤ outputs[k].eval v) ∧
        (0 < margin → (∀ c ∈ cs, c.Holds v) →
          Label.largest (outputs.map fun t => t.eval v) = .ok (outputs[k].eval v, k))) ∧
    (∀ (most : Rat) (v : Vector Rat n), (∀ c ∈ ball inputs origin eps most, c.Holds v) ↔
      (0 < eps.eval v ∧ eps.eval v ≤ most) ∧
      ∀ i (hi : i < inputs.length), |inputs[i].eval v - origin[i]| ≤ eps.eval v) ∧
    (∀ bound least most : Rat,
      (∀ v : Vector Rat n, (∀ c ∈ within inputs origin bound least most, c.Holds v) ↔
        ∀ i (hi : i < inputs.length), inputs[i].eval v ∈ clip bound least most origin[i]) ∧
      ∀ (E : Type) [Engine E Rat] (integrality : Bool) (s s' : Session E Rat n),
        Session.begin origin bound least most integrality s = .ok () s' →
        ∀ i (hi : i < inputs.length), i < n → ∃ x low high, s'.program.vars[i]? = some x ∧
          x.lo = some low ∧ x.hi = some high ∧ Set.Icc low high = clip bound least most origin[i]) ∧
    ∀ (d : Desk) (s : Store Rat) (space : Nat) (inputNames outputNames : List String)
      (epsName : String), List.Forall₂ (Store.Names d s space) inputNames inputs →
      List.Forall₂ (Store.Names d s space) outputNames outputs → Store.Names d s space epsName eps →
      (∀ (k : Nat) (margin : Rat) (cs : List (Constraint Rat n)), k < outputs.length →
        beats outputs (Int.ofNat k) margin = .ok cs →
        Store.Builds d s space (d.ops (leadPieces d outputNames k margin)) cs) ∧
      (∀ most : Rat, Store.Builds d s space (d.ops (ballPieces d inputNames origin epsName most))
        (ball inputs origin eps most)) ∧
      ∀ bound least most : Rat,
        Store.Builds d s space (d.ops (boxPieces d inputNames origin bound least most))
          (within inputs origin bound least most) := by
  refine ⟨fun k hk margin => ?_, fun most v => within_radius_iff horigin eps most v,
    fun bound least most => ⟨fun v => within_holds_iff horigin bound least most v, ?_⟩, ?_⟩
  · have hcs := beats_eq (List.getElem?_eq_getElem hk) margin
    exact ⟨_, hcs, fun v => ⟨lead_iff hk hcs v, fun hmargin hall =>
      largest_of_lead hk hmargin ((lead_iff hk hcs v).1 hall)⟩⟩
  · intro E _ integrality s s' hbegin i hi hn
    exact pixel_limits hbegin (horigin ▸ hi) hn
  · intro d s space inputNames outputNames epsName hinputs houtputs heps
    exact ⟨fun k margin cs hk hcs => builds_lead houtputs hk hcs,
      fun most => builds_ball hinputs heps origin most,
      fun bound least most => builds_box hinputs origin bound least most⟩

/-- Two inputs and a radius, all of them variables; the second input has another name, under which
    it is an output. -/
def pairOps : List (StoreOp Rat) :=
  [.space "V" 3, .fresh "x" "V", .fresh "y" "V", .fresh "eps" "V", .alias "z" "y"]

def pairDesk : Desk := ⟨"set", "t", "c", by decide, by decide, by decide⟩

/-- At the point `(1, 2, 1/2)` the second input leads; the ball of its last coordinate holds there,
    with equality, and so does the box.  Drafting the lead leaves the two names of the second input
    what they were. -/
theorem formulas_say_pair :
    (∃ cs, beats [(.var 0 : Affine Rat 3), .var 1] 1 (1 / 2) = .ok cs ∧
      (∀ c ∈ cs, c.Holds #v[1, 2, 1 / 2]) ∧ Label.largest [(1 : Rat), 2] = .ok (2, 1) ∧
      Store.Builds pairDesk (Store.run pairOps) 0
        (pairDesk.ops (leadPieces pairDesk ["x", "z"] 1 (1 / 2))) cs) ∧
    (∀ c ∈ ball [(.var 0 : Affine Rat 3), .var 1] [1 / 2, 2] (.var 2) 1,
      c.Holds #v[1, 2, 1 / 2]) ∧
    ∀ c ∈ within [(.var 0 : Affine Rat 3), .var 1] [1 / 2, 2] 1 0 2, c.Holds #v[1, 2, 1 / 2] := by
  obtain ⟨hlead, hball, hbox, hstore⟩ := formulas_say [(.var 0 : Affine Rat 3), .var 1]
    [.var 0, .var 1] (.var 2) [1 / 2, 2] rfl
  have hx : (.var 0 : Affine Rat 3).eval #v[1, 2, 1 / 2] = 1 := by decide +kernel
  have hy : (.var 1 : Affine Rat 3).eval #v[1, 2, 1 / 2] = 2 := by decide +kernel
  have heps : (.var 2 : Affine Rat 3).eval #v[1, 2, 1 / 2] = 1 / 2 := by decide +kernel
  have hnames : ∀ {name : String} {i : Nat}, pairDesk.Spares name →
      (Store.run pairOps).term name = .ok (i, ⟨0, 3, .var i⟩) →
      Store.Names pairDesk (Store.run pairOps) 0 name (.var i : Affine Rat 3) :=
    fun hspares hterm => ⟨hspares, _, hterm⟩
  have hspares : ∀ name ∈ ["x", "y", "z", "eps"], pairDesk.Spares name := by
    unfold Desk.Spares
    decide
  obtain ⟨hbuild, -⟩ := hstore pairDesk (Store.run pairOps) 0 ["x", "y"] ["x", "z"] "eps"
    (.cons (hnames (hspares _ (by decide)) rfl) (.cons (hnames (hspares _ (by decide)) rfl) .nil))
    (.cons (hnames (hspares _ (by decide)) rfl) (.cons (hnames (hspares _ (by decide)) rfl) .nil))
    (hnames (hspares _ (by decide)) rfl)
  obtain ⟨cs, hcs, hholds⟩ := hlead 1 (by decide) (1 / 2)
  obtain ⟨hiff, hlabel⟩ := hholds #v[1, 2, 1 / 2]
  have hall : ∀ c ∈ cs, c.Holds #v[1, 2, 1 / 2] := by
    refine hiff.2 fun i hi hne => ?_
    obtain rfl : i = 0 := by
      rw [List.length_cons, List.length_singleton] at hi
      omega
    simp only [List.getElem_cons_zero, List.getElem_cons_succ, hx, hy]
    norm_num
  refine ⟨⟨cs, hcs, hall, ?_, hbuild 1 (1 / 2) cs (by decide) hcs⟩, (hball 1 _).2 ?_,
    ((hbox 1 0 2).1 _).2 ?_⟩
  · have hlargest := hlabel (by norm_num) hall
    simp only [List.map_cons, List.map_nil, List.getElem_cons_zero, List.getElem_cons_succ, hx,
      hy] at hlargest
    exact hlargest
  · rw [heps]
    refine ⟨by norm_num, fun i hi => ?_⟩
    rcases i with _ | _ | i
    · simp only [List.getElem_cons_zero, hx]
      norm_num
    · simp only [List.getElem_cons_zero, List.getElem_cons_succ, hy]
      norm_num
    · exact absurd hi (by simp)
  · intro i hi
    rcases i with _ | _ | i
    · simp only [List.getElem_cons_zero, hx]
      exact Or.inl (by norm_num)
    · simp only [List.getElem_cons_zero, List.getElem_cons_succ, hy]
      exact Or.inl (by norm_num)
    · exact absurd hi (by simp)

end Perturb.Formula
