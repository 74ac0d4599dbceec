/-
  Which records a replay accepts.

  A replay follows a record of branches.  The record may come from a pass, but it may as well have
  been put together by hand, or belong to another network.

  1. **Records** — `Layer.Resolved` says what a layer needs: a decided side for every unit of a
     rectifier, a cell of its own for every window.  `Layer.Flaw` lists what is wrong with a record
     that does not say it, each flaw with the fault that reports it.

  2. **Means** — the only other way for a replay to stop is a mean that divides by zero
     (`Layer.Divides`).  It takes a padding below zero to build one.

  3. **One layer** (`Layer.settles`) — either the record resolves the layer and the plan gives as
     many terms as the layer has outputs, or the plan stops at a flaw.

  4. **The network** (`Net.replay_accepts_iff`) — the sizes of its layers fit, so the induction goes
     from layer to layer until the first one that stops.
-/
import Perturb.Proofs.Net.Sampling

namespace Perturb

/-- A loop over a numbered list that follows a table of the same length, and in which a round
    succeeds exactly if its element suits its entry.  It collects one result for every element, or
    it stops at the first element that does not suit, with the fault of that place. -/
theorem Outcome.mapM_zipIdx_cases {α β γ : Type} (f : α × Nat → Outcome β) (Suits : γ → α → Prop)
    (fault : γ → Nat → Fault) {cs : List γ} {xs : List α} (hlen : cs.length = xs.length)
    (h : ∀ {i : Nat} {c : γ} (x : α), cs[i]? = some c →
      (Suits c x ∧ ∃ y, f (x, i) = .ok y) ∨ (¬ Suits c x ∧ f (x, i) = .error (fault c i))) :
    ((∀ p ∈ List.zip cs xs, Suits p.1 p.2) ∧
        ∃ ys, xs.zipIdx.mapM f = .ok ys ∧ ys.length = xs.length) ∨
      ∃ (i : Nat) (c : γ) (x : α), xs.zipIdx.mapM f = .error (fault c i) ∧
        (List.zip cs xs)[i]? = some (c, x) ∧ ¬ Suits c x ∧
        ∀ p ∈ (List.zip cs xs).take i, Suits p.1 p.2 := by
  induction cs generalizing xs f fault with
  | nil =>
    rw [List.eq_nil_of_length_eq_zero hlen.symm]
    exact .inl ⟨List.forall_mem_nil _, [], rfl, rfl⟩
  | cons c cs ih =>
    cases xs with
    | nil => cases hlen
    | cons x xs =>
      -- after the first element, the loop is one over the rest, with all numbers one higher
      have hrest : (xs.zipIdx 1).mapM f = xs.zipIdx.mapM fun p => f (p.1, p.2 + 1) := by
        rw [List.zipIdx_succ, List.mapM_map]
        rfl
      rw [List.zipIdx_cons, List.mapM_cons, hrest, List.zip_cons_cons]
      rcases h x (i := 0) rfl with ⟨hx, y, hy⟩ | ⟨hx, hy⟩
      swap
      · exact .inr ⟨0, c, x, by rw [hy]; rfl, rfl, hx, List.forall_mem_nil _⟩
      rw [hy, Outcome.ok_bind]
      rcases ih (fun p => f (p.1, p.2 + 1)) (fun c i => fault c (i + 1)) (Nat.succ.inj hlen)
          (fun {i c'} x' hc' => h x' (i := i + 1) hc') with
        ⟨hall, ys, hys, hcount⟩ | ⟨i, c', x', herror, hi, hx', hbefore⟩
      · exact .inl ⟨List.forall_mem_cons.2 ⟨hx, hall⟩, y :: ys, by rw [hys]; rfl,
          congrArg (· + 1) hcount⟩
      · exact .inr ⟨i + 1, c', x', by rw [herror]; rfl, hi, hx',
          List.forall_mem_cons.2 ⟨hx, hbefore⟩⟩

/-! ## Records -/

/-- A side of zero that a unit can be on. -/
def Choice.Decided (c : Choice) : Prop := c = .active ∨ c = .inactive

/-- A recorded selection is a cell of its window; negative numbers are no cells. -/
def Selects (selection : Int) (w : List Nat) : Prop := ∃ cell ∈ w, selection = Int.ofNat cell

theorem selects_iff {selection : Int} {w : List Nat} :
    Selects selection w ↔ ¬ (selection < 0 || !w.contains selection.toNat) = true := by
  rw [Bool.or_eq_true, decide_eq_true_eq, Bool.not_eq_true', not_or, Bool.not_eq_false,
    List.contains_iff_mem]
  constructor
  · rintro ⟨cell, hcell, rfl⟩
    exact ⟨Int.not_lt.2 (Int.natCast_nonneg cell), hcell⟩
  · rintro ⟨hpos, hmem⟩
    exact ⟨selection.toNat, hmem, (Int.toNat_of_nonneg (Int.not_lt.1 hpos)).symm⟩

namespace Layer

/-- A trace says of every branch of a layer which way it goes. -/
def Resolved {K : Type} (trace : Trace) : Layer K → Prop
  | .affine _ => True
  | .relu u => ∃ b choices, trace.find? u.index = some b ∧ b.choices = some choices ∧
      ∀ c ∈ choices, c.Decided
  | .maxPool m => ∃ b selections, trace.find? m.pooling.index = some b ∧
      b.selections = some selections ∧
      ∀ p ∈ List.zip selections m.pooling.windows, Selects p.1 p.2

/-- What a trace records under the index of a layer has the length of the layer. -/
def Aligned {K : Type} (trace : Trace) : Layer K → Prop
  | .affine _ => True
  | .relu u => ∀ b choices, trace.find? u.index = some b → b.choices = some choices →
      choices.length = u.size
  | .maxPool m => ∀ b selections, trace.find? m.pooling.index = some b →
      b.selections = some selections → selections.length = m.pooling.output.size

/-- What a replay finds wrong with the record of a layer, and the fault that says so. -/
inductive Flaw {K : Type} (trace : Trace) : Layer K → Fault → Prop
  /-- Nothing is recorded of a rectifier. -/
  | noUnits {u : Relu} (h : trace.find? u.index = none) :
      Flaw trace (.relu u) (.nothingRecorded u.index)
  /-- What is recorded is not that of a rectifier. -/
  | noChoices {u : Relu} {b : Branches} (h : trace.find? u.index = some b)
      (hb : b.choices = none) : Flaw trace (.relu u) (.noChoices u.index)
  /-- Unit `i` is the first whose side is not decided. -/
  | undecided {u : Relu} {b : Branches} {choices : List Choice} {i : Nat} {c : Choice}
      (h : trace.find? u.index = some b) (hb : b.choices = some choices)
      (hbefore : ∀ c ∈ choices.take i, c.Decided) (hi : choices[i]? = some c)
      (hc : ¬ c.Decided) : Flaw trace (.relu u) (.unresolvedChoice i u.index)
  /-- Nothing is recorded of a maximum. -/
  | noWindows {m : MaxPool} (h : trace.find? m.pooling.index = none) :
      Flaw trace (.maxPool m) (.nothingRecorded m.pooling.index)
  /-- What is recorded is not that of a maximum. -/
  | noSelections {m : MaxPool} {b : Branches} (h : trace.find? m.pooling.index = some b)
      (hb : b.selections = none) : Flaw trace (.maxPool m) (.noSelections m.pooling.index)
  /-- Window `o` is the first whose selection is none of its cells. -/
  | outside {m : MaxPool} {b : Branches} {selections : List Int} {o : Nat} {selection : Int}
      {w : List Nat} (h : trace.find? m.pooling.index = some b)
      (hb : b.selections = some selections)
      (hbefore : ∀ p ∈ (List.zip selections m.pooling.windows).take o, Selects p.1 p.2)
      (ho : (List.zip selections m.pooling.windows)[o]? = some (selection, w))
      (hout : ¬ Selects selection w) :
      Flaw trace (.maxPool m) (.selectionOutside selection o m.pooling.index)

section

variable {K : Type} {trace : Trace} {l : Layer K} {e : Fault}

/-- Every flaw is reported as a value that is not allowed. -/
theorem Flaw.kind_eq (h : l.Flaw trace e) : e.kind = .value := by
  cases h <;> rfl

/-- A record with a flaw does not resolve the layer. -/
theorem Flaw.not_resolved (h : l.Flaw trace e) : ¬ l.Resolved trace := by
  cases h with
  | noUnits h =>
    rintro ⟨b, choices, hb, -⟩
    cases h.symm.trans hb
  | noChoices h hb =>
    rintro ⟨b', choices, hb', hchoices, -⟩
    cases h.symm.trans hb'
    cases hb.symm.trans hchoices
  | undecided h hb _ hi hc =>
    rintro ⟨b', choices', hb', hchoices, hall⟩
    cases h.symm.trans hb'
    cases hb.symm.trans hchoices
    exact hc (hall _ (List.mem_of_getElem? hi))
  | noWindows h =>
    rintro ⟨b, selections, hb, -⟩
    cases h.symm.trans hb
  | noSelections h hb =>
    rintro ⟨b', selections, hb', hselections, -⟩
    cases h.symm.trans hb'
    cases hb.symm.trans hselections
  | outside h hb _ ho hout =>
    rintro ⟨b', selections', hb', hselections, hall⟩
    cases h.symm.trans hb'
    cases hb.symm.trans hselections
    exact hout (hall _ (List.mem_of_getElem? ho))

end

end Layer

/-! ## Means -/

/-- The mean that a stage takes, if it takes one. -/
def Stage.mean? {K : Type} : Stage K → Option (AvgPool K)
  | .avgPool p => some p
  | _ => none

namespace Layer

/-- The means inside a layer. -/
def means {K : Type} : Layer K → List (AvgPool K)
  | .affine a => a.stages.filterMap Stage.mean?
  | _ => []

/-- No mean inside a layer divides by zero. -/
def Divides (l : Layer Rat) : Prop := ∀ p ∈ l.means, ∀ d ∈ p.divisors, d ≠ 0

end Layer

theorem AffineLayer.mem_means_iff {K : Type} {a : AffineLayer K} {p : AvgPool K} :
    p ∈ (Layer.affine a).means ↔ .avgPool p ∈ a.stages := by
  unfold Layer.means
  rw [List.mem_filterMap]
  constructor
  · rintro ⟨s, hs, hp⟩
    cases s with
    | avgPool q =>
      cases hp
      exact hs
    | _ => cases hp
  · intro h
    exact ⟨_, h, rfl⟩

/-- An affine layer divides exactly if each of its stages passes the check of its divisors. -/
theorem AffineLayer.divides_iff {a : AffineLayer Rat} :
    (Layer.affine a).Divides ↔ ∀ s ∈ a.stages, s.checkDivisors = .ok () := by
  unfold Layer.Divides
  simp only [mem_means_iff, Stage.checkDivisors_ok_iff]
  constructor
  · rintro h s hs p rfl
    exact h p hs
  · intro h p hp
    exact h _ hp p rfl

/-- A mean inside a layer that was built was built itself. -/
theorem Layer.Built.of_mem_means {l : Layer Rat} (hl : l.Built) {p : AvgPool Rat}
    (hp : p ∈ l.means) : (Stage.avgPool p).Built := by
  cases l with
  | affine a => exact hl.sound.built _ (AffineLayer.mem_means_iff.1 hp)
  | _ => cases hp

/-- A mean inside a layer that was built divides by at least one if its padding is not negative. -/
theorem Layer.Built.one_le_divisors {l : Layer Rat} (hl : l.Built) {p : AvgPool Rat}
    (hp : p ∈ l.means) (hpadding : 0 ≤ p.pooling.shape.padding) : ∀ d ∈ p.divisors, 1 ≤ d := by
  cases hl.of_mem_means hp with
  | avgPool _ hmake =>
    rw [(AvgPool.make_ok hmake).1] at hpadding
    exact AvgPool.one_le_divisors hpadding hmake

/-- A layer that was built divides if the padding of its means is not negative. -/
theorem Layer.Built.divides {l : Layer Rat} (hl : l.Built)
    (h : ∀ p ∈ l.means, 0 ≤ p.pooling.shape.padding) : l.Divides := fun p hp d hd =>
  (lt_of_lt_of_le one_pos (hl.one_le_divisors hp (h p hp) d hd)).ne'

/-- On terms of its length a stage gives what its recipes run to, or it divides by zero. -/
theorem Stage.terms_cases {K : Type} [Scalar K] {n : Nat} {s : Stage K} {ts : List (Affine K n)}
    (hts : ts.length = s.inDim) :
    (s.checkDivisors = .ok () ∧ s.terms ts = .ok (s.recipes.map (Recipe.run ts))) ∨
      (s.checkDivisors ≠ .ok () ∧ s.terms ts = .error .zeroDivisor) := by
  have hcases : s.checkDivisors = .ok () ∨ s.checkDivisors = .error .zeroDivisor := by
    cases s with
    | avgPool p =>
      unfold checkDivisors
      dsimp only
      split
      · exact Or.inr rfl
      · exact Or.inl rfl
    | _ => exact Or.inl rfl
  rcases hcases with hs | hs
  · exact .inl ⟨hs, terms_ok_iff.2 ⟨hts, hs, rfl⟩⟩
  · have hne : s.checkDivisors ≠ .ok () := fun h => by cases hs.symm.trans h
    refine .inr ⟨hne, ?_⟩
    unfold terms check
    rw [if_pos hts, hs]
    rfl

/-- A chain in which a stage divides by zero stops there. -/
theorem Stage.foldlM_terms_error {K : Type} [Scalar K] {n : Nat} {s : Stage K} {ss : List (Stage K)}
    (hlink : (s :: ss).IsChain fun a b => a.outDim = b.inDim)
    (hdiv : ¬ ∀ a ∈ s :: ss, a.checkDivisors = .ok ()) {ts : List (Affine K n)}
    (hts : ts.length = s.inDim) :
    (s :: ss).foldlM (fun x s => s.terms x) ts = .error .zeroDivisor := by
  induction ss generalizing s ts with
  | nil =>
    rw [List.forall_mem_singleton] at hdiv
    rcases terms_cases hts with ⟨hs, -⟩ | ⟨-, hterms⟩
    · exact absurd hs hdiv
    · rw [List.foldlM_cons, hterms]
      rfl
  | cons s' ss ih =>
    obtain ⟨hfit, hlink⟩ := List.isChain_cons_cons.1 hlink
    rw [List.foldlM_cons]
    rcases terms_cases hts with ⟨hs, hterms⟩ | ⟨-, hterms⟩
    · have hlen : (s.recipes.map (Recipe.run ts)).length = s'.inDim := by
        rw [List.length_map, length_recipes, hfit]
      rw [hterms, Outcome.ok_bind]
      exact ih hlink (fun h => hdiv (List.forall_mem_cons.2 ⟨hs, h⟩)) hlen
    · rw [hterms]
      rfl

/-! ## One layer -/

section

variable {n : Nat} {trace : Trace}

/-- A unit has a plan exactly if its side is decided; otherwise it is named. -/
theorem Relu.planUnit_cases {index : Int} {choices : List Choice} {i : Nat} {c : Choice}
    (hc : choices[i]? = some c) (t : Affine Rat n) :
    (c.Decided ∧ ∃ p, planUnit index choices t i = .ok p) ∨
      (¬ c.Decided ∧ planUnit index choices t i = .error (.unresolvedChoice i index)) := by
  unfold planUnit
  rw [hc]
  cases c with
  | active => exact .inl ⟨Or.inl rfl, _, rfl⟩
  | inactive => exact .inl ⟨Or.inr rfl, _, rfl⟩
  | undecided code =>
    refine .inr ⟨?_, rfl⟩
    rintro (h | h) <;> cases h

/-- A window has a plan exactly if its selection is one of its cells; otherwise it is named. -/
theorem MaxPool.planWindow_cases {index : Int} {selections : List Int} {o : Nat} {selection : Int}
    (ho : selections[o]? = some selection) (x : List (Affine Rat n)) (w : List Nat) :
    (Selects selection w ∧ ∃ p, planWindow index selections x w o = .ok p) ∨
      (¬ Selects selection w ∧
        planWindow index selections x w o = .error (.selectionOutside selection o index)) := by
  unfold planWindow
  rw [ho, selects_iff, not_not]
  dsimp only
  by_cases h : (selection < 0 || !w.contains selection.toNat) = true
  · exact .inr ⟨h, if_pos h⟩
  · exact .inl ⟨h, _, if_neg h⟩

theorem Trace.get_eq_of_find?_none {i : Int} (h : trace.find? i = none) :
    trace.get i = .error (.nothingRecorded i) := by
  unfold get
  rw [h]

/-- Along a trace a layer gives as many terms as it has outputs, and the trace resolves it; or it
    stops, at a flaw of the trace or at a mean that divides by zero. -/
def Layer.Settles (trace : Trace) (l : Layer Rat)
    (result : Outcome (List (Affine Rat n) × List (Demand Rat n))) : Prop :=
  ((l.Resolved trace ∧ l.Divides) ∧ ∃ outs ds, result = .ok (outs, ds) ∧ outs.length = l.outDim) ∨
    ∃ e, result = .error e ∧ (l.Flaw trace e ∨ ¬ l.Divides ∧ e = .zeroDivisor)

theorem Layer.settles_affine {a : AffineLayer Rat} (hl : a.Sound) {ts : List (Affine Rat n)}
    (hts : ts.length = a.head.inDim) :
    (Layer.affine a).Settles trace ((Layer.affine a).plan trace ts) := by
  obtain ⟨rest, hstages⟩ := a.stages_eq_cons
  have hchain := hl.chain
  have hlast := a.getLast?_stages
  rw [hstages] at hchain hlast
  unfold Settles
  rw [AffineLayer.divides_iff, hstages]
  simp only [plan, hstages]
  by_cases hdiv : ∀ s ∈ a.head :: rest, s.checkDivisors = .ok ()
  · obtain ⟨us, hus, hlen⟩ := Stage.foldlM_terms_ok hchain hdiv hts
    refine .inl ⟨⟨trivial, hdiv⟩, us, [], by rw [hus]; rfl, ?_⟩
    rw [hlen, hlast]
    rfl
  · have herror := Stage.foldlM_terms_error hchain hdiv hts
    exact .inr ⟨.zeroDivisor, by rw [herror]; rfl, .inr ⟨hdiv, rfl⟩⟩

theorem Layer.settles_relu {u : Relu} (ha : (Layer.relu u : Layer Rat).Aligned trace)
    {ts : List (Affine Rat n)} (hts : ts.length = u.size) :
    (Layer.relu u).Settles trace ((Layer.relu u).plan trace ts) := by
  have hcheck : (Layer.relu u : Layer Rat).check ts = .ok () := check_ok_iff.2 hts
  simp only [plan, hcheck, Outcome.ok_bind]
  cases hfind : trace.find? u.index with
  | none =>
    rw [Trace.get_eq_of_find?_none hfind]
    exact .inr ⟨_, rfl, .inl (.noUnits hfind)⟩
  | some b =>
    rw [get_of_find? hfind, Outcome.ok_bind]
    cases hb : b.choices with
    | none => exact .inr ⟨_, rfl, .inl (.noChoices hfind hb)⟩
    | some choices =>
      dsimp only
      have hcount : choices.length = ts.length := (ha b choices hfind hb).trans hts.symm
      have hsides : (List.zip choices ts).map Prod.fst = choices :=
        List.map_fst_zip hcount.le
      rcases Outcome.mapM_zipIdx_cases (fun p => Relu.planUnit u.index choices p.1 p.2)
          (fun c _ => c.Decided) (fun _ i => .unresolvedChoice i u.index) hcount
          (fun t hc => Relu.planUnit_cases hc t) with
        ⟨hall, parts, hparts, hlen⟩ | ⟨i, c, t, herror, hi, hc, hbefore⟩
      · rw [← List.forall_mem_map (f := Prod.fst) (P := Choice.Decided), hsides] at hall
        refine .inl ⟨⟨⟨b, choices, hfind, hb, hall⟩, fun p hp => by cases hp⟩,
          parts.map (·.1), parts.map (·.2), by rw [hparts]; rfl, ?_⟩
        rw [List.length_map, hlen, hts]
        rfl
      · rw [← List.forall_mem_map (f := Prod.fst) (P := Choice.Decided), List.map_take,
          hsides] at hbefore
        have hi : choices[i]? = some c := by
          rw [← hsides, List.getElem?_map, hi]
          rfl
        exact .inr ⟨_, by rw [herror]; rfl, .inl (.undecided hfind hb hbefore hi hc)⟩

theorem Layer.settles_maxPool {m : MaxPool} (ha : (Layer.maxPool m : Layer Rat).Aligned trace)
    {ts : List (Affine Rat n)} (hts : ts.length = m.pooling.shape.input.size) :
    (Layer.maxPool m).Settles trace ((Layer.maxPool m).plan trace ts) := by
  have hcheck : (Layer.maxPool m : Layer Rat).check ts = .ok () := check_ok_iff.2 hts
  simp only [plan, hcheck, Outcome.ok_bind]
  cases hfind : trace.find? m.pooling.index with
  | none =>
    rw [Trace.get_eq_of_find?_none hfind]
    exact .inr ⟨_, rfl, .inl (.noWindows hfind)⟩
  | some b =>
    rw [get_of_find? hfind, Outcome.ok_bind]
    cases hb : b.selections with
    | none => exact .inr ⟨_, rfl, .inl (.noSelections hfind hb)⟩
    | some selections =>
      dsimp only
      have hcount : selections.length = m.pooling.windows.length :=
        (ha b selections hfind hb).trans m.pooling.length_windows.symm
      rcases Outcome.mapM_zipIdx_cases
          (fun p => MaxPool.planWindow m.pooling.index selections ts p.1 p.2) Selects
          (fun s o => .selectionOutside s o m.pooling.index) hcount
          (fun w ho => MaxPool.planWindow_cases ho ts w) with
        ⟨hall, parts, hparts, hlen⟩ | ⟨o, selection, w, herror, ho, hout, hbefore⟩
      · refine .inl ⟨⟨⟨b, selections, hfind, hb, hall⟩, fun p hp => by cases hp⟩,
          parts.map (·.1), parts.flatMap (·.2), by rw [hparts]; rfl, ?_⟩
        rw [List.length_map, hlen, Pooling.length_windows]
        rfl
      · exact .inr ⟨_, by rw [herror]; rfl, .inl (.outside hfind hb hbefore ho hout)⟩

/-- **One layer.**  On terms of its length, either the trace resolves a layer and the layer gives as
    many terms as it has outputs, or the layer stops. -/
theorem Layer.settles {l : Layer Rat} (hl : l.Sound) (ha : l.Aligned trace)
    {ts : List (Affine Rat n)} (hts : ts.length = l.inDim) :
    l.Settles trace (l.plan trace ts) := by
  cases l with
  | affine a => exact settles_affine hl hts
  | relu u => exact settles_relu ha hts
  | maxPool m => exact settles_maxPool ha hts

/-! ## Networks -/

/-- Layers that fit together give as many terms as the last of them has outputs, and the trace
    resolves them all; or the first one that stops does. -/
theorem Net.planAll_cases {l : Layer Rat} {ls : List (Layer Rat)} (hs : ∀ a ∈ l :: ls, a.Sound)
    (ha : ∀ a ∈ l :: ls, a.Aligned trace)
    (hfit : (l :: ls).IsChain fun a b => a.outDim = b.inDim) {ts : List (Affine Rat n)}
    (hts : ts.length = l.inDim) :
    ((∀ a ∈ l :: ls, a.Resolved trace ∧ a.Divides) ∧ ∃ outs ds,
        planAll trace ts (l :: ls) = .ok (outs, ds) ∧
        outs.length = ((ls.getLast?).getD l).outDim) ∨
      ∃ e front a back, planAll trace ts (l :: ls) = .error e ∧ l :: ls = front ++ a :: back ∧
        (∀ b ∈ front, b.Resolved trace ∧ b.Divides) ∧
        (a.Flaw trace e ∨ ¬ a.Divides ∧ e = .zeroDivisor) := by
  induction ls generalizing l ts with
  | nil =>
    rw [planAll, List.forall_mem_singleton]
    rcases Layer.settles (hs l (List.mem_cons_self ..)) (ha l (List.mem_cons_self ..)) hts with
      ⟨hok, us, ds, hplan, hlen⟩ | ⟨e, hplan, hwhy⟩
    · exact .inl ⟨hok, us, ds ++ [], by rw [hplan]; rfl, hlen⟩
    · exact .inr ⟨e, [], l, [], by rw [hplan]; rfl, rfl, List.forall_mem_nil _, hwhy⟩
  | cons b ls ih =>
    obtain ⟨hl, hs⟩ := List.forall_mem_cons.1 hs
    obtain ⟨hal, ha⟩ := List.forall_mem_cons.1 ha
    obtain ⟨hlb, hfit⟩ := List.isChain_cons_cons.1 hfit
    rw [planAll]
    rcases Layer.settles hl hal hts with ⟨hok, us, ds, hplan, hlen⟩ | ⟨e, hplan, hwhy⟩
    swap
    · exact .inr ⟨e, [], l, b :: ls, by rw [hplan]; rfl, rfl, List.forall_mem_nil _, hwhy⟩
    rw [hplan, Outcome.ok_bind]
    dsimp only
    rcases ih hs ha hfit (hlen.trans hlb) with
      ⟨hall, outs, es, hplans, hlast⟩ | ⟨e, front, a, back, hplans, hsplit, hfront, hwhy⟩
    · refine .inl ⟨List.forall_mem_cons.2 ⟨hok, hall⟩, outs, ds ++ es, by rw [hplans]; rfl, ?_⟩
      rw [hlast, List.getLast?_cons]
      rfl
    · exact .inr ⟨e, l :: front, a, back, by rw [hplans]; rfl, congrArg (l :: ·) hsplit,
        List.forall_mem_cons.2 ⟨hok, hfront⟩, hwhy⟩

/-- **A replay accepts exactly the records that resolve its network.**  Take a network of layers
    that were built, terms as many as it has inputs, and a record whose entries have the lengths of
    the layers they stand under.

    If no mean divides by zero, a replay gives as many terms as the network has outputs exactly if
    the record resolves every layer; otherwise it stops at the first layer that it does not resolve,
    reports what is wrong there, and that is a value that is not allowed.  A network with a mean
    that divides by zero is never replayed: it stops there, if not at a flaw before.  Means divide
    if their padding is not negative. -/
theorem Net.replay_accepts_iff {S : Type} [Source S Rat] {net : Net Rat}
    (hb : ∀ l ∈ net.layers, l.Built) (ha : ∀ l ∈ net.layers, l.Aligned trace)
    {ts : List (Affine Rat n)} (hts : ts.length = net.inDim) (ratio : Rat) (r : Replay S Rat n) :
    ((∀ l ∈ net.layers, l.Divides) →
      ((∃ outs r', net.replay trace ratio ts r = .ok (outs, r') ∧ outs.length = net.outDim) ↔
        ∀ l ∈ net.layers, l.Resolved trace) ∧
      ((¬ ∀ l ∈ net.layers, l.Resolved trace) → ∃ e front l back,
        net.replay trace ratio ts r = .error e ∧ e.kind = .value ∧
        net.layers = front ++ l :: back ∧ (∀ a ∈ front, a.Resolved trace) ∧ l.Flaw trace e)) ∧
    ((¬ ∀ l ∈ net.layers, l.Divides) → ∃ e, net.replay trace ratio ts r = .error e ∧
      (e = .zeroDivisor ∨ e.kind = .value)) ∧
    ((∀ l ∈ net.layers, ∀ p ∈ l.means, 0 ≤ p.pooling.shape.padding) →
      ∀ l ∈ net.layers, l.Divides) := by
  have hs : ∀ l ∈ net.first :: net.rest, l.Sound := fun l hl => (hb l hl).sound
  have hcases := planAll_cases hs ha (isChain_of_misfit? net.fits) hts
  have hreplay : net.replay trace ratio ts r =
      (planAll trace ts (net.first :: net.rest)).map fun p => (p.1, r.noteAll ratio p.2) :=
    net.replay_eq trace ratio ts r
  refine ⟨fun hdivides => ?_, fun hdivides => ?_, fun h l hl => (hb l hl).divides (h l hl)⟩
  · rcases hcases with ⟨hall, outs, ds, hplan, hlen⟩ |
      ⟨e, front, l, back, hplan, hsplit, hfront, hwhy⟩
    · have hresolved : ∀ l ∈ net.layers, l.Resolved trace := fun l hl => (hall l hl).1
      refine ⟨⟨fun _ => hresolved, fun _ => ⟨outs, r.noteAll ratio ds, ?_, hlen⟩⟩,
        fun h => absurd hresolved h⟩
      rw [hreplay, hplan]
      rfl
    · have hl : l ∈ net.layers := by
        show l ∈ net.first :: net.rest
        rw [hsplit]
        exact List.mem_append_right _ (List.mem_cons_self ..)
      have hflaw : l.Flaw trace e := hwhy.resolve_right fun h => h.1 (hdivides l hl)
      have herror : net.replay trace ratio ts r = .error e := by
        rw [hreplay, hplan]
        rfl
      refine ⟨⟨?_, fun h => absurd (h l hl) hflaw.not_resolved⟩, fun _ =>
        ⟨e, front, l, back, herror, hflaw.kind_eq, hsplit, fun a ha => (hfront a ha).1, hflaw⟩⟩
      rintro ⟨outs, r', hok, -⟩
      cases herror.symm.trans hok
  · rcases hcases with ⟨hall, -⟩ | ⟨e, front, l, back, hplan, -, -, hwhy⟩
    · exact absurd (fun l hl => (hall l hl).2) hdivides
    · refine ⟨e, by rw [hreplay, hplan]; rfl, ?_⟩
      rcases hwhy with hflaw | ⟨-, hzero⟩
      · exact .inr hflaw.kind_eq
      · exact .inl hzero

end

/-! ### Records to look at -/

namespace Quad

/-- What is so of the units and of the window is so of every layer. -/
theorem forall_layers {P : Layer Rat → Prop} (hunits : P (.relu units))
    (hpool : P (.maxPool pool)) : ∀ l ∈ net.layers, P l :=
  List.forall_mem_cons.2 ⟨hunits, List.forall_mem_singleton.2 hpool⟩

theorem built : ∀ l ∈ net.layers, l.Built := by
  have hunits : Relu.make 0 4 none = .ok units := rfl
  have hside : windowCount Rat 2 (2 : Nat) 1 0 false = .ok 1 := by decide +kernel
  have hpool : Pooling.make Rat 1 pool.pooling.shape = .ok pool.pooling := by
    unfold Pooling.make
    show (windowCount Rat 2 (2 : Nat) 1 0 false >>= fun _ =>
      windowCount Rat 2 (2 : Nat) 1 0 false >>= _) = _
    rw [hside]
    rfl
  exact forall_layers (.relu hunits) (.maxPool hpool)

theorem divides : ∀ l ∈ net.layers, l.Divides :=
  forall_layers (List.forall_mem_nil _) (List.forall_mem_nil _)

theorem aligned : ∀ l ∈ net.layers, l.Aligned trace := by
  refine forall_layers ?_ ?_
  · intro b choices hb hchoices
    cases hb
    cases hchoices
    rfl
  · intro b selections hb hselections
    cases hb
    cases hselections
    rfl

theorem resolved : ∀ l ∈ net.layers, l.Resolved trace :=
  forall_layers ⟨_, _, rfl, rfl, by unfold Choice.Decided; decide⟩
    ⟨_, _, rfl, rfl, by unfold Selects; decide⟩

/-- A record that was set up for both layers and never filled in. -/
def blank : Trace := ⟨[(0, .forRelu 4), (1, .forMaxPool 1)]⟩

theorem aligned_blank : ∀ l ∈ net.layers, l.Aligned blank := by
  refine forall_layers ?_ ?_
  · intro b choices hb hchoices
    cases hb
    cases hchoices
    rfl
  · intro b selections hb hselections
    cases hb
    cases hselections
    rfl

theorem not_resolved_blank : ¬ ∀ l ∈ net.layers, l.Resolved blank := by
  intro h
  obtain ⟨b, choices, hb, hchoices, hall⟩ := h (.relu units) (List.mem_cons_self ..)
  cases hb
  cases hchoices
  rcases hall _ (List.mem_cons_self ..) with h | h <;> cases h

end Quad

/-- The record of a pass is accepted; one that was never filled in is not. -/
theorem Net.replay_accepts_iff_quad :
    (∃ outs r', Quad.net.replay Quad.trace 1 Quad.inputs (Replay.start Quad.draws) =
      .ok (outs, r') ∧ outs.length = 1) ∧
    ∃ e, Quad.net.replay Quad.blank 1 Quad.inputs (Replay.start Quad.draws) = .error e ∧
      e.kind = .value := by
  have hinputs : Quad.inputs.length = Quad.net.inDim := rfl
  have haccepts := (Net.replay_accepts_iff Quad.built Quad.aligned hinputs 1
    (Replay.start Quad.draws)).1 Quad.divides
  have hrefuses := (Net.replay_accepts_iff Quad.built Quad.aligned_blank hinputs 1
    (Replay.start Quad.draws)).1 Quad.divides
  refine ⟨haccepts.1.2 Quad.resolved, ?_⟩
  obtain ⟨e, -, -, -, herror, hkind, -⟩ := hrefuses.2 Quad.not_resolved_blank
  exact ⟨e, herror, hkind⟩

namespace Beyond

/-- Windows of one cell on two rows of two cells, drawn in by one cell on every side. -/
def shape : PoolShape := ⟨⟨1, 2, 2, Nat.one_pos, Nat.two_pos, Nat.two_pos⟩, 1, 2, -1, true⟩

/-- There is one window. -/
def output : Grid := ⟨1, 1, 1, Nat.one_pos, Nat.one_pos, Nat.one_pos⟩

/-- It holds the last cell. -/
theorem filled : ∀ w ∈ shape.windows output, w ≠ [] := by
  decide

def pooling : Pooling := ⟨0, shape, output, rfl, filled⟩

/-- The mean over the image drawn in, on which the window has no cell. -/
def mean : AvgPool Rat := ⟨pooling, [0], rfl⟩

/-- One unit. -/
def unit : Relu := .flat 1 1

/-- The rectified mean. -/
def net : Net Rat where
  first := .affine (.stage (.avgPool mean))
  rest := [.relu unit]
  crop := none
  fits := rfl
  crop_fits := by decide

/-- What is so of the mean and of the unit is so of every layer. -/
theorem forall_layers {P : Layer Rat → Prop} (hmean : P (.affine (.stage (.avgPool mean))))
    (hunit : P (.relu unit)) : ∀ l ∈ net.layers, P l :=
  List.forall_mem_cons.2 ⟨hmean, List.forall_mem_singleton.2 hunit⟩

theorem built : ∀ l ∈ net.layers, l.Built := by
  have hside : windowCount Rat 1 (2 : Nat) 2 (-1) true = .ok 1 := by decide +kernel
  have hpooling : Pooling.make Rat 0 shape = .ok pooling := by
    unfold Pooling.make
    show (windowCount Rat 1 (2 : Nat) 2 (-1) true >>= fun _ =>
      windowCount Rat 1 (2 : Nat) 2 (-1) true >>= _) = _
    rw [hside]
    rfl
  have hmean : AvgPool.make pooling false true none = .ok mean := rfl
  have hunit : Relu.make 1 1 none = .ok unit := rfl
  exact forall_layers (.stage (.avgPool hpooling hmean)) (.relu hunit)

/-- The four inputs as terms. -/
def inputs : List (Affine Rat 4) := (List.range 4).map Affine.var

/-- A record of the unit. -/
def trace : Trace := ⟨[(1, ⟨some [.active], none⟩)]⟩

theorem aligned : ∀ l ∈ net.layers, l.Aligned trace := by
  refine forall_layers trivial ?_
  intro b choices hb hchoices
  cases hb
  cases hchoices
  rfl

theorem resolved : ∀ l ∈ net.layers, l.Resolved trace :=
  forall_layers trivial ⟨_, _, rfl, rfl, by unfold Choice.Decided; decide⟩

theorem aligned_empty : ∀ l ∈ net.layers, l.Aligned .empty := by
  refine forall_layers trivial ?_
  intro b choices hb
  cases hb

theorem not_resolved_empty : ¬ ∀ l ∈ net.layers, l.Resolved .empty := by
  intro h
  obtain ⟨b, choices, hb, -⟩ := h (.relu unit) (List.mem_cons_of_mem _ (List.mem_cons_self ..))
  cases hb

end Beyond

/-- **A padding below zero.**  The rectifier behind the mean has no record, or one that resolves it:
    either way the replay stops at the mean, and not for a value that is not allowed. -/
theorem Net.replay_divides_by_zero :
    (∀ l ∈ Beyond.net.layers, l.Built) ∧ Beyond.inputs.length = Beyond.net.inDim ∧
    ((∀ l ∈ Beyond.net.layers, l.Aligned .empty) ∧
      (¬ ∀ l ∈ Beyond.net.layers, l.Resolved .empty) ∧
      Beyond.net.replay .empty 1 Beyond.inputs (Replay.start Quad.draws) = .error .zeroDivisor) ∧
    ((∀ l ∈ Beyond.net.layers, l.Aligned Beyond.trace) ∧
      (∀ l ∈ Beyond.net.layers, l.Resolved Beyond.trace) ∧
      Beyond.net.replay Beyond.trace 1 Beyond.inputs (Replay.start Quad.draws) =
        .error .zeroDivisor) ∧
    Fault.zeroDivisor.kind ≠ .value :=
  ⟨Beyond.built, rfl, ⟨Beyond.aligned_empty, Beyond.not_resolved_empty, rfl⟩,
    ⟨Beyond.aligned, Beyond.resolved, rfl⟩, by decide⟩

end Perturb
