/-
  What replaying a layer leaves behind, and what it means.

  Replaying a layer along a trace gives terms and adds constraints.  Which constraints, `demands`
  says without any bookkeeping: an active unit demands `term ≥ 0`, an inactive one `term < 0`, and
  a recorded winner demands `winner - other ≥ 0` for every other cell of its window.  Which of them
  a random draw defers changes nothing about the collection.

  `Layer.Follows` is the other side: at an input, the layer itself makes the recorded choices.  THE
  LOAD-BEARING STEP is `Layer.replays`: at a point at which the terms put in have the values put in,
  the demands hold exactly if the layer follows the trace there, and if they hold, even with
  equality allowed, the terms that come out have the values that come out.  Equality may be allowed
  because a unit at zero passes zero either way, and because cells that both attain the maximum of
  a window have the same value.
-/
import Perturb.Proofs.Layer.Built
import Perturb.Proofs.Layer.Remainder

namespace Perturb

/-! ## Choices of a rectifier -/

namespace Relu

variable {n : Nat}

/-- What a unit demands. -/
def demand : Choice → Affine Rat n → Constraint Rat n
  | .active, t => .of t .ge
  | _, t => .of t .lt

theorem demand_fresh (c : Choice) (t : Affine Rat n) : (demand c t).Fresh := by
  cases c <;> exact Constraint.fresh_of _ fun _ h => by cases h

/-- What a unit gives. -/
def passed : Choice → Affine Rat n → Affine Rat n
  | .active, t => t
  | _, _ => .const 0

/-- The side of zero a value is on. -/
def side (a : Rat) : Choice := if 0 ≤ a then .active else .inactive

theorem choices_eq_map_side (x : List Rat) : Relu.choices x = x.map side := by
  unfold Relu.choices Relu.activity
  rw [List.map_map]
  apply List.map_congr_left
  intro a _
  by_cases h : 0 ≤ a <;> simp [side, h]

/-- The recorded side is the right one exactly if the demand holds. -/
theorem holds_demand_iff {c : Choice} (hc : c = .active ∨ c = .inactive) (t : Affine Rat n)
    (v : Vector Rat n) : (demand c t).Holds v ↔ c = side (t.eval v) := by
  rcases hc with rfl | rfl
  · rw [demand, Constraint.holds_ge_iff, side]
    split
    · rename_i h
      exact ⟨fun _ => rfl, fun _ => h⟩
    · rename_i h
      exact ⟨fun h' => absurd h' h, fun h' => by cases h'⟩
  · show (Constraint.of t .lt).Holds v ↔ _
    rw [Constraint.holds_lt_iff, side]
    split
    · rename_i h
      exact ⟨fun h' => absurd h (not_le.2 h'), fun h' => by cases h'⟩
    · rename_i h
      exact ⟨fun _ => rfl, fun _ => not_le.1 h⟩

/-- Where a demand holds with equality allowed, a unit gives what the rectifier gives. -/
theorem eval_passed {c : Choice} (hc : c = .active ∨ c = .inactive) {t : Affine Rat n}
    {v : Vector Rat n} (h : (demand c t).weakened.Holds v) :
    (passed c t).eval v = if 0 ≤ t.eval v then t.eval v else 0 := by
  rcases hc with rfl | rfl
  · have hge : 0 ≤ t.eval v := (Constraint.holds_ge_iff t v).1 h
    rw [if_pos hge]
    rfl
  · have hle : t.eval v ≤ 0 := (Constraint.holds_le_iff t v).1 h
    show (Affine.const 0 : Affine Rat n).eval v = _
    rw [Affine.eval_const]
    split
    · rename_i hge
      exact le_antisymm hge hle
    · rfl

/-- Every recorded side is decided. -/
theorem choices_decided {x : List Rat} {c : Choice} (h : c ∈ Relu.choices x) :
    c = .active ∨ c = .inactive := by
  rw [choices_eq_map_side] at h
  obtain ⟨a, -, rfl⟩ := List.mem_map.1 h
  unfold side
  split
  · exact Or.inl rfl
  · exact Or.inr rfl

/-- The demands of all units hold exactly if every recorded side is the right one. -/
theorem holds_demands_iff {cs : List Choice} (hcs : ∀ c ∈ cs, c = .active ∨ c = .inactive)
    {ts : List (Affine Rat n)} (hlen : ts.length = cs.length) (v : Vector Rat n) :
    (∀ d ∈ List.zipWith demand cs ts, d.Holds v) ↔
      cs = Relu.choices (ts.map fun t => t.eval v) := by
  rw [choices_eq_map_side]
  induction cs generalizing ts with
  | nil =>
    rw [List.length_eq_zero_iff.1 hlen]
    exact ⟨fun _ => rfl, fun _ d hd => by cases hd⟩
  | cons c cs ih =>
    cases ts with
    | nil => cases hlen
    | cons t ts =>
      have hone := holds_demand_iff (hcs c (List.mem_cons_self ..)) t v
      have hrest := ih (fun c' h => hcs c' (List.mem_cons_of_mem c h)) (Nat.succ.inj hlen)
      rw [List.zipWith_cons_cons, List.forall_mem_cons, hone, hrest]
      rw [List.map_cons, List.map_cons, List.cons.injEq]

/-- Where the demands of all units hold with equality allowed, they give what the rectifier
    gives. -/
theorem eval_zipWith_passed {cs : List Choice} (hcs : ∀ c ∈ cs, c = .active ∨ c = .inactive)
    {ts : List (Affine Rat n)} (hlen : ts.length = cs.length) {v : Vector Rat n}
    (h : ∀ d ∈ List.zipWith demand cs ts, d.weakened.Holds v) :
    (List.zipWith passed cs ts).map (fun t => t.eval v) =
      Relu.values (ts.map fun t => t.eval v) := by
  induction cs generalizing ts with
  | nil =>
    rw [List.length_eq_zero_iff.1 hlen]
    rfl
  | cons c cs ih =>
    cases ts with
    | nil => cases hlen
    | cons t ts =>
      rw [List.zipWith_cons_cons, List.forall_mem_cons] at h
      have hone := eval_passed (hcs c (List.mem_cons_self ..)) h.1
      have hrest := ih (fun c' hc => hcs c' (List.mem_cons_of_mem c hc)) (Nat.succ.inj hlen) h.2
      rw [List.zipWith_cons_cons, List.map_cons, hone, hrest]
      rfl

end Relu

/-! ## Winners of a window -/

/-- The entry of a list at a position, zero beyond its end. -/
def entry (x : List Rat) (i : Nat) : Rat := (x[i]?).getD 0

/-- A cell of a window that is at least as large as every other. -/
def Attains (x : List Rat) (w : List Nat) (s : Nat) : Prop :=
  s ∈ w ∧ ∀ i ∈ w, entry x i ≤ entry x s

/-- The scan ends at a cell it has seen, and none it has seen is larger. -/
theorem firstLargest_attains (x : List Rat) (best : Nat) (w : List Nat) :
    Attains x (best :: w) (firstLargest x best w) := by
  induction w generalizing best with
  | nil =>
    refine ⟨List.mem_singleton_self best, fun i hi => ?_⟩
    rw [List.mem_singleton.1 hi]
    exact le_refl _
  | cons j w ih =>
    have hstep : firstLargest x best (j :: w) =
        firstLargest x (if entry x best < entry x j then j else best) w := rfl
    rw [hstep]
    by_cases hlt : entry x best < entry x j
    · rw [if_pos hlt]
      obtain ⟨hmem, hmax⟩ := ih j
      refine ⟨List.mem_cons_of_mem best hmem, fun i hi => ?_⟩
      rcases List.mem_cons.1 hi with rfl | hi
      · exact hlt.le.trans (hmax j (List.mem_cons_self ..))
      · exact hmax i hi
    · rw [if_neg hlt]
      obtain ⟨hmem, hmax⟩ := ih best
      constructor
      · rcases List.mem_cons.1 hmem with h | h
        · exact List.mem_cons.2 (Or.inl h)
        · exact List.mem_cons_of_mem best (List.mem_cons_of_mem j h)
      · intro i hi
        rcases List.mem_cons.1 hi with rfl | hi
        · exact hmax i (List.mem_cons_self ..)
        rcases List.mem_cons.1 hi with rfl | hi
        · exact (not_lt.1 hlt).trans (hmax best (List.mem_cons_self ..))
        · exact hmax i (List.mem_cons_of_mem best hi)

namespace MaxPool

variable {n : Nat}

/-- What a window with a winner demands. -/
def demand (ts : List (Affine Rat n)) (w : List Nat) (s : Nat) : List (Constraint Rat n) :=
  (w.filter (· != s)).map fun i =>
    .of (((ts[s]?).getD default).sub ((ts[i]?).getD default)) .ge

/-- The winner of a window that holds a cell. -/
def winner (x : List Rat) (w : List Nat) : Nat := firstLargest x (w.headD 0) w.tail

theorem winner_attains (x : List Rat) {w : List Nat} (hw : w ≠ []) : Attains x w (winner x w) := by
  cases w with
  | nil => exact absurd rfl hw
  | cons best w => exact firstLargest_attains x best w

/-- Terms looked up and evaluated are values looked up. -/
theorem eval_lookup (ts : List (Affine Rat n)) (i : Nat) (v : Vector Rat n) :
    ((ts[i]?).getD default).eval v = entry (ts.map fun t => t.eval v) i := by
  unfold entry
  rw [List.getElem?_map]
  cases ts[i]? with
  | none => exact Affine.eval_default v
  | some t => rfl

/-- The demands of a window hold exactly if its winner is as large as every other cell. -/
theorem holds_demand_iff {ts : List (Affine Rat n)} {w : List Nat} {s : Nat} (hs : s ∈ w)
    (v : Vector Rat n) :
    (∀ c ∈ demand ts w s, c.Holds v) ↔ Attains (ts.map fun t => t.eval v) w s := by
  have hone : ∀ i, (Constraint.of (((ts[s]?).getD default).sub ((ts[i]?).getD default)) .ge).Holds v
      ↔ entry (ts.map fun t => t.eval v) i ≤ entry (ts.map fun t => t.eval v) s := by
    intro i
    rw [Constraint.holds_ge_iff, Affine.eval_sub, eval_lookup, eval_lookup, sub_nonneg]
  constructor
  · intro h
    refine ⟨hs, fun i hi => ?_⟩
    by_cases his : i = s
    · exact his ▸ le_refl _
    · exact (hone i).1 (h _ (List.mem_map.2
        ⟨i, List.mem_filter.2 ⟨hi, bne_iff_ne.2 his⟩, rfl⟩))
  · rintro ⟨-, h⟩ c hc
    obtain ⟨i, hi, rfl⟩ := List.mem_map.1 hc
    exact (hone i).2 (h i (List.mem_filter.1 hi).1)

/-- No demand of a window is strict. -/
theorem weakened_of_mem_demands {ts : List (Affine Rat n)} {ws : List (List Nat)} {ss : List Nat}
    {c : Constraint Rat n} (h : c ∈ (List.zipWith (demand ts) ws ss).flatten) :
    c.weakened = c ∧ c.Fresh := by
  obtain ⟨cs, hcs, hc⟩ := List.mem_flatten.1 h
  obtain ⟨i, hi, rfl⟩ := List.getElem_of_mem hcs
  rw [List.getElem_zipWith] at hc
  obtain ⟨j, -, rfl⟩ := List.mem_map.1 hc
  exact ⟨rfl, Constraint.fresh_of _ fun _ h => by cases h⟩

/-- Two cells that both attain the maximum of a window have the same value. -/
theorem entry_eq_of_attains {x : List Rat} {w : List Nat} {s t : Nat} (hs : Attains x w s)
    (ht : Attains x w t) : entry x s = entry x t :=
  le_antisymm (ht.2 s hs.1) (hs.2 t ht.1)

/-- The demands of all windows hold exactly if every winner attains the maximum of its window. -/
theorem holds_demands_iff {ts : List (Affine Rat n)} {ws : List (List Nat)} {ss : List Nat}
    (hin : List.Forall₂ (fun w s => s ∈ w) ws ss) (v : Vector Rat n) :
    (∀ c ∈ (List.zipWith (demand ts) ws ss).flatten, c.Holds v) ↔
      List.Forall₂ (Attains (ts.map fun t => t.eval v)) ws ss := by
  induction hin with
  | nil => exact ⟨fun _ => .nil, fun _ c hc => by cases hc⟩
  | cons hmem hin ih =>
    rw [List.zipWith_cons_cons, List.flatten_cons, List.forall_mem_append,
      holds_demand_iff hmem, ih, List.forall₂_cons]

/-- The recorded winners lie in their windows. -/
theorem winners_mem (m : MaxPool) (x : List Rat) :
    List.Forall₂ (fun w s => s ∈ w) m.pooling.windows (m.winners x) := by
  unfold MaxPool.winners
  rw [List.forall₂_map_right_iff]
  exact List.forall₂_same.2 fun w hw => (winner_attains x (m.pooling.filled w hw)).1

/-- Cells that attain the maxima of the windows have the values of the outputs. -/
theorem values_eq_of_attains (m : MaxPool) {x : List Rat} {ss : List Nat}
    (h : List.Forall₂ (Attains x) m.pooling.windows ss) : m.values x = ss.map (entry x) := by
  have hwinners : ∀ {ws : List (List Nat)} {ss : List Nat}, (∀ w ∈ ws, w ≠ []) →
      List.Forall₂ (Attains x) ws ss →
        ws.map (fun w => entry x (winner x w)) = ss.map (entry x) := by
    intro ws ss hne hatt
    induction hatt with
    | nil => rfl
    | cons hs hatt ih =>
      rw [List.forall_mem_cons] at hne
      rw [List.map_cons, List.map_cons, ih hne.2,
        entry_eq_of_attains (winner_attains x hne.1) hs]
  rw [← hwinners m.pooling.filled h]
  show ((m.pooling.windows).map fun w => winner x w).map (entry x) = _
  rw [List.map_map]
  rfl

end MaxPool

/-! ## The bookkeeping of a replay -/

namespace Replay

variable {S : Type} {n : Nat}

/-- Adding first one part and then the rest is adding both. -/
theorem perm_append_step {α : Type} {a b c d e : List α} (h : b.Perm (a ++ d))
    (h' : c.Perm (b ++ e)) : c.Perm (a ++ (d ++ e)) := by
  rw [← List.append_assoc]
  exact h'.trans (h.append_right e)

/-- Replaying windows along winners that lie in them gives the winners' terms, and leaves behind
    what they demand. -/
theorem windows_ok (index : Int) (selections : List Int) (ts : List (Affine Rat n))
    {ws : List (List Nat)} {ss : List Nat} (hin : List.Forall₂ (fun w s => s ∈ w) ws ss) {o : Nat}
    (ho : selections.drop o = ss.map Int.ofNat) (r : Replay S Rat n) :
    ∃ r', windows index selections ts o r ws = .ok (ss.map fun s => (ts[s]?).getD default, r') ∧
      r'.all.Perm (r.all ++ (List.zipWith (MaxPool.demand ts) ws ss).flatten) := by
  induction hin generalizing o r with
  | nil =>
    refine ⟨r, by rw [windows, List.map_nil], ?_⟩
    rw [List.zipWith_nil_left, List.flatten_nil, List.append_nil]
  | @cons w s ws ss hmem hin ih =>
    have hget : selections[o]? = some (Int.ofNat s) := by
      rw [← List.head?_drop, ho]
      rfl
    have hrest : selections.drop (o + 1) = ss.map Int.ofNat := by
      rw [← List.tail_drop, ho]
      rfl
    have hinside : ¬ (Int.ofNat s < 0 || !w.contains s) = true := by
      simp [hmem]
    obtain ⟨r', hok, hperm⟩ := ih hrest ((w.filter (· != s)).foldl (fun r i =>
      r.defer (.of (((ts[s]?).getD default).sub ((ts[i]?).getD default)) .ge)) r)
    refine ⟨r', ?_, perm_append_step (all_foldl_defer _ _ r) hperm⟩
    rw [windows, hget]
    simp only [Int.ofNat_eq_natCast, Int.toNat_natCast] at hinside ⊢
    rw [if_neg hinside, hok]
    rfl

variable [Source S Rat]

/-- Replaying units along decided choices passes them, and leaves behind what they demand. -/
theorem units_ok (ratio : Rat) (index : Int) (choices : List Choice) {cs : List Choice}
    (hcs : ∀ c ∈ cs, c = .active ∨ c = .inactive) {i : Nat} (hi : choices.drop i = cs)
    {ts : List (Affine Rat n)} (hlen : ts.length = cs.length) (r : Replay S Rat n) :
    ∃ r', units ratio index choices i r ts = .ok (List.zipWith Relu.passed cs ts, r') ∧
      r'.all.Perm (r.all ++ List.zipWith Relu.demand cs ts) := by
  induction ts generalizing i r cs with
  | nil =>
    refine ⟨r, ?_, ?_⟩
    · rw [units, List.zipWith_nil_right]
    · rw [List.zipWith_nil_right, List.append_nil]
  | cons t ts ih =>
    cases cs with
    | nil => cases hlen
    | cons c cs =>
      have hget : choices[i]? = some c := by
        rw [← List.head?_drop, hi]
        rfl
      have hrest : choices.drop (i + 1) = cs := by
        rw [← List.tail_drop, hi]
        rfl
      have hlen' : ts.length = cs.length := Nat.succ.inj hlen
      have hcs' : ∀ c ∈ cs, c = .active ∨ c = .inactive :=
        fun c' h => hcs c' (List.mem_cons_of_mem c h)
      rcases hcs c (List.mem_cons_self ..) with rfl | rfl
      · obtain ⟨r', hok, hperm⟩ := ih hcs' hrest hlen' (r.keep ratio (.of t .ge))
        refine ⟨r', ?_, perm_append_step (all_keep ratio r (.of t .ge)) hperm⟩
        rw [units, hget]
        simp only [hok]
        rfl
      · obtain ⟨r', hok, hperm⟩ := ih hcs' hrest hlen' (r.defer (.of t .lt))
        refine ⟨r', ?_, perm_append_step (all_defer r (.of t .lt)) hperm⟩
        rw [units, hget]
        simp only [hok]
        rfl

end Replay

/-! ## What a replay has to do -/

section

variable {n : Nat}

/-- Terms `us` stand for what `values` gives on what `ts` stand for, wherever the choices are
    followed; and that they are is what `cs` say. -/
structure Stands (follows : List Rat → Prop) (values : List Rat → Outcome (List Rat))
    (ts us : List (Affine Rat n)) (cs : List (Constraint Rat n)) : Prop where
  fresh : ∀ c ∈ cs, c.Fresh
  follows : ∀ v, (∀ c ∈ cs, c.Holds v) ↔ follows (ts.map fun t => t.eval v)
  values : ∀ v, (∀ c ∈ cs, c.weakened.Holds v) →
    values (ts.map fun t => t.eval v) = .ok (us.map fun t => t.eval v)

/-- One part after another: the second is asked to follow at what the first gives. -/
theorem Stands.trans {f g : List Rat → Prop} {p q : List Rat → Outcome (List Rat)}
    {ts us ws : List (Affine Rat n)} {cs ds : List (Constraint Rat n)}
    (h : Stands f p ts us cs) (h' : Stands g q us ws ds) :
    Stands (fun x => f x ∧ ∃ y, p x = .ok y ∧ g y) (fun x => p x >>= q) ts ws (cs ++ ds) := by
  constructor
  · exact List.forall_mem_append.2 ⟨h.fresh, h'.fresh⟩
  · intro v
    rw [List.forall_mem_append, h.follows v, h'.follows v]
    constructor
    · rintro ⟨hf, hg⟩
      exact ⟨hf, _, h.values v fun c hc => ((h.follows v).2 hf c hc).weakened, hg⟩
    · rintro ⟨hf, y, hy, hg⟩
      have hval := h.values v fun c hc => ((h.follows v).2 hf c hc).weakened
      cases hval.symm.trans hy
      exact ⟨hf, hg⟩
  · intro v hall
    rw [List.forall_mem_append] at hall
    rw [h.values v hall.1]
    exact h'.values v hall.2

/-- A replay succeeds with as many terms as asked for, whatever is drawn, leaves behind the given
    constraints and nothing else, and the terms stand for what `values` gives. -/
def Replays (follows : List Rat → Prop) (values : List Rat → Outcome (List Rat))
    (replay : ∀ {S : Type} [Source S Rat], Rat → List (Affine Rat n) → Replay S Rat n →
      Outcome (List (Affine Rat n) × Replay S Rat n))
    (ts : List (Affine Rat n)) (count : Nat) (cs : List (Constraint Rat n)) : Prop :=
  ∃ us, us.length = count ∧ Stands follows values ts us cs ∧
    ∀ {S : Type} [Source S Rat] (ratio : Rat) (r : Replay S Rat n),
      ∃ r', replay ratio ts r = .ok (us, r') ∧ r'.all.Perm (r.all ++ cs)

end

/-! ## Layers -/

namespace Layer

variable {n : Nat}

/-- At an input, a layer makes the choices a trace has recorded of it: its units are on the recorded
    sides, and the recorded cells attain the maxima of their windows. -/
def Follows (trace : Trace) (x : List Rat) : Layer Rat → Prop
  | .affine _ => True
  | .relu u => ∃ b, trace.find? u.index = some b ∧ b.choices = some (Relu.choices x)
  | .maxPool m => ∃ b sel, trace.find? m.pooling.index = some b ∧ b.selections = some sel ∧
      List.Forall₂ (fun w (s : Int) => 0 ≤ s ∧ Attains x w s.toNat) m.pooling.windows sel

/-- What a layer demands of the terms put in, along the branches it took at an input. -/
def demands (x₀ : List Rat) (ts : List (Affine Rat n)) : Layer Rat → List (Constraint Rat n)
  | .affine _ => []
  | .relu _ => List.zipWith Relu.demand (Relu.choices x₀) ts
  | .maxPool m => (List.zipWith (MaxPool.demand ts) m.pooling.windows (m.winners x₀)).flatten

/-- The recorded winners, as they stand in a trace, attain the maxima exactly if the winners do. -/
theorem forall₂_attains_ofNat {x : List Rat} {ws : List (List Nat)} {ss : List Nat} :
    List.Forall₂ (fun w (s : Int) => 0 ≤ s ∧ Attains x w s.toNat) ws (ss.map Int.ofNat) ↔
      List.Forall₂ (Attains x) ws ss := by
  rw [List.forall₂_map_right_iff]
  have hone : ∀ (w : List Nat) (s : Nat),
      (0 ≤ Int.ofNat s ∧ Attains x w (Int.ofNat s).toNat) ↔ Attains x w s := by
    intro w s
    exact ⟨fun h => h.2, fun h => ⟨Int.natCast_nonneg s, h⟩⟩
  simp only [hone]

/-- The entry of a layer that was recorded is found. -/
theorem get_of_find? {trace : Trace} {i : Int} {b : Branches} (h : trace.find? i = some b) :
    trace.get i = .ok b := by
  unfold Trace.get
  rw [h]

/-- What replaying an affine layer amounts to. -/
theorem affine_replays {trace : Trace} {a : AffineLayer Rat} (ha : a.Sound) {x₀ y₀ : List Rat}
    (hv : (Layer.affine a).values x₀ = .ok y₀) {ts : List (Affine Rat n)}
    (hlen : ts.length = x₀.length) :
    Replays (fun x => (Layer.affine a).Follows trace x) (Layer.affine a).values
      (fun ratio ts r => Replay.layer trace ratio (.affine a) ts r) ts y₀.length [] := by
  obtain ⟨us, hus, hlast, heval⟩ := Stage.foldlM_eval ha.built hv _ hlen
  refine ⟨us, hlast, ⟨List.forall_mem_nil _, fun v => ?_, fun v _ => heval v⟩,
    fun {S} _ ratio r => ⟨r, ?_, ?_⟩⟩
  · exact ⟨fun _ => trivial, fun _ => List.forall_mem_nil _⟩
  · simp only [Replay.layer, hus, Outcome.ok_bind]
  · rw [List.append_nil]

/-- What replaying a rectifier amounts to. -/
theorem relu_replays {trace : Trace} {u : Relu} {x₀ y₀ : List Rat}
    (hv : (Layer.relu u : Layer Rat).values x₀ = .ok y₀)
    (ht : trace.find? u.index = some ((Layer.relu u : Layer Rat).branches x₀))
    {ts : List (Affine Rat n)} (hlen : ts.length = x₀.length) :
    Replays (fun x => (Layer.relu u : Layer Rat).Follows trace x) (Layer.relu u : Layer Rat).values
      (fun ratio ts r => Replay.layer trace ratio (.relu u) ts r) ts y₀.length
      (List.zipWith Relu.demand (Relu.choices x₀) ts) := by
  obtain ⟨hdim, rfl⟩ := relu_values_ok_iff.1 hv
  have hdecided : ∀ c ∈ Relu.choices x₀, c = .active ∨ c = .inactive :=
    fun c hc => Relu.choices_decided hc
  have hlenc : ts.length = (Relu.choices x₀).length := by
    rw [Relu.choices_eq_map_side, List.length_map, hlen]
  refine ⟨List.zipWith Relu.passed (Relu.choices x₀) ts, ?_, ⟨?_, fun v => ?_, fun v h => ?_⟩,
    fun {S} _ ratio r => ?_⟩
  · rw [List.length_zipWith, ← hlenc, Nat.min_self, hlen]
    exact (List.length_map _).symm
  · intro d hd
    obtain ⟨i, hi, rfl⟩ := List.getElem_of_mem hd
    rw [List.getElem_zipWith]
    exact Relu.demand_fresh _ _
  · rw [Relu.holds_demands_iff hdecided hlenc v]
    constructor
    · intro h
      exact ⟨_, ht, congrArg some h⟩
    · rintro ⟨b, hb, hc⟩
      cases ht.symm.trans hb
      exact Option.some.inj hc
  · rw [Relu.eval_zipWith_passed hdecided hlenc h]
    exact relu_values_ok_iff.2 ⟨by rw [List.length_map, hlen, hdim], rfl⟩
  · obtain ⟨r', hok, hperm⟩ := Replay.units_ok ratio u.index (Relu.choices x₀) hdecided
      List.drop_zero hlenc r
    have hcheck : (Layer.relu u : Layer Rat).check ts = .ok () := check_ok_iff.2 (hlen.trans hdim)
    refine ⟨r', ?_, hperm⟩
    simp only [Replay.layer, hcheck, get_of_find? ht, Outcome.ok_bind]
    exact hok

/-- What replaying a maximum amounts to. -/
theorem maxPool_replays {trace : Trace} {m : MaxPool} {x₀ y₀ : List Rat}
    (hv : (Layer.maxPool m : Layer Rat).values x₀ = .ok y₀)
    (ht : trace.find? m.pooling.index = some ((Layer.maxPool m : Layer Rat).branches x₀))
    {ts : List (Affine Rat n)} (hlen : ts.length = x₀.length) :
    Replays (fun x => (Layer.maxPool m : Layer Rat).Follows trace x)
      (Layer.maxPool m : Layer Rat).values
      (fun ratio ts r => Replay.layer trace ratio (.maxPool m) ts r) ts y₀.length
      (List.zipWith (MaxPool.demand ts) m.pooling.windows (m.winners x₀)).flatten := by
  obtain ⟨hdim, rfl⟩ := maxPool_values_ok_iff.1 hv
  have hin := MaxPool.winners_mem m x₀
  refine ⟨(m.winners x₀).map fun s => (ts[s]?).getD default, ?_, ⟨?_, fun v => ?_, fun v h => ?_⟩,
    fun {S} _ ratio r => ?_⟩
  · rw [List.length_map]
    exact (List.length_map _).symm
  · intro c hc
    exact (MaxPool.weakened_of_mem_demands hc).2
  · rw [MaxPool.holds_demands_iff hin v]
    constructor
    · intro h
      exact ⟨_, _, ht, rfl, forall₂_attains_ofNat.2 h⟩
    · rintro ⟨b, sel, hb, hsel, h⟩
      cases ht.symm.trans hb
      cases hsel
      exact forall₂_attains_ofNat.1 h
  · have hattains : List.Forall₂ (Attains (ts.map fun t => t.eval v)) m.pooling.windows
        (m.winners x₀) := by
      refine (MaxPool.holds_demands_iff hin v).1 fun c hc => ?_
      rw [← (MaxPool.weakened_of_mem_demands hc).1]
      exact h c hc
    refine maxPool_values_ok_iff.2 ⟨by rw [List.length_map, hlen, hdim], ?_⟩
    rw [MaxPool.values_eq_of_attains m hattains, List.map_map]
    exact List.map_congr_left fun s _ => MaxPool.eval_lookup ts s v
  · obtain ⟨r', hok, hperm⟩ := Replay.windows_ok m.pooling.index
      ((m.winners x₀).map Int.ofNat) ts hin (o := 0) List.drop_zero r
    have hcheck : (Layer.maxPool m : Layer Rat).check ts = .ok () :=
      check_ok_iff.2 (hlen.trans hdim)
    refine ⟨r', ?_, hperm⟩
    simp only [Replay.layer, hcheck, get_of_find? ht, Outcome.ok_bind]
    exact hok

/-- **Replaying a layer.**  Along the branches a layer took at an input, its replay succeeds on any
    terms of that length, whatever is drawn; it leaves behind the demands and nothing else, and the
    resulting terms stand for its outputs. -/
theorem replays {trace : Trace} {l : Layer Rat} (hl : l.Sound) {x₀ y₀ : List Rat}
    (hv : l.values x₀ = .ok y₀) (ht : trace.find? l.index = some (l.branches x₀))
    {ts : List (Affine Rat n)} (hlen : ts.length = x₀.length) :
    Replays (fun x => l.Follows trace x) l.values
      (fun ratio ts r => Replay.layer trace ratio l ts r) ts y₀.length (l.demands x₀ ts) := by
  cases l with
  | affine a => exact affine_replays hl hv hlen
  | relu u => exact relu_replays hv ht hlen
  | maxPool m => exact maxPool_replays hv ht hlen

end Layer

end Perturb
