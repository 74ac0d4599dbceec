/-
  The winners of a maximum.

  1. **Order** — no arithmetic is needed, only that the values that are compared are totally
     ordered (`Scalar.Total`).  Fractions always are; with infinities they still are, as long as
     every value is a number.

  2. **The crux** (`Leads`) — the cell that the scan of a window holds splits what it has seen: all
     cells before it are smaller, and none after it is larger.  A strictly larger cell takes over
     with everything else before it, any other cell joins those after (`Leads.step`).  Were the
     comparison not strict, a tie would put an equal cell before.

  3. **Places** — a window lists its cells row by row, so before in the list is before on the image
     (`PoolShape.earlier_iff_lt`).  The first maximum is then a matter of the order of the cells
     alone (`FirstMaximum.not_earlier`), and so is what a pass records.
-/
import Perturb.Proofs.Net.Exactness
import Perturb.Proofs.Net.Safety
import Perturb.Proofs.Number.Extended

namespace Perturb

/-! ## Order -/

/-- The entries of a vector are totally ordered. -/
structure Scalar.Total {K : Type} [Scalar K] (xs : List K) : Prop where
  total : ∀ a ∈ xs, ∀ b ∈ xs, a ≤ b ∨ b ≤ a
  trans : ∀ a ∈ xs, ∀ b ∈ xs, ∀ c ∈ xs, a ≤ b → b ≤ c → a ≤ c
  lt_iff : ∀ a ∈ xs, ∀ b ∈ xs, a < b ↔ ¬ b ≤ a

namespace Scalar.Total

/-- Fractions are totally ordered. -/
theorem rat (xs : List Rat) : Scalar.Total xs where
  total _ _ _ _ := Rat.le_total
  trans _ _ _ _ _ _ := Rat.le_trans
  lt_iff _ _ _ _ := Rat.not_le.symm

/-- Extended numbers are, if all of them are numbers. -/
theorem extended {xs : List Extended} (hnumber : ∀ a ∈ xs, a ≠ .nan) : Scalar.Total xs := by
  refine ⟨fun a ha b hb => ?_, fun a _ b _ c _ => Extended.le_trans, fun a ha b hb => ?_⟩
  · exact (Extended.lt_or_le (hnumber a ha) (hnumber b hb)).imp_left Or.inl
  · refine ⟨Extended.not_le_of_lt, fun hle => ?_⟩
    rcases Extended.not_le_iff.1 hle with hlt | hnan | hnan
    · exact hlt
    · exact absurd hnan (hnumber b hb)
    · exact absurd hnan (hnumber a ha)

variable {K : Type} [Scalar K] {xs : List K} {a b c : K} (h : Scalar.Total xs)

include h

theorem refl (ha : a ∈ xs) : a ≤ a := or_self_iff.1 (h.total a ha a ha)

theorem le_of_lt (ha : a ∈ xs) (hb : b ∈ xs) (hlt : a < b) : a ≤ b :=
  (h.total a ha b hb).resolve_right ((h.lt_iff a ha b hb).1 hlt)

theorem le_of_not_lt (ha : a ∈ xs) (hb : b ∈ xs) (hlt : ¬ a < b) : b ≤ a :=
  not_not.1 fun hle => hlt ((h.lt_iff a ha b hb).2 hle)

theorem lt_of_le_of_lt (ha : a ∈ xs) (hb : b ∈ xs) (hc : c ∈ xs) (hle : a ≤ b) (hlt : b < c) :
    a < c :=
  (h.lt_iff a ha c hc).2 fun hca => (h.lt_iff b hb c hc).1 hlt (h.trans c hc a ha b hb hca hle)

end Scalar.Total

/-! ## The scan -/

section

variable {K : Type} [Scalar K] {x : List K} {i j best : Nat} {seen : List Nat}

/-- The entry that a scan reads at a cell. -/
def held (x : List K) (i : Nat) : K := (x[i]?).getD 0

theorem getElem?_eq_held (hi : i < x.length) : x[i]? = some (held x i) := by
  unfold held
  rw [List.getElem?_eq_getElem hi]
  rfl

theorem held_mem (hi : i < x.length) : held x i ∈ x := List.mem_of_getElem? (getElem?_eq_held hi)

/-- Of the cells a scan has seen, those before `best` are smaller and none after it is larger. -/
def Leads (x : List K) (seen : List Nat) (best : Nat) : Prop :=
  ∃ before after, seen = before ++ best :: after ∧ (∀ i ∈ before, held x i < held x best) ∧
    ∀ i ∈ after, held x i ≤ held x best

namespace Leads

variable (ht : Scalar.Total x)

include ht

/-- None of the cells is larger. -/
theorem most (hin : ∀ i ∈ seen, i < x.length) (h : Leads x seen best) :
    ∀ i ∈ seen, held x i ≤ held x best := by
  obtain ⟨before, after, rfl, hbefore, hafter⟩ := h
  have hbest : held x best ∈ x := held_mem (hin best List.mem_append_cons_self)
  intro i hi
  have hheld : held x i ∈ x := held_mem (hin i hi)
  rcases List.mem_append.1 hi with hi | hi
  · exact ht.le_of_lt hheld hbest (hbefore i hi)
  · rcases List.mem_cons.1 hi with rfl | hi
    · exact ht.refl hheld
    · exact hafter i hi

/-- One comparison keeps the split. -/
theorem step (hin : ∀ i ∈ seen ++ [j], i < x.length) (h : Leads x seen best) :
    Leads x (seen ++ [j]) (if held x best < held x j then j else best) := by
  obtain ⟨hseen, hj⟩ := List.forall_mem_append.1 hin
  have hj : held x j ∈ x := held_mem (hj j (List.mem_singleton_self j))
  have hmost := h.most ht hseen
  obtain ⟨before, after, rfl, hbefore, hafter⟩ := h
  have hbest : held x best ∈ x := held_mem (hseen best List.mem_append_cons_self)
  by_cases hlt : held x best < held x j
  · -- everything seen so far is before the cell that takes over
    rw [if_pos hlt]
    refine ⟨before ++ best :: after, [], rfl, fun i hi => ?_, fun i hi => ?_⟩
    · exact ht.lt_of_le_of_lt (held_mem (hseen i hi)) hbest hj (hmost i hi) hlt
    · exact absurd hi List.not_mem_nil
  · rw [if_neg hlt]
    refine ⟨before, after ++ [j], by rw [List.append_assoc, List.cons_append], hbefore, ?_⟩
    exact List.forall_mem_append.2
      ⟨hafter, List.forall_mem_singleton.2 (ht.le_of_not_lt hbest hj hlt)⟩

end Leads

/-- The scan ends at a cell that splits the whole window. -/
theorem firstLargest_leads (ht : Scalar.Total x) (todo : List Nat)
    (hin : ∀ i ∈ seen ++ todo, i < x.length) (h : Leads x seen best) :
    Leads x (seen ++ todo) (firstLargest x best todo) := by
  induction todo generalizing seen best with
  | nil =>
    rw [List.append_nil]
    exact h
  | cons j todo ih =>
    rw [List.append_cons] at hin ⊢
    exact ih hin (h.step ht fun i hi => hin i (List.mem_append_left _ hi))

/-- The winner of a window. -/
theorem MaxPool.winner_leads (ht : Scalar.Total x) {w : List Nat} (hw : w ≠ [])
    (hin : ∀ i ∈ w, i < x.length) : Leads x w (firstLargest x (w.headD 0) w.tail) := by
  cases w with
  | nil => exact absurd rfl hw
  | cons first todo =>
    have hstart : Leads x [first] first :=
      ⟨[], [], rfl, fun i hi => absurd hi List.not_mem_nil, fun i hi => absurd hi List.not_mem_nil⟩
    exact firstLargest_leads ht todo hin hstart

end

/-! ## Places -/

/-- Row by row, a cell comes before another. -/
def Grid.Earlier (g : Grid) (i j : Int) : Prop :=
  g.row i < g.row j ∨ g.row i = g.row j ∧ g.col i < g.col j

/-- A window lists its cells row by row. -/
theorem PoolShape.earlier_iff_lt {p : PoolShape} {channel r c i j : Nat}
    (hi : i ∈ p.window channel r c) (hj : j ∈ p.window channel r c) :
    p.input.Earlier i j ↔ i < j := by
  obtain ⟨row, col, hrow, hcol, -, hi⟩ := mem_window_iff.1 hi
  obtain ⟨row', col', hrow', hcol', -, hj⟩ := mem_window_iff.1 hj
  have hline : ∀ {a b k l : Nat}, a < b → k < p.input.cols →
      p.input.index channel a k < p.input.index channel b l := fun hab hk =>
    Grid.index_lt_of_row_lt (Int.ofNat_lt.2 hab) (Int.ofNat_lt.2 hk) (Int.natCast_nonneg _)
  unfold Grid.Earlier
  rw [← Int.ofNat_lt, hi, hj, Grid.row_index (by omega) (by omega),
    Grid.row_index (by omega) (by omega), Grid.col_index (by omega), Grid.col_index (by omega)]
  rcases Nat.lt_trichotomy row row' with hlt | rfl | hgt
  · exact iff_of_true (Or.inl (Int.ofNat_lt.2 hlt)) (hline hlt hcol)
  · unfold Grid.index
    omega
  · have hback := hline (l := col) hgt hcol'
    exact iff_of_false (by omega) (by omega)

/-- Every window belongs to an output. -/
theorem Pooling.exists_of_mem_windows {p : Pooling} {w : List Nat} (hw : w ∈ p.windows) :
    ∃ channel r c, w = p.shape.window channel r c := by
  obtain ⟨⟨channel, r, c⟩, -, hwindow⟩ := List.mem_map.1 hw
  exact ⟨channel, r, c, hwindow.symm⟩

section

variable {K : Type} [Scalar K] {g : Grid} {x x' : List K} {w : List Nat} {s s' : Nat}
  {best best' : K}

/-- A cell of a window is the first of those with the largest entry, which is `best`. -/
structure FirstMaximum (g : Grid) (x : List K) (w : List Nat) (s : Nat) (best : K) : Prop where
  mem : s ∈ w
  value : x[s]? = some best
  largest : ∀ i ∈ w, ∃ a, x[i]? = some a ∧ a ≤ best
  first : ∀ i ∈ w, g.Earlier i s → ∃ a, x[i]? = some a ∧ a < best

/-- Two vectors order the cells of a window in the same way. -/
def Alike (x x' : List K) (w : List Nat) : Prop :=
  ∀ i ∈ w, ∀ j ∈ w, ∀ a ∈ x[i]?, ∀ b ∈ x[j]?, ∀ a' ∈ x'[i]?, ∀ b' ∈ x'[j]?, a ≤ b ↔ a' ≤ b'

/-- The first maximum of one vector is not before that of another that orders the cells in the same
    way: it is the largest there as well. -/
theorem FirstMaximum.not_earlier (h : FirstMaximum g x w s best)
    (h' : FirstMaximum g x' w s' best') (ht' : Scalar.Total x') (hw : Alike x x' w) :
    ¬ g.Earlier s s' := by
  intro hearlier
  obtain ⟨a', ha', hlt⟩ := h'.first s h.mem hearlier
  obtain ⟨a, ha, hle⟩ := h.largest s' h'.mem
  have hback : best' ≤ a' :=
    (hw s' h'.mem s h.mem a ha best h.value best' h'.value a' ha').1 hle
  exact (ht'.lt_iff a' (List.mem_of_getElem? ha') best' (List.mem_of_getElem? h'.value)).1 hlt hback

theorem Alike.symm (hw : Alike x x' w) : Alike x' x w :=
  fun i hi j hj a ha b hb a' ha' b' hb' => (hw i hi j hj a' ha' b' hb' a ha b hb).symm

end

/-! ## The layer -/

namespace MaxPool

/-- Cells of windows are cells of the image. -/
theorem lt_length {K : Type} {m : MaxPool} {x : List K} {w : List Nat}
    (hx : x.length = m.pooling.shape.input.size) (hw : w ∈ m.pooling.windows) :
    ∀ i ∈ w, i < x.length := by
  intro i hi
  have hsafe := m.pooling.lookup_safe
  have hlt : (i : Int) < m.pooling.shape.input.size :=
    (hsafe.inside i (hsafe.computed i (List.mem_flatten.2 ⟨w, hw, hi⟩))).2
  omega

variable {K : Type} [Scalar K] {m : MaxPool} {x x' : List K} {w : List Nat}

/-- The winner of a window is the first of its largest cells. -/
theorem winner_first (hx : x.length = m.pooling.shape.input.size) (ht : Scalar.Total x)
    (hw : w ∈ m.pooling.windows) : FirstMaximum m.pooling.shape.input x w
      (firstLargest x (w.headD 0) w.tail) (held x (firstLargest x (w.headD 0) w.tail)) := by
  have hin := lt_length hx hw
  have hleads := winner_leads ht (m.pooling.filled w hw) hin
  generalize firstLargest x (w.headD 0) w.tail = s at hleads ⊢
  have hmost := hleads.most ht hin
  obtain ⟨before, after, hsplit, hbefore, -⟩ := hleads
  have hs : s ∈ w := by
    rw [hsplit]
    exact List.mem_append_cons_self
  refine ⟨hs, getElem?_eq_held (hin s hs), fun i hi => ?_, fun i hi hearlier => ?_⟩
  · exact ⟨held x i, getElem?_eq_held (hin i hi), hmost i hi⟩
  · refine ⟨held x i, getElem?_eq_held (hin i hi), hbefore i ?_⟩
    obtain ⟨channel, r, c, hwindow⟩ := Pooling.exists_of_mem_windows hw
    have hsorted : w.Pairwise (· < ·) := hwindow ▸ m.pooling.shape.sorted_window channel r c
    have hlt : i < s := (PoolShape.earlier_iff_lt (hwindow ▸ hi) (hwindow ▸ hs)).1 hearlier
    -- what comes after the winner in the list has a larger number
    rw [hsplit, List.pairwise_append, List.pairwise_cons] at hsorted
    rw [hsplit, List.mem_append, List.mem_cons] at hi
    rcases hi with hi | rfl | hi
    · exact hi
    · exact absurd hlt (Nat.lt_irrefl i)
    · exact absurd hlt (Nat.lt_asymm (hsorted.2.1.1 i hi))

/-- Vectors that order the cells of a window in the same way have the same winner there. -/
theorem winner_congr (hx : x.length = m.pooling.shape.input.size)
    (hx' : x'.length = m.pooling.shape.input.size) (ht : Scalar.Total x) (ht' : Scalar.Total x')
    (hw : w ∈ m.pooling.windows) (halike : Alike x x' w) :
    firstLargest x' (w.headD 0) w.tail = firstLargest x (w.headD 0) w.tail := by
  have h := winner_first hx ht hw
  have h' := winner_first hx' ht' hw
  obtain ⟨channel, r, c, hwindow⟩ := Pooling.exists_of_mem_windows hw
  have hplaces : ∀ {s t : Nat}, s ∈ w → t ∈ w → ¬ m.pooling.shape.input.Earlier s t → t ≤ s := by
    intro s t hs ht hnot
    exact Nat.le_of_not_lt fun hlt =>
      hnot ((PoolShape.earlier_iff_lt (hwindow ▸ hs) (hwindow ▸ ht)).2 hlt)
  exact Nat.le_antisymm (hplaces h.mem h'.mem (h.not_earlier h' ht' halike))
    (hplaces h'.mem h.mem (h'.not_earlier h ht halike.symm))

/-- What the layer records of a window and what it gives for it: the first of its largest cells,
    and their entry. -/
theorem selected {o : Nat} (hx : x.length = m.pooling.shape.input.size) (ht : Scalar.Total x)
    (ho : o < m.pooling.output.size) : ∃ (w : List Nat) (s : Nat) (best : K),
    m.pooling.windows[o]? = some w ∧ ((m.winners x).map Int.ofNat)[o]? = some (s : Int) ∧
      (m.values x)[o]? = some best ∧ FirstMaximum m.pooling.shape.input x w s best := by
  rw [← Pooling.length_windows] at ho
  have hw : m.pooling.windows[o]? = some m.pooling.windows[o] := List.getElem?_eq_getElem ho
  refine ⟨_, _, _, hw, ?_, ?_, winner_first hx ht (List.getElem_mem ho)⟩
  · unfold winners
    rw [List.map_map, List.getElem?_map, hw]
    rfl
  · unfold values winners
    rw [List.map_map, List.getElem?_map, hw]
    rfl

/-- **A maximum selects the first of the largest.**  For totally ordered values, at every input of
    its size the layer records one cell and gives one value for every window: a cell of the window
    whose entry is that value, none of the window being larger, and all that come earlier, row by
    row, being smaller.  A pass over the layer records exactly these cells, under the index of the
    layer and nowhere else.  An input that orders the cells of every window in the same way, ties
    included, leaves the same record. -/
theorem selects_first (m : MaxPool) {x : List K} (hx : x.length = m.pooling.shape.input.size)
    (ht : Scalar.Total x) : ∃ (sels : List Int) (ys : List K),
    (Layer.maxPool m).branches x = ⟨none, some sels⟩ ∧ (Layer.maxPool m).values x = .ok ys ∧
      (sels.length = m.pooling.output.size ∧ ys.length = m.pooling.output.size) ∧
      (∀ o < m.pooling.output.size, ∃ (w : List Nat) (s : Nat) (best : K),
        m.pooling.windows[o]? = some w ∧ sels[o]? = some (s : Int) ∧ ys[o]? = some best ∧
          FirstMaximum m.pooling.shape.input x w s best) ∧
      (∀ t : Trace, ∃ t', Net.pass x t [.maxPool m] = .ok (ys, t') ∧
        t'.find? m.pooling.index = some ⟨none, some sels⟩ ∧
          ∀ i, i ≠ m.pooling.index → t'.find? i = t.find? i) ∧
      ∀ x' : List K, x'.length = m.pooling.shape.input.size → Scalar.Total x' →
        (∀ w ∈ m.pooling.windows, Alike x x' w) →
          (Layer.maxPool m).branches x' = (Layer.maxPool m).branches x := by
  have hvalues : (Layer.maxPool m).values x = .ok (m.values x) :=
    Layer.maxPool_values_ok_iff.2 ⟨hx, rfl⟩
  have hcount : (m.winners x).length = m.pooling.output.size := by
    unfold winners
    rw [List.length_map, Pooling.length_windows]
  refine ⟨(m.winners x).map Int.ofNat, m.values x, rfl, hvalues, ⟨?_, ?_⟩,
    fun o ho => selected hx ht ho, fun t => ?_, fun x' hx' ht' halike => ?_⟩
  · exact (List.length_map _).trans hcount
  · exact (List.length_map _).trans hcount
  · refine ⟨t.record m.pooling.index ⟨none, some ((m.winners x).map Int.ofNat)⟩, ?_,
      t.find?_record_self _ _, fun i hi => t.find?_record_ne (Ne.symm hi) _⟩
    unfold Net.pass
    rw [hvalues]
    rfl
  · have hsame : m.winners x' = m.winners x :=
      List.map_congr_left fun w hw => winner_congr hx hx' ht ht' hw (halike w hw)
    show (⟨none, some ((m.winners x').map Int.ofNat)⟩ : Branches) = ⟨none, some _⟩
    rw [hsame]

end MaxPool

/-- Heights over the rim and below it, on a square image: every window has a tie. -/
def Sieve.heights : List Extended :=
  [.finite 1, .finite 3, .infinite false, .finite 0,
    .finite 3, .finite 2, .infinite false, .infinite true,
    .infinite true, .infinite true, .finite 5, .finite 5,
    .infinite true, .infinite true, .finite 5, .finite 4]

/-- Other heights in the same order, window by window. -/
def Sieve.relief : List Extended :=
  [.finite 0, .finite 9, .finite 7, .finite 1,
    .finite 9, .finite 4, .finite 7, .finite 0,
    .finite 2, .finite 2, .finite 1, .finite 1,
    .finite 2, .finite 2, .finite 1, .infinite true]

instance Alike.decidable {K : Type} [Scalar K] (x x' : List K) (w : List Nat) :
    Decidable (Alike x x' w) :=
  inferInstanceAs (Decidable (∀ i ∈ w, ∀ j ∈ w, ∀ a ∈ x[i]?, ∀ b ∈ x[j]?, ∀ a' ∈ x'[i]?,
    ∀ b' ∈ x'[j]?, a ≤ b ↔ a' ≤ b'))

/-- Of four windows side by side the second has its maximum at infinity, and the third has no other
    cell than negative infinities; the first of equal cells is recorded every time. -/
theorem MaxPool.selects_first_heights :
    (Layer.maxPool Sieve.pool).branches Sieve.heights = ⟨none, some [1, 2, 8, 10]⟩ ∧
      (Layer.maxPool Sieve.pool).values Sieve.heights =
        .ok [.finite 3, .infinite false, .infinite true, .finite 5] ∧
      FirstMaximum Sieve.image Sieve.heights [2, 3, 6, 7] 2 (.infinite false) ∧
      (Layer.maxPool Sieve.pool).branches Sieve.relief = ⟨none, some [1, 2, 8, 10]⟩ := by
  have hsels : (Layer.maxPool Sieve.pool).branches Sieve.heights =
      ⟨none, some [1, 2, 8, 10]⟩ := by decide +kernel
  have hys : (Layer.maxPool Sieve.pool).values Sieve.heights =
      .ok [.finite 3, .infinite false, .infinite true, .finite 5] := by decide +kernel
  obtain ⟨sels, ys, hbranches, hvalues, -, hfirst, -, halike⟩ :=
    selects_first Sieve.pool (x := Sieve.heights) rfl (.extended (by decide))
  obtain rfl : sels = [1, 2, 8, 10] := by
    rw [hsels] at hbranches
    cases hbranches
    rfl
  obtain rfl := Except.ok.inj (hvalues.symm.trans hys)
  obtain ⟨w, s, best, hw, hs, hbest, h⟩ := hfirst 1 (by decide)
  obtain rfl : [2, 3, 6, 7] = w := Option.some.inj hw
  obtain rfl : 2 = s := Int.ofNat.inj (Option.some.inj hs)
  obtain rfl : Extended.infinite false = best := Option.some.inj hbest
  refine ⟨hsels, hys, h, ?_⟩
  rw [halike Sieve.relief rfl (.extended (by decide)) (by decide +kernel), hsels]

end Perturb
