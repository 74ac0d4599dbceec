/-
  How many windows lie along an axis.

  The size rule divides once, rounds once and takes at most one window back.  What it should count
  is said without dividing: the windows that are placed on the padded axis (`Axis.Placed`) and start
  before its trailing padding (`Axis.Inside`).

  1. **The count** — the placed windows are the first `m`, those that start inside are the first
     `b`, and the rule gives `m`, or `m - 1` if window `m - 1` does not start inside
     (`Axis.windowCount_drops_last`).  So it gives `min m b`, as it should, exactly if `m ≤ b + 1`;
     a padding that is not larger than the kernel is enough for that.

  2. **What is covered** — rounded up, and with a stride not larger than the kernel, every cell of
     the axis lies in a counted window (`Axis.exists_window`).
-/
import Mathlib.Data.Set.Card
import Perturb.Proofs.Net.Reference

namespace Perturb

/-- As many numbers lie below a number as it says. -/
theorem encard_setOf_lt (n : Nat) : {t : Nat | t < n}.encard = n := by
  have hrange : {t : Nat | t < n} = ((Finset.range n : Finset Nat) : Set Nat) := by
    ext t
    simp
  rw [hrange, Set.encard_coe_eq_coe_finsetCard, Finset.card_range]

namespace Axis

variable {a : Axis} {n : Nat} {roundUp : Bool}

/-- Window `t` is placed on `n` cells.  Rounding down, it fits the padded axis; rounding up, it is
    the first one, or the one before it ends before the padded axis does. -/
def Placed (a : Axis) (roundUp : Bool) (n t : Nat) : Prop :=
  if roundUp then t = 0 ∨ ((t : Int) - 1) * a.stride + a.kernel < n + 2 * a.padding
  else t * a.stride + a.kernel ≤ n + 2 * a.padding

/-- Window `t` starts before the trailing padding of `n` cells. -/
def Inside (a : Axis) (n t : Nat) : Prop := t * a.stride < n + a.padding

/-- A later window starts later. -/
theorem mul_stride_mono (ha : a.Regular) {t u : Int} (h : t ≤ u) :
    t * a.stride ≤ u * a.stride :=
  Int.mul_le_mul_of_nonneg_right h ha.stride_pos.le

/-! ## The count -/

/-- The placed windows are the first so many. -/
theorem exists_placed (roundUp : Bool) (ha : a.Regular) (hfits : a.kernel ≤ n + 2 * a.padding) :
    ∃ m : Nat, 0 < m ∧ (∀ t, a.Placed roundUp n t ↔ t < m) ∧
      windowCount Rat a.kernel n a.stride a.padding roundUp =
        .ok (if n + a.padding ≤ ((m : Int) - 1) * a.stride then (m : Int) - 1 else m) := by
  obtain ⟨m, hrule, hdown, hup⟩ := windowCount_spec ha.stride_pos a.kernel n a.padding roundUp
  cases roundUp with
  | false =>
    obtain ⟨hlow, hhigh⟩ := hdown rfl
    have hm : 0 < m := by
      by_contra hm
      have := mul_stride_mono ha (show m ≤ 0 by omega)
      omega
    obtain ⟨m, rfl⟩ := Int.eq_ofNat_of_zero_le hm.le
    refine ⟨m, by omega, fun t => ?_, hrule⟩
    show (t : Int) * a.stride + a.kernel ≤ n + 2 * a.padding ↔ t < m
    constructor
    · intro h
      by_contra hlt
      have := mul_stride_mono ha (show (m : Int) ≤ t by omega)
      omega
    · intro h
      have := mul_stride_mono ha (show (t : Int) ≤ m - 1 by omega)
      omega
  | true =>
    obtain ⟨hlow, hhigh⟩ := hup rfl
    have hm : 0 < m := by
      by_contra hm
      have := mul_stride_mono ha (show m - 1 ≤ -1 by omega)
      have := ha.2.1
      omega
    obtain ⟨m, rfl⟩ := Int.eq_ofNat_of_zero_le hm.le
    refine ⟨m, by omega, fun t => ?_, hrule⟩
    show t = 0 ∨ ((t : Int) - 1) * a.stride + a.kernel < n + 2 * a.padding ↔ t < m
    constructor
    · rintro (rfl | h)
      · omega
      · by_contra hlt
        have := mul_stride_mono ha (show (m : Int) - 1 ≤ t - 1 by omega)
        omega
    · intro h
      rcases Nat.eq_zero_or_pos t with rfl | ht
      · exact Or.inl rfl
      · have := mul_stride_mono ha (show (t : Int) - 1 ≤ m - 2 by omega)
        exact Or.inr (by omega)

/-- The windows that start inside are the first so many, and there is one. -/
theorem exists_inside (ha : a.Regular) (hn : 0 < n) :
    ∃ b : Nat, 0 < b ∧ ∀ t, a.Inside n t ↔ t < b := by
  have hs : 1 ≤ a.stride := ha.2.1
  have hp : 0 ≤ a.padding := ha.2.2
  have hfar : ∃ t, ¬ a.Inside n t := by
    refine ⟨(n + a.padding).toNat, ?_⟩
    unfold Inside
    nlinarith [Int.self_le_toNat (n + a.padding)]
  classical
  obtain ⟨b, hb, hbefore⟩ : ∃ b, ¬ a.Inside n b ∧ ∀ t < b, a.Inside n t :=
    ⟨Nat.find hfar, Nat.find_spec hfar, fun t ht => not_not.1 (Nat.find_min hfar ht)⟩
  refine ⟨b, ?_, fun t => ⟨fun h => ?_, hbefore t⟩⟩
  · rcases Nat.eq_zero_or_pos b with rfl | hpos
    · unfold Inside at hb
      omega
    · exact hpos
  · by_contra hlt
    have hlater := mul_stride_mono ha (show (b : Int) ≤ t by omega)
    unfold Inside at h hb
    omega

/-- A placed window that is followed by another one starts inside, if the padding is not larger than
    the kernel. -/
theorem inside_of_placed_succ (ha : a.Regular) (hp : a.padding ≤ a.kernel) {t : Nat}
    (h : a.Placed roundUp n (t + 1)) : a.Inside n t := by
  have hs := ha.2.1
  have hstep : ((t + 1 : Nat) : Int) * a.stride = t * a.stride + a.stride := by
    push_cast
    ring
  unfold Inside
  cases roundUp with
  | false =>
    have h : ((t + 1 : Nat) : Int) * a.stride + a.kernel ≤ n + 2 * a.padding := h
    omega
  | true =>
    rcases h with h | h
    · cases h
    · rw [Int.sub_mul, hstep, Int.one_mul] at h
      omega

/-- A counted window starts inside, if the padding is not larger than the kernel. -/
theorem inside_of_lt (ha : a.Regular) (hp : a.padding ≤ a.kernel) {count : Int}
    (h : windowCount Rat a.kernel n a.stride a.padding roundUp = .ok count) {t : Nat}
    (ht : (t : Int) < count) : a.Inside n t := by
  obtain ⟨m, hrule, hdown, hup⟩ := windowCount_spec ha.stride_pos a.kernel n a.padding roundUp
  have hcount := Except.ok.inj (h.symm.trans hrule)
  have hs := ha.2.1
  -- the window before the last placed one starts inside, whichever way the quotient is rounded
  have hbefore : (m - 2) * a.stride < n + a.padding := by
    cases roundUp with
    | false =>
      have hlow := (hdown rfl).1
      have hstep : (m - 1) * a.stride = (m - 2) * a.stride + a.stride := by ring
      omega
    | true =>
      have hlow := (hup rfl).1
      omega
  unfold Inside
  split at hcount
  · have := mul_stride_mono ha (show (t : Int) ≤ m - 2 by omega)
    omega
  · have := mul_stride_mono ha (show (t : Int) ≤ m - 1 by omega)
    omega

/-- **The size rule takes one window back.**  It counts the placed windows, except the last one if
    that does not start inside.  This is the number of windows that are placed and start inside
    exactly if every placed window that is not the last one starts inside, which is so if the
    padding is not larger than the kernel; then no counted window starts in the trailing padding. -/
theorem windowCount_drops_last (ha : a.Regular) (hn : 0 < n)
    (hfits : a.kernel ≤ n + 2 * a.padding) (roundUp : Bool) :
    ∃ count : Nat, windowCount Rat a.kernel n a.stride a.padding roundUp = .ok (count : Int) ∧
      (∀ t, t < count ↔
        a.Placed roundUp n t ∧ (a.Inside n t ∨ a.Placed roundUp n (t + 1))) ∧
      ({t | a.Placed roundUp n t ∧ a.Inside n t}.encard = count ↔
        ∀ t, a.Placed roundUp n (t + 1) → a.Inside n t) ∧
      (a.padding ≤ a.kernel → {t | a.Placed roundUp n t ∧ a.Inside n t}.encard = count ∧
        ∀ t < count, a.Inside n t) := by
  obtain ⟨m, hm, hplaced, hrule⟩ := exists_placed roundUp ha hfits
  obtain ⟨b, hb, hinside⟩ := exists_inside ha hn
  have hlast : (n + a.padding ≤ ((m : Int) - 1) * a.stride) ↔ b ≤ m - 1 := by
    have h := hinside (m - 1)
    unfold Inside at h
    rw [Nat.cast_sub hm, Nat.cast_one] at h
    omega
  have hset : {t | a.Placed roundUp n t ∧ a.Inside n t}.encard = (min m b : Nat) := by
    rw [← encard_setOf_lt]
    congr 1
    ext t
    simp only [Set.mem_ofPred_eq, hplaced, hinside, lt_min_iff]
  have hcount : windowCount Rat a.kernel n a.stride a.padding roundUp =
      .ok ((if b ≤ m - 1 then m - 1 else m : Nat) : Int) := by
    rw [hrule]
    simp only [hlast]
    split
    · rw [Nat.cast_sub hm, Nat.cast_one]
    · rfl
  have hagree : {t | a.Placed roundUp n t ∧ a.Inside n t}.encard =
      ((if b ≤ m - 1 then m - 1 else m : Nat) : ℕ∞) ↔
        ∀ t, a.Placed roundUp n (t + 1) → a.Inside n t := by
    rw [hset, Nat.cast_inj]
    simp only [hplaced, hinside]
    constructor
    · intro h t ht
      split at h <;> omega
    · intro h
      have hbefore := h (m - 2)
      split <;> omega
  refine ⟨_, hcount, fun t => ?_, hagree, fun hp => ⟨?_, fun t ht => ?_⟩⟩
  · simp only [hplaced, hinside]
    split <;> omega
  · exact hagree.2 fun t => inside_of_placed_succ ha hp
  · exact inside_of_lt ha hp hcount (by exact_mod_cast ht)

/-- Windows of two cells, three apart, on four cells with one cell of padding: a third window is
    placed, but it would start at the trailing padding. -/
theorem windowCount_drops_last_apart :
    (Axis.mk 2 3 1).Regular ∧ windowCount Rat 2 4 3 1 true = .ok 2 ∧
      {t | (Axis.mk 2 3 1).Placed true 4 t ∧ (Axis.mk 2 3 1).Inside 4 t}.encard = (2 : Nat) ∧
      (Axis.mk 2 3 1).Placed true 4 2 := by
  have ha : (Axis.mk 2 3 1).Regular := by decide
  obtain ⟨count, hcount, -, -, hall⟩ :=
    windowCount_drops_last (a := ⟨2, 3, 1⟩) (n := 4) ha (by decide) (by decide) true
  have htwo : windowCount Rat 2 4 3 1 true = .ok 2 := by decide +kernel
  obtain rfl : count = 2 := by
    have := Except.ok.inj (hcount.symm.trans htwo)
    omega
  exact ⟨ha, htwo, (hall (by decide)).1, Or.inr (by decide)⟩

/-- **Only one window is taken back.**  On one cell with two cells of padding on either side, five
    windows of one cell are placed and two of them start in the trailing padding; the rule counts
    four. -/
theorem windowCount_in_padding :
    windowCount Rat 1 1 1 2 false = .ok (4 : Nat) ∧
      {t | (Axis.mk 1 1 2).Placed false 1 t ∧ (Axis.mk 1 1 2).Inside 1 t}.encard = (3 : Nat) ∧
      ¬ (Axis.mk 1 1 2).Inside 1 3 := by
  refine ⟨by decide +kernel, ?_, by unfold Inside; decide⟩
  rw [← encard_setOf_lt]
  congr 1
  ext t
  simp only [Set.mem_ofPred_eq, Placed, Inside, Bool.false_eq_true, if_false]
  omega

/-! ## What is covered -/

/-- Rounded up, the last counted window reaches the end of the axis or a stride beyond its start
    does. -/
theorem lt_last_add (ha : a.Regular) (hs : a.stride ≤ a.kernel) {count : Int}
    (h : windowCount Rat a.kernel n a.stride a.padding true = .ok count) :
    n + a.padding ≤ (count - 1) * a.stride + a.kernel := by
  obtain ⟨m, hrule, -, hup⟩ := windowCount_spec ha.stride_pos a.kernel n a.padding true
  obtain ⟨-, hhigh⟩ := hup rfl
  have hp := ha.2.2
  have hcount := Except.ok.inj (h.symm.trans hrule)
  split at hcount
  · -- the window taken back starts beyond the axis, a stride after the last one left
    subst hcount
    have hstep : (m - 1) * a.stride = (m - 1 - 1) * a.stride + a.stride := by ring
    omega
  · subst hcount
    omega

/-- **No cell is left out.**  Rounded up, and with a stride not larger than the kernel, every cell
    of the axis lies in a counted window. -/
theorem exists_window (ha : a.Regular) (hs : a.stride ≤ a.kernel) {count : Int}
    (h : windowCount Rat a.kernel n a.stride a.padding true = .ok count) (hcount : 1 ≤ count)
    {cell : Nat} (hcell : cell < n) :
    ∃ t : Nat, (t : Int) < count ∧ a.start t ≤ cell ∧ cell < a.start t + a.kernel := by
  have hlast := lt_last_add ha hs h
  have hpos : 0 < a.stride := ha.2.1
  have hp := ha.2.2
  -- the last window that starts no later than the cell
  have hlow := Int.ediv_mul_le (cell + a.padding) hpos.ne'
  have hnext := Int.lt_ediv_add_one_mul_self (cell + a.padding) hpos
  have hq : 0 ≤ (cell + a.padding) / a.stride := Int.ediv_nonneg (by omega) hpos.le
  generalize (cell + a.padding) / a.stride = q at hlow hnext hq
  rw [Int.add_mul, Int.one_mul] at hnext
  unfold start
  rcases le_or_gt q (count - 1) with hle | hgt
  · refine ⟨q.toNat, ?_⟩
    rw [Int.toNat_of_nonneg hq]
    omega
  · have hmono := mul_stride_mono ha hgt.le
    refine ⟨(count - 1).toNat, ?_⟩
    rw [Int.toNat_of_nonneg (by omega)]
    omega

end Axis

end Perturb
