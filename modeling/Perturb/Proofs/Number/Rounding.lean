/-
  What rounding to integers gives.

  `HalfEven q n` is the rule as one states it: no integer is nearer to `q` than `n`, and if `n` is
  half a unit away it is even.  The rule settles the integer (`HalfEven.unique`), and the program,
  which compares the fractional part with one half, follows it (`roundHalfEven_spec`).

  The rule keeps the order (`HalfEven.mono`), so what rounding does to an interval is decided at its
  ends (`rounds_into_iff`).
-/
import Mathlib.Algebra.Order.Ring.Abs
import Mathlib.Algebra.Ring.Int.Parity
import Perturb.Proofs.Exact
import Perturb.Number.Rounding

namespace Perturb.Number

/-- `n` is a nearest integer to `q`, the even one if two are equally near. -/
def HalfEven (q : Rat) (n : Int) : Prop := |q - n| ≤ 1 / 2 ∧ (|q - n| = 1 / 2 → Even n)

/-- Two neighbours are not both nearest and even. -/
theorem HalfEven.not_add_one {q : Rat} {n : Int} (h : HalfEven q n) : ¬ HalfEven q (n + 1) := by
  intro h'
  obtain ⟨-, hlow⟩ := abs_le.1 h.1
  obtain ⟨hup, -⟩ := abs_le.1 h'.1
  push_cast at hup
  have hq : q = n + 1 / 2 := by linarith
  have heven : Even n := h.2 (by rw [hq, add_sub_cancel_left]; exact abs_of_pos (by norm_num))
  have heven' : Even (n + 1) := by
    refine h'.2 ?_
    have hgap : q - ((n + 1 : Int) : Rat) = -(1 / 2) := by
      push_cast
      linarith
    rw [hgap, abs_neg]
    exact abs_of_pos (by norm_num)
  exact Int.even_add_one.1 heven' heven

/-- Only one integer is nearest and even. -/
theorem HalfEven.unique {q : Rat} {m n : Int} (hm : HalfEven q m) (hn : HalfEven q n) : m = n := by
  obtain ⟨hm₁, hm₂⟩ := abs_le.1 hm.1
  obtain ⟨hn₁, hn₂⟩ := abs_le.1 hn.1
  have hle : ((m - n : Int) : Rat) ≤ (1 : Int) := by
    push_cast
    linarith
  have hge : ((n - m : Int) : Rat) ≤ (1 : Int) := by
    push_cast
    linarith
  rw [Int.cast_le] at hle hge
  have hcases : m = n ∨ m = n + 1 ∨ n = m + 1 := by omega
  rcases hcases with h | h | h
  · exact h
  · exact absurd (h ▸ hm) hn.not_add_one
  · exact absurd (h ▸ hn) hm.not_add_one

/-- Rounding keeps the order. -/
theorem HalfEven.mono {q r : Rat} {m n : Int} (hm : HalfEven q m) (hn : HalfEven r n)
    (h : q ≤ r) : m ≤ n := by
  by_contra hless
  have hnext : ((n + 1 : Int) : Rat) ≤ m := Int.cast_le.2 (by omega)
  push_cast at hnext
  obtain ⟨hlow, -⟩ := abs_le.1 hm.1
  obtain ⟨-, hup⟩ := abs_le.1 hn.1
  -- there is no room between the two, so they are one value, rounded in two ways
  have hsame : q = r := by linarith
  rw [hsame] at hm
  have heq : m = n := hm.unique hn
  omega

/-- **Rounding** gives the nearest integer, a half going to the even neighbour. -/
theorem roundHalfEven_spec (q : Rat) : HalfEven q (roundHalfEven q) := by
  have hlow : (q.floor : Rat) ≤ q := Rat.floor_le q
  have hup : q < (q.floor : Rat) + 1 := by
    have h := Rat.lt_floor_add_one q
    push_cast at h
    exact h
  unfold HalfEven roundHalfEven
  dsimp only
  split_ifs with hless hmore heven
  · rw [abs_of_nonneg (by linarith)]
    exact ⟨by linarith, fun h => by linarith⟩
  · push_cast
    rw [abs_of_nonpos (by linarith)]
    exact ⟨by linarith, fun h => by linarith⟩
  · rw [abs_of_nonneg (by linarith)]
    exact ⟨by linarith, fun _ => Int.even_iff.2 heven⟩
  · push_cast
    rw [abs_of_nonpos (by linarith)]
    exact ⟨by linarith, fun _ => Int.even_add_one.2 fun h => heven (Int.even_iff.1 h)⟩

/-- An integer is rounded to itself. -/
theorem roundHalfEven_intCast (z : Int) : roundHalfEven z = z := by
  have hself : HalfEven z z := by
    unfold HalfEven
    rw [sub_self, abs_zero]
    exact ⟨by norm_num, fun h => by norm_num at h⟩
  exact (roundHalfEven_spec z).unique hself

/-- **Rounding and intervals.**  All values of an interval are rounded to values of it exactly if
    its two ends are. -/
theorem rounds_into_iff {lo hi : Rat} (h : lo ≤ hi) :
    (∀ a, lo ≤ a → a ≤ hi → lo ≤ roundHalfEven a ∧ (roundHalfEven a : Rat) ≤ hi) ↔
      lo ≤ roundHalfEven lo ∧ (roundHalfEven hi : Rat) ≤ hi := by
  constructor
  · intro hall
    exact ⟨(hall lo (le_refl lo) h).1, (hall hi h (le_refl hi)).2⟩
  · rintro ⟨hlo, hhi⟩ a hla hah
    have hleast : ((roundHalfEven lo : Int) : Rat) ≤ roundHalfEven a :=
      Int.cast_le.2 ((roundHalfEven_spec lo).mono (roundHalfEven_spec a) hla)
    have hmost : ((roundHalfEven a : Int) : Rat) ≤ roundHalfEven hi :=
      Int.cast_le.2 ((roundHalfEven_spec a).mono (roundHalfEven_spec hi) hah)
    exact ⟨hlo.trans hleast, hmost.trans hhi⟩

end Perturb.Number
