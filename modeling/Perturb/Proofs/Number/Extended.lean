/-
  Numbers with infinities, and the value that is none.

  What a file writes as a number need not be a fraction: it may be infinite, or "not a number".
  `Extended` is what there is to read, fractions without rounding and the other three, and its order
  is the one floating-point numbers have: "not a number" is neither below, nor above, nor equal to
  anything, itself included.  So of two extended numbers one is below the other or they are equal
  unless one of them is no number (`Extended.not_lt_iff`, `Extended.not_le_iff`), and this exception
  is the whole difference between testing that a value is in range and testing that it is not out of
  it.

  `Scalar.Reading` says of scalars that they can be read in this way: comparing them is comparing
  what is read.  It is what the standard for floating-point numbers says of comparisons; fractions
  have it, and so do extended numbers themselves, which are scalars, with the usual rules for
  infinities.
-/
import Perturb.Proofs.Exact

namespace Perturb

/-- A fraction, an infinity of either sign, or no number. -/
inductive Extended where
  | finite (q : Rat)
  | infinite (negative : Bool)
  | nan
  deriving DecidableEq

namespace Extended

/-! ## Order -/

/-- Whether an extended number is strictly below another. -/
def below : Extended → Extended → Bool
  | .finite p, .finite q => decide (p < q)
  | .finite _, .infinite negative => !negative
  | .infinite negative, .finite _ => negative
  | .infinite negative, .infinite negative' => negative && !negative'
  | .nan, _ => false
  | _, .nan => false

instance instLT : LT Extended := ⟨fun a b => below a b = true⟩

/-- At most is below or equal, as far as something is equal to itself. -/
instance instLE : LE Extended := ⟨fun a b => a < b ∨ a = b ∧ a ≠ .nan⟩

instance decideLt (a b : Extended) : Decidable (a < b) :=
  inferInstanceAs (Decidable (below a b = true))

instance decideLe (a b : Extended) : Decidable (a ≤ b) :=
  inferInstanceAs (Decidable (a < b ∨ a = b ∧ a ≠ .nan))

variable {a b : Extended}

theorem lt_iff_below : a < b ↔ below a b = true := Iff.rfl

theorem le_iff : a ≤ b ↔ a < b ∨ a = b ∧ a ≠ .nan := Iff.rfl

@[simp] theorem finite_lt {p q : Rat} : finite p < finite q ↔ p < q := decide_eq_true_iff

@[simp] theorem finite_le {p q : Rat} : finite p ≤ finite q ↔ p ≤ q := by
  rw [le_iff, finite_lt, le_iff_lt_or_eq, Extended.finite.injEq]
  simp

@[simp] theorem not_nan_lt : ¬ nan < b := Bool.false_ne_true

@[simp] theorem not_lt_nan : ¬ a < nan := by
  cases a <;> exact Bool.false_ne_true

theorem not_nan_le : ¬ nan ≤ b := by
  rintro (h | ⟨-, h⟩)
  · exact not_nan_lt h
  · exact h rfl

theorem not_le_nan : ¬ a ≤ nan := by
  rintro (h | ⟨rfl, h⟩)
  · exact not_lt_nan h
  · exact h rfl

/-- Nothing is below what is below it. -/
theorem lt_asymm (h : a < b) : ¬ b < a := by
  rw [lt_iff_below] at h ⊢
  cases a with
  | nan => cases h
  | finite p =>
    cases b with
    | nan => cases h
    | finite q => exact mt finite_lt.1 (not_lt_of_gt (finite_lt.1 h))
    | infinite negative => cases negative <;> simp_all [below]
  | infinite negative =>
    cases b with
    | nan => cases h
    | finite q => cases negative <;> simp_all [below]
    | infinite negative' => cases negative <;> cases negative' <;> simp_all [below]

/-- Two extended numbers are in order, one way or the other, unless one is no number. -/
theorem lt_or_le (ha : a ≠ .nan) (hb : b ≠ .nan) : a < b ∨ b ≤ a := by
  cases a with
  | nan => exact absurd rfl ha
  | finite p =>
    cases b with
    | nan => exact absurd rfl hb
    | finite q => exact (lt_or_ge p q).imp finite_lt.2 finite_le.2
    | infinite negative =>
      cases negative with
      | false => exact Or.inl rfl
      | true => exact Or.inr (Or.inl rfl)
  | infinite negative =>
    cases b with
    | nan => exact absurd rfl hb
    | finite q =>
      cases negative with
      | false => exact Or.inr (Or.inl rfl)
      | true => exact Or.inl rfl
    | infinite negative' => cases negative <;> cases negative' <;> decide

/-- What is below something is not at least as large. -/
theorem not_le_of_lt (h : a < b) : ¬ b ≤ a := by
  rintro (hba | ⟨rfl, -⟩)
  · exact lt_asymm h hba
  · exact lt_asymm h h

/-- What is not below is at least as large, or there is no number. -/
theorem not_lt_iff : ¬ a < b ↔ b ≤ a ∨ a = .nan ∨ b = .nan := by
  constructor
  · intro h
    by_cases ha : a = .nan
    · exact Or.inr (Or.inl ha)
    · by_cases hb : b = .nan
      · exact Or.inr (Or.inr hb)
      · exact Or.inl ((lt_or_le ha hb).resolve_left h)
  · rintro (h | rfl | rfl)
    · exact fun hlt => not_le_of_lt hlt h
    · exact not_nan_lt
    · exact not_lt_nan

/-- What is not at most is above, or there is no number. -/
theorem not_le_iff : ¬ a ≤ b ↔ b < a ∨ a = .nan ∨ b = .nan := by
  constructor
  · intro h
    by_cases ha : a = .nan
    · exact Or.inr (Or.inl ha)
    · by_cases hb : b = .nan
      · exact Or.inr (Or.inr hb)
      · exact Or.inl ((lt_or_le hb ha).resolve_right h)
  · rintro (h | rfl | rfl)
    · exact not_le_of_lt h
    · exact not_nan_le
    · exact not_le_nan

/-- Nothing is above the positive infinity, and nothing below the negative one. -/
theorem not_infinite_lt : ¬ infinite false < b := by
  cases b <;> exact Bool.false_ne_true

theorem not_lt_infinite : ¬ a < infinite true := by
  cases a with
  | infinite negative => cases negative <;> exact Bool.false_ne_true
  | _ => exact Bool.false_ne_true

/-- What is below something is below what that is below. -/
theorem lt_trans {c : Extended} (hab : a < b) (hbc : b < c) : a < c := by
  cases b with
  | nan => exact absurd hab not_lt_nan
  | infinite negative =>
    cases negative with
    | false => exact absurd hbc not_infinite_lt
    | true => exact absurd hab not_lt_infinite
  | finite q =>
    cases a with
    | nan => exact absurd hab not_nan_lt
    | finite p =>
      cases c with
      | nan => exact absurd hbc not_lt_nan
      | finite r => exact finite_lt.2 ((finite_lt.1 hab).trans (finite_lt.1 hbc))
      | infinite negative => exact hbc
    | infinite negative =>
      have hneg : negative = true := hab
      cases c with
      | nan => exact absurd hbc not_lt_nan
      | finite r => exact hab
      | infinite negative' => exact Bool.and_eq_true_iff.2 ⟨hneg, hbc⟩

/-- What is at most something is at most what that is at most. -/
theorem le_trans {c : Extended} (hab : a ≤ b) (hbc : b ≤ c) : a ≤ c := by
  rcases hab with hab | ⟨rfl, -⟩
  · rcases hbc with hbc | ⟨rfl, -⟩
    · exact Or.inl (lt_trans hab hbc)
    · exact Or.inl hab
  · exact hbc

/-! ## Arithmetic -/

/-- The value with its sign changed. -/
def neg : Extended → Extended
  | .finite q => .finite (-q)
  | .infinite negative => .infinite !negative
  | .nan => .nan

/-- The sum; infinities of different signs have none. -/
def add : Extended → Extended → Extended
  | .finite p, .finite q => .finite (p + q)
  | .finite _, .infinite negative => .infinite negative
  | .infinite negative, .finite _ => .infinite negative
  | .infinite negative, .infinite negative' =>
    if negative = negative' then .infinite negative else .nan
  | .nan, _ => .nan
  | _, .nan => .nan

/-- The product; zero times an infinity is none. -/
def mul : Extended → Extended → Extended
  | .finite p, .finite q => .finite (p * q)
  | .finite p, .infinite negative => if p = 0 then .nan else .infinite (decide (p < 0) != negative)
  | .infinite negative, .finite q => if q = 0 then .nan else .infinite (negative != decide (q < 0))
  | .infinite negative, .infinite negative' => .infinite (negative != negative')
  | .nan, _ => .nan
  | _, .nan => .nan

/-- The quotient; zero divided by zero, or one infinity by another, is none. -/
def div : Extended → Extended → Extended
  | .finite p, .finite q =>
    if q = 0 then if p = 0 then .nan else .infinite (decide (p < 0)) else .finite (p / q)
  | .finite _, .infinite _ => .finite 0
  | .infinite negative, .finite q => .infinite (negative != decide (q < 0))
  | .infinite _, .infinite _ => .nan
  | .nan, _ => .nan
  | _, .nan => .nan

/-- The value of a fraction. -/
def toRat? : Extended → Option Rat
  | .finite q => some q
  | _ => none

/-- The value as it is written. -/
def text : Extended → String
  | .finite q => Scalar.text q
  | .infinite false => "inf"
  | .infinite true => "-inf"
  | .nan => "nan"

end Extended

/-- Extended numbers are scalars. -/
instance Scalar.instExtended : Scalar Extended where
  zero := .finite 0
  one := .finite 1
  add := .add
  sub a b := a.add b.neg
  mul := .mul
  neg := .neg
  div := .div
  toLE := Extended.instLE
  toLT := Extended.instLT
  beq a b := decide (a = b ∧ a ≠ .nan)
  decideLe := Extended.decideLe
  decideLt := Extended.decideLt
  toRat? := Extended.toRat?
  ofRat := .finite
  text := Extended.text

/-! ## Reading scalars -/

/-- Scalars that can be read as extended numbers, such that comparing scalars is comparing what is
    read. -/
class Scalar.Reading (K : Type) [Scalar K] where
  /-- What a scalar is read as. -/
  read : K → Extended
  lt_iff : ∀ a b : K, a < b ↔ read a < read b
  beq_iff : ∀ a b : K, (a == b) = true ↔ read a = read b ∧ read a ≠ .nan
  toRat?_eq : ∀ a : K, Scalar.toRat? a = (read a).toRat?
  read_zero : read 0 = .finite 0
  read_one : read 1 = .finite 1

/-- Fractions are read as they are. -/
instance Scalar.Reading.instRat : Scalar.Reading Rat where
  read := .finite
  lt_iff _ _ := Extended.finite_lt.symm
  beq_iff _ _ := by simp
  toRat?_eq _ := rfl
  read_zero := rfl
  read_one := rfl

/-- So are extended numbers. -/
instance Scalar.Reading.instExtended : Scalar.Reading Extended where
  read := id
  lt_iff _ _ := Iff.rfl
  beq_iff _ _ := decide_eq_true_iff
  toRat?_eq _ := rfl
  read_zero := rfl
  read_one := rfl

end Perturb
