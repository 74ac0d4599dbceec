/-
  The limits of the variables of a program, at fractions.

  A session limits its variables once, when it is begun: a pixel to the clipped interval around its
  origin, every other variable to the range of values, and all of them to the integers if that is
  asked for.  Here is what a point has to do to respect that.

  Clipping has a second branch, for an interval of which nothing would be left.  An origin that lies
  in the range itself never takes it (`clippedInterval_of_mem`), so there a pixel is limited on both
  sides by whichever is nearer, the end of the range or the bound.
-/
import Perturb.Proofs.Program.Export

namespace Perturb

/-- Around a value of the range the interval is clipped, never given up. -/
theorem clippedInterval_of_mem {bound least most o : Rat} (hb : 0 ≤ bound) (hleast : least ≤ o)
    (hmost : o ≤ most) :
    clippedInterval bound least most o = (max least (o - bound), min most (o + bound)) := by
  have hlo : max least (o - bound) ≤ o := max_le hleast (by linarith)
  have hhi : o ≤ min most (o + bound) := le_min hmost (by linarith)
  unfold clippedInterval
  simp only [Scalar.larger_rat, Scalar.smaller_rat]
  rw [if_neg (not_lt.2 (hlo.trans hhi))]

namespace Program

/-! ## One variable -/

/-- A value lies between the bounds of a variable; whether it has to be an integer is not asked. -/
def Between (x : Variable Rat) (a : Rat) : Prop := (∀ lo ∈ x.lo, lo ≤ a) ∧ ∀ hi ∈ x.hi, a ≤ hi

instance decidableBetween (x : Variable Rat) (a : Rat) : Decidable (Between x a) :=
  inferInstanceAs (Decidable ((∀ lo ∈ x.lo, lo ≤ a) ∧ ∀ hi ∈ x.hi, a ≤ hi))

theorem withinLimits_iff {x : Variable Rat} {a : Rat} :
    withinLimits x a ↔ Between x a ∧ (x.integral = true → ∃ z : Int, a = z) :=
  and_assoc.symm

variable {origin : List Rat} {bound least most : Rat} {integrality : Bool}

/-- The bounds of a pixel are the interval around its origin. -/
theorem between_clipped_iff {i : Nat} {o : Rat} (ho : origin[i]? = some o) {a : Rat} :
    Between (declared (clippedBounds origin bound least most) least most integrality i) a ↔
      (clippedInterval bound least most o).1 ≤ a ∧ a ≤ (clippedInterval bound least most o).2 := by
  unfold Between declared clippedBounds
  rw [List.getElem?_map, ho, Option.map_some]
  simp

/-- If its origin lies in the range, they are what the bound and the range leave. -/
theorem between_pixel_iff (hb : 0 ≤ bound) {i : Nat} {o : Rat} (ho : origin[i]? = some o)
    (hleast : least ≤ o) (hmost : o ≤ most) {a : Rat} :
    Between (declared (clippedBounds origin bound least most) least most integrality i) a ↔
      max least (o - bound) ≤ a ∧ a ≤ min most (o + bound) := by
  rw [between_clipped_iff ho, clippedInterval_of_mem hb hleast hmost]

/-- The bounds of a variable that is no pixel. -/
theorem between_other_iff {i : Nat} (hi : origin.length ≤ i) {a : Rat} :
    Between (declared (clippedBounds origin bound least most) least most integrality i) a ↔
      least ≤ a ∧ a ≤ most := by
  unfold Between declared clippedBounds
  rw [List.getElem?_map, List.getElem?_eq_none hi]
  simp

/-! ## All variables -/

/-- A point has a value between the bounds of every variable. -/
def Bounded (vars : List (Variable Rat)) (x : List Rat) : Prop :=
  x.length = vars.length ∧ ∀ (i : Nat) (v : Variable Rat) (a : Rat),
    vars[i]? = some v → x[i]? = some a → Between v a

/-- Points and variables can be compared pair by pair. -/
theorem bounded_iff_zip {vars : List (Variable Rat)} {x : List Rat} :
    Bounded vars x ↔ x.length = vars.length ∧ ∀ e ∈ List.zip vars x, Between e.1 e.2 := by
  refine and_congr_right fun _ => ⟨fun h e he => ?_, fun h i v a hv ha => ?_⟩
  · obtain ⟨i, hi⟩ := List.mem_iff_getElem?.1 he
    obtain ⟨hv, ha⟩ := List.getElem?_zip_eq_some.1 hi
    exact h i _ _ hv ha
  · have hmem : (v, a) ∈ List.zip vars x :=
      List.mem_iff_getElem?.2 ⟨i, List.getElem?_zip_eq_some.2 ⟨hv, ha⟩⟩
    exact h (v, a) hmem

instance decidableBounded (vars : List (Variable Rat)) (x : List Rat) :
    Decidable (Bounded vars x) := decidable_of_iff' _ bounded_iff_zip

variable {n : Nat} {intervals : List (Rat × Rat)}

theorem getElem?_begun_vars {i : Nat} (hi : i < n) :
    (begun n intervals least most integrality).vars[i]? =
      some (declared intervals least most integrality i) := by
  show ((List.range n).map _)[i]? = _
  rw [List.getElem?_map, List.getElem?_range hi]
  rfl

/-- What is asked of every variable of a program that was begun is asked of the declared ones. -/
theorem forall_begun_iff {P : Variable Rat → Rat → Prop} {v : Vector Rat n} :
    (v.toList.length = (begun n intervals least most integrality).vars.length ∧
      ∀ (i : Nat) (x : Variable Rat) (a : Rat),
        (begun n intervals least most integrality).vars[i]? = some x →
        v.toList[i]? = some a → P x a) ↔
      ∀ i (h : i < n), P (declared intervals least most integrality i) v[i] := by
  constructor
  · rintro ⟨-, hall⟩ i hi
    exact hall i _ _ (getElem?_begun_vars hi) (by simp [hi])
  · intro h
    refine ⟨by simp [begun], fun i x a hx ha => ?_⟩
    obtain ⟨hi, ha⟩ := List.getElem?_eq_some_iff.1 ha
    have hi : i < n := by simpa using hi
    cases (getElem?_begun_vars hi).symm.trans hx
    rw [Vector.getElem_toList] at ha
    exact ha ▸ h i hi

/-- What the variables of a program that was begun allow. -/
theorem inLimits_begun_iff {v : Vector Rat n} :
    InLimits (begun n intervals least most integrality).vars v.toList ↔
      ∀ i (h : i < n), withinLimits (declared intervals least most integrality i) v[i] :=
  forall_begun_iff

/-- Where the bounds of a program that was begun lie. -/
theorem bounded_begun_iff {v : Vector Rat n} :
    Bounded (begun n intervals least most integrality).vars v.toList ↔
      ∀ i (h : i < n), Between (declared intervals least most integrality i) v[i] :=
  forall_begun_iff

end Program

end Perturb
