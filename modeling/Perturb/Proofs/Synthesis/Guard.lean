/-
  When the raised pixel leaves something to find.

  If candidates are to be rounded, one drawn pixel has to lie at least a step above its origin.  The
  session, which knows nothing of that, has limited the same pixel to the clipped interval around
  its origin.  The two meet exactly if the step is within the bound and leads no further than the
  top of the range (`raised_satisfiable_iff`): the pixel at the upper end of its interval is the
  best there is, and no other variable matters.

  So a drawn pixel that is within a step of the top makes the program infeasible on its own, however
  wide the range is below it.
-/
import Perturb.Proofs.Config.Options
import Perturb.Proofs.Program.Limits
import Perturb.Proofs.Synthesis.Problem

namespace Perturb

/-- If the draw and both lists have the pixel, the constraint is that of this pixel. -/
theorem Formula.raised_eq {K S : Type} [Scalar K] [Source S K] {n i : Nat}
    {inputs : List (Affine K n)} {origin : List K} {draws left : S} {x : Affine K n} {o : K}
    (step : K) (hdraw : Source.below draws inputs.length = .ok (i, left))
    (hx : inputs[i]? = some x) (ho : origin[i]? = some o) :
    raised inputs origin draws step = .ok ([.of (x.addScalar (-(o + step))) .ge], left) := by
  unfold raised
  rw [hdraw, Outcome.ok_bind]
  show (pick inputs (Int.ofNat i) >>= _) = _
  rw [Program.pick_ofNat, hx, Outcome.ok_bind, Program.pick_ofNat, ho]
  rfl

namespace Session

section

variable {origin : List Rat} {bound least most : Rat}

/-- The point all of whose variables are as large as the bounds allow. -/
def highest (origin : List Rat) (bound most : Rat) : Vector Rat (origin.length + 1) :=
  .ofFn fun i => if h : i < origin.length then min most (origin[i] + bound) else most

/-- It lies between the bounds, if there are values between them. -/
theorem bounded_highest (hb : 0 ≤ bound) (hle : least ≤ most)
    (horigin : ∀ o ∈ origin, least ≤ o ∧ o ≤ most) (integrality : Bool) :
    Program.Bounded (Program.begun (origin.length + 1) (clippedBounds origin bound least most)
      least most integrality).vars (highest origin bound most).toList := by
  rw [Program.bounded_begun_iff]
  intro i hi
  unfold highest
  rw [Vector.getElem_ofFn]
  by_cases hpixel : i < origin.length
  · obtain ⟨hleast, hmost⟩ := horigin origin[i] (List.getElem_mem hpixel)
    rw [dif_pos hpixel, Program.between_pixel_iff hb (List.getElem?_eq_getElem hpixel) hleast hmost]
    -- the lower end of the interval is at most the origin, the upper end at least
    have hlo : max least (origin[i] - bound) ≤ origin[i] := max_le hleast (by linarith)
    have hhi : origin[i] ≤ min most (origin[i] + bound) :=
      le_min hmost (le_add_of_nonneg_right hb)
    exact ⟨hlo.trans hhi, le_refl _⟩
  · rw [dif_neg hpixel, Program.between_other_iff (not_lt.1 hpixel)]
    exact ⟨hle, le_refl most⟩

/-- **The guard and the limits.**  Between the bounds of a session that was begun, some point raises
    a pixel by a step exactly if the step is within the bound and stays within the range. -/
theorem raised_satisfiable_iff (hb : 0 ≤ bound) (horigin : ∀ o ∈ origin, least ≤ o ∧ o ≤ most)
    {i : Nat} (hi : i < origin.length) (step : Rat) (integrality : Bool) :
    (∃ v : Vector Rat (origin.length + 1),
      Program.Bounded (Program.begun (origin.length + 1) (clippedBounds origin bound least most)
        least most integrality).vars v.toList ∧
      (Constraint.of ((Affine.var i).addScalar (-(origin[i] + step))) .ge).Holds v) ↔
    step ≤ bound ∧ origin[i] + step ≤ most := by
  obtain ⟨hleast, hmost⟩ := horigin origin[i] (List.getElem_mem hi)
  have hlt : i < origin.length + 1 := Nat.lt_succ_of_lt hi
  constructor
  · rintro ⟨v, hbounded, hraised⟩
    rw [Formula.raised_holds_iff, Affine.eval_var v hlt] at hraised
    have hpixel := Program.bounded_begun_iff.1 hbounded i hlt
    rw [Program.between_pixel_iff hb (List.getElem?_eq_getElem hi) hleast hmost] at hpixel
    have htop : origin[i] + step ≤ min most (origin[i] + bound) := hraised.trans hpixel.2
    exact ⟨by linarith [htop.trans (min_le_right _ _)], htop.trans (min_le_left _ _)⟩
  · rintro ⟨hstep, htop⟩
    refine ⟨highest origin bound most,
      bounded_highest hb (hleast.trans hmost) horigin integrality, ?_⟩
    rw [Formula.raised_holds_iff, Affine.eval_var _ hlt]
    unfold highest
    rw [Vector.getElem_ofFn, dif_pos hi]
    have hinterval : origin[i] + step ≤ origin[i] + bound := by linarith
    exact le_min htop hinterval

end

variable {E : Type} [Engine E Rat]

/-- **When the guard can be met.**  Of accepted options, an origin within the range and a drawn
    pixel of it: the guard is that of the drawn pixel, and between the bounds that a session sets
    when it is begun some point satisfies it exactly if the step is at most the bound and does not
    lead beyond the largest value. -/
theorem guard_satisfiable_iff {o : Options Rat} {settings : Settings Rat}
    (hvalid : o.validate = .ok ()) (hsettings : o.settings = .ok settings) {origin : List Rat}
    (horigin : ∀ a ∈ origin, settings.minValue ≤ a ∧ a ≤ settings.maxValue) {S : Type}
    [Source S Rat] {draws left : S} {i : Nat}
    (hdraw : Source.below draws origin.length = .ok (i, left)) (hi : i < origin.length)
    {s₀ s : Session E Rat (origin.length + 1)}
    (hbegin : Session.begin origin settings.epsilon settings.minValue settings.maxValue
      settings.integrality s₀ = .ok () s) :
    ∃ cs : List (Constraint Rat (origin.length + 1)),
      Formula.raised (Problem.pixels origin.length) origin draws settings.quantizationStep =
        .ok (cs, left) ∧
      ((∃ v : Vector Rat (origin.length + 1),
          Program.Bounded s.program.vars v.toList ∧ ∀ c ∈ cs, c.Holds v) ↔
        settings.quantizationStep ≤ settings.epsilon ∧
          origin[i] + settings.quantizationStep ≤ settings.maxValue) := by
  have hrange := Options.settings_inRange hvalid hsettings
  obtain ⟨engine, rfl⟩ := begin_ok hbegin
  refine ⟨_, Formula.raised_eq settings.quantizationStep
    (by rw [Problem.length_pixels]; exact hdraw) (Problem.getElem?_pixels_iff.2 ⟨hi, rfl⟩)
    (List.getElem?_eq_getElem hi), ?_⟩
  rw [← raised_satisfiable_iff hrange.epsilon.le horigin hi settings.quantizationStep
    settings.integrality]
  simp only [List.forall_mem_singleton]

/-! ### Pixels in the middle and at the top of the range -/

namespace Grey

/-- Draws that pick the first pixel. -/
def draws : Cyclic Rat := .of [] [0]

/-- What is left of them. -/
def left : Cyclic Rat := ⟨[], [0], 0, 1⟩

/-- A session on one pixel, begun. -/
theorem begun (a : Rat) : ∃ s, (Session.begin [a] Settings.defaults.epsilon
    Settings.defaults.minValue Settings.defaults.maxValue
    Settings.defaults.integrality
    (Session.fresh (Script.of []) 1 []) : EStateM.Result Fault (Session (Script Rat) Rat 2) Unit) =
      .ok () s :=
  begin_of_accepts (fun _ _ => rfl) [a] _ _ _ _ _

end Grey

/-- A pixel in the middle of the range can be raised. -/
theorem guard_satisfiable_iff_grey : ∃ (s : Session (Script Rat) Rat 2)
    (cs : List (Constraint Rat 2)) (v : Vector Rat 2),
    Session.begin [100] Settings.defaults.epsilon Settings.defaults.minValue
      Settings.defaults.maxValue Settings.defaults.integrality
      (Session.fresh (Script.of []) 1 []) = .ok () s ∧
    Formula.raised (Problem.pixels 1) [100] Grey.draws Settings.defaults.quantizationStep =
      .ok (cs, Grey.left) ∧
    Program.Bounded s.program.vars v.toList ∧ ∀ c ∈ cs, c.Holds v := by
  obtain ⟨s, hs⟩ := Grey.begun 100
  have hrange : ∀ a ∈ [(100 : Rat)], Settings.defaults.minValue ≤ a ∧
      a ≤ Settings.defaults.maxValue := by decide +kernel
  obtain ⟨cs, hcs, hiff⟩ := guard_satisfiable_iff Options.validate_defaults
    Options.settings_defaults hrange (show Source.below Grey.draws 1 = .ok (0, Grey.left) from rfl)
    Nat.zero_lt_one hs
  obtain ⟨v, hbounded, hholds⟩ := hiff.2 (by decide +kernel)
  exact ⟨s, cs, v, hs, hcs, hbounded, hholds⟩

/-- A pixel at the top of the range cannot, though the step is within the bound and the range is
    wide: the guard alone leaves no point. -/
theorem guard_unsatisfiable_at_top :
    (Options.defaults : Options Rat).validate = .ok () ∧
    (Options.defaults : Options Rat).settings = .ok Settings.defaults ∧
    Settings.defaults.quantized = true ∧
    Settings.defaults.quantizationStep ≤ Settings.defaults.epsilon ∧
    2 * Settings.defaults.quantizationStep ≤
      Settings.defaults.maxValue - Settings.defaults.minValue ∧
    (∀ a ∈ [(255 : Rat)], Settings.defaults.minValue ≤ a ∧ a ≤ Settings.defaults.maxValue) ∧
    ∃ (s : Session (Script Rat) Rat 2) (cs : List (Constraint Rat 2)),
      Session.begin [255] Settings.defaults.epsilon Settings.defaults.minValue
        Settings.defaults.maxValue Settings.defaults.integrality
        (Session.fresh (Script.of []) 1 []) = .ok () s ∧
      Formula.raised (Problem.pixels 1) [255] Grey.draws Settings.defaults.quantizationStep =
        .ok (cs, Grey.left) ∧
      ∀ v : Vector Rat 2, Program.Bounded s.program.vars v.toList → ¬ ∀ c ∈ cs, c.Holds v := by
  have hrange : ∀ a ∈ [(255 : Rat)], Settings.defaults.minValue ≤ a ∧
      a ≤ Settings.defaults.maxValue := by decide +kernel
  obtain ⟨s, hs⟩ := Grey.begun 255
  refine ⟨Options.validate_defaults, Options.settings_defaults, rfl, by decide +kernel,
    by decide +kernel, hrange, s, _, hs, Formula.raised_eq _ rfl rfl rfl, fun v hbounded hall => ?_⟩
  obtain ⟨engine, rfl⟩ := begin_ok hs
  have hepsilon : 0 ≤ Settings.defaults.epsilon := by decide +kernel
  have htop := (raised_satisfiable_iff hepsilon hrange Nat.zero_lt_one
    Settings.defaults.quantizationStep false).1
    ⟨v, hbounded, hall _ (List.mem_singleton.2 rfl)⟩
  exact absurd htop.2 (by decide +kernel)

end Session

end Perturb
