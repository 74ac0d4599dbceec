/-
  What the program with the smallest radius finds.

  A point of a program is a list of pixels and a radius.  The pixels are limited to their intervals,
  the radius to the range of values, and the ball ties the two together.

  1. **Pixels** — `Fits` says of pixels alone, without mentioning the ball, that they are within
     their limits and satisfy the further constraints.

  2. **The crux (`seeks_of_openSession`)** — in the program of a centred problem pixels that fit go
     with exactly those radii that are at least their distance from the origin and respect the
     limits of the radius.  The smallest of these is `radius`: the distance, raised to the smallest
     value of the range, and rounded up if all variables are integers.

  3. **Feasibility and optima** (`Seeks.exists_feasible_iff`, `Seeks.optimal_iff`) are then read off
     without looking at the program again.

  4. **Attempts** — the program an attempt starts with is of this kind (`Course.seeks`).

  So the program finds closest pixels, but not because distance and radius are the same: a range
  that starts above zero gives the radius a floor, and a range that ends below the bound a ceiling,
  neither of which is about pixels.  Where the range holds zero and the ceiling is out of reach,
  they are the same (`Fits.radius_eq`), and an attempt looks for the closest pixels
  (`Course.closest`).
-/
import Perturb.Proofs.Config.Options
import Perturb.Proofs.Synthesis.Centred
import Perturb.Proofs.Synthesis.Relaxation

namespace Perturb

namespace Attempt

variable {settings : Settings Rat} {origin : List Rat} {k : Nat}
  {further : List (Constraint Rat (k + 1))}

/-! ## Pixels that fit -/

/-- Pixels are within their limits and satisfy the further constraints with equality allowed.  The
    radius is said to be zero because it has to be something; the constraints do not look at it. -/
structure Fits (settings : Settings Rat) (origin : List Rat)
    (further : List (Constraint Rat (k + 1))) (x : List Rat) : Prop where
  length : x.length = k
  limits : ∀ (i : Nat) (o a : Rat), origin[i]? = some o → x[i]? = some a →
    (clippedInterval settings.epsilon settings.minValue settings.maxValue o).1 ≤ a ∧
      a ≤ (clippedInterval settings.epsilon settings.minValue settings.maxValue o).2
  whole : settings.integrality = true → ∀ a ∈ x, ∃ z : Int, a = z
  further : ∀ c ∈ further, c.weakened.Holds (point x 0 length)

/-- A constraint in which the radius does not occur does not look at it. -/
theorem holds_point_iff {c : Constraint Rat (k + 1)} (hc : c.term.Spares k) {x : List Rat}
    (e e' : Rat) (h : x.length = k) :
    c.weakened.Holds (point x e h) ↔ c.weakened.Holds (point x e' h) := by
  have hpixels : ∀ i (_ : i < k + 1), i ≠ k → (point x e h)[i] = (point x e' h)[i] := by
    intro i hi hne
    have hlt : i < k := by omega
    exact Option.some.inj ((getElem?_pixel e h hlt).symm.trans (getElem?_pixel e' h hlt))
  have hlinear : c.weakened.term.linearAt (point x e h) =
      c.weakened.term.linearAt (point x e' h) := hc.linearAt_congr hpixels
  unfold Constraint.Holds Constraint.holdsAt
  rw [hlinear]

/-! ## The radius -/

/-- The smallest radius that goes with a distance. -/
def radius (settings : Settings Rat) (d : Rat) : Rat :=
  if settings.integrality then (⌈max settings.minValue d⌉ : Int) else max settings.minValue d

/-- The radius is an integer where all variables are. -/
theorem whole_radius (d : Rat) :
    settings.integrality = true → ∃ z : Int, radius settings d = z := by
  intro hint
  unfold radius
  rw [if_pos hint]
  exact ⟨_, rfl⟩

/-- **The radius** is the smallest admissible one: what is at least the distance and the smallest
    value, and an integer where it has to be, is at least the radius. -/
theorem radius_le_iff {d e : Rat} (he : settings.integrality = true → ∃ z : Int, e = z) :
    radius settings d ≤ e ↔ settings.minValue ≤ e ∧ d ≤ e := by
  unfold radius
  split
  · rename_i hint
    obtain ⟨z, rfl⟩ := he hint
    rw [Int.cast_le, Int.ceil_le, max_le_iff]
  · exact max_le_iff

/-- The radius is at least the smallest value and the distance. -/
theorem le_radius (d : Rat) : settings.minValue ≤ radius settings d ∧ d ≤ radius settings d :=
  (radius_le_iff (whole_radius d)).1 (le_refl _)

/-! ## The program -/

/-- A program whose points are the pixels that fit, each with the radii that go with them, and which
    makes the radius small. -/
structure Seeks (settings : Settings Rat) (origin : List Rat)
    (further : List (Constraint Rat (k + 1))) (program : Program Rat) : Prop where
  point_of_feasible : ∀ v, program.feasible v → ∃ (x : List Rat) (e : Rat), x.length = k ∧
    v = x ++ [e]
  feasible_iff : ∀ (x : List Rat) (d e : Rat), x.length = k → Distance.linf x origin = .ok d →
    (program.feasible (x ++ [e]) ↔ Fits settings origin further x ∧
      (settings.integrality = true → ∃ z : Int, e = z) ∧ radius settings d ≤ e ∧
      e ≤ settings.epsilon ∧ e ≤ settings.maxValue)
  objective : ∃ row, program.objective = some (row, ⟨"min"⟩) ∧ ∀ (x : List Rat) (e : Rat),
    x.length = k → Program.rowValue (program.rowAt row) (x ++ [e]) = e

/-- What the current constraints of a centred problem ask of pixels and a radius. -/
theorem current_point_iff {p : Problem Rat (k + 1)} (hp : p.Centred settings origin further)
    (hoptimise : settings.optimise = true) {x : List Rat} (e : Rat) (h : x.length = k) :
    (∀ i ∈ p.current, ((fixed settings origin p).constraint i).weakened.Holds (point x e h)) ↔
      (∀ c ∈ further, c.weakened.Holds (point x 0 h)) ∧
      (∀ (i : Nat) (o a : Rat), origin[i]? = some o → x[i]? = some a → o - e ≤ a ∧ a ≤ o + e) ∧
      0 ≤ e ∧ e ≤ settings.epsilon := by
  have hball : (∀ c ∈ Problem.nearby settings (Problem.pixels k) origin
      (Affine.var k : Affine Rat (k + 1)), c.weakened.Holds (point x e h)) ↔
      (∀ (i : Nat) (o a : Rat), origin[i]? = some o → x[i]? = some a → o - e ≤ a ∧ a ≤ o + e) ∧
      0 ≤ e ∧ e ≤ settings.epsilon := by
    unfold Problem.nearby
    rw [if_pos hoptimise, Formula.ball_weakened_iff, near_point_iff, eval_radius]
  rw [forall_current_iff hp.current_lt fun c => c.weakened.Holds (point x e h), ← hball]
  constructor
  · intro hall
    refine ⟨fun c hc => ?_, fun c hc => hall c ((hp.isCurrent_iff c).2 (Or.inr hc))⟩
    exact (holds_point_iff (hp.spares c hc) e 0 h).1 (hall c ((hp.isCurrent_iff c).2 (Or.inl hc)))
  · rintro ⟨hfurther, hnear⟩ c hc
    rcases (hp.isCurrent_iff c).1 hc with hmem | hmem
    · exact (holds_point_iff (hp.spares c hmem) e 0 h).2 (hfurther c hmem)
    · exact hnear c hmem

section

variable [Transcendental] {E : Type} [Engine E Rat]

/-- **The crux.**  The program that is told of a centred problem admits pixels that fit with exactly
    the radii that go with them. -/
theorem seeks_of_openSession {p : Problem Rat (k + 1)} (hp : p.Centred settings origin further)
    (hoptimise : settings.optimise = true) (hobjective : settings.objective = "min-linf")
    (hne : origin ≠ []) {engine : E} {s : Session E Rat (k + 1)}
    (hopen : openSession settings origin p (Session.fresh engine origin.length p.pool) =
      .ok () s) : Seeks settings origin further s.program := by
  have hledger := openSession_ledger hp.fresh hp.current_lt hp.nodup hopen
  constructor
  case point_of_feasible =>
    intro v hv
    have hlen : v.length = k + 1 :=
      (hledger.length_of_feasible hv).trans (length_vars_fixed settings origin p)
    have hnil : v ≠ [] := by
      intro hv
      rw [hv] at hlen
      cases hlen
    refine ⟨v.dropLast, v.getLast hnil, ?_, (List.dropLast_append_getLast hnil).symm⟩
    rw [List.length_dropLast, hlen, Nat.add_sub_cancel]
  case feasible_iff =>
    intro x d e hx hd
    obtain ⟨d', hd', hnonneg, hnear⟩ := Distance.linf_ok hne (hx.trans hp.length.symm)
    cases hd.symm.trans hd'
    have hball : (∀ (i : Nat) (o a : Rat), origin[i]? = some o → x[i]? = some a →
        o - e ≤ a ∧ a ≤ o + e) ↔ d ≤ e := by
      rw [hnear]
      exact ⟨fun h i a o ha ho => h i o a ho ha, fun h i o a ho ha => h i a o ha ho⟩
    rw [← toList_point e hx, hledger.feasible_iff, inLimits_point_iff e hx hp.length,
      current_point_iff hp hoptimise e hx, hball]
    constructor
    · rintro ⟨⟨hlimits, hrange, hwhole⟩, hfurther, hdist, -, hmost⟩
      have he : settings.integrality = true → ∃ z : Int, e = z := fun hint =>
        hwhole hint e (List.mem_append_right _ (List.mem_singleton.2 rfl))
      refine ⟨⟨hx, hlimits, fun hint a ha => ?_, hfurther⟩, he, ?_, hmost, hrange.2⟩
      · exact hwhole hint a (List.mem_append_left _ ha)
      · exact (radius_le_iff he).2 ⟨hrange.1, hdist⟩
    · rintro ⟨hfits, he, hradius, hmost, hmax⟩
      obtain ⟨hmin, hdist⟩ := (radius_le_iff he).1 hradius
      refine ⟨⟨hfits.limits, ⟨hmin, hmax⟩, fun hint a ha => ?_⟩, hfits.further, hdist, ?_, hmost⟩
      · rcases List.mem_append.1 ha with ha | ha
        · exact hfits.whole hint a ha
        · exact List.mem_singleton.1 ha ▸ he hint
      · exact hnonneg.trans hdist
  case objective =>
    obtain ⟨row, hrow, hcoeffs⟩ :=
      openSession_objective (hp.objective_eq hoptimise hobjective) hopen
    refine ⟨row, hrow, fun x e hx => ?_⟩
    have hvalue : Program.rowValue (s.program.rowAt row) (point x e hx).toList =
        (Affine.var k : Affine Rat (k + 1)).linearAt (point x e hx) := by
      rw [← Affine.rowValue_rowEntries (s.program.rowAt row).name]
      exact congrArg (fun es => Program.rowValue ⟨(s.program.rowAt row).name, es⟩ _) hcoeffs
    have hintercept : (Affine.var k : Affine Rat (k + 1)).eval (point x e hx) =
        (Affine.var k : Affine Rat (k + 1)).linearAt (point x e hx) := add_zero _
    rw [← toList_point e hx, hvalue, ← hintercept, eval_radius]

/-- **Attempts look for closest pixels.**  The program an attempt starts with, if it has this
    objective, is of this kind, with whatever the replay, the labels and the draw asked for as
    further constraints. -/
theorem Course.seeks {S : Type} [Source S Rat] {net : Net Rat} {lab : Labelled Rat} {trace : Trace}
    {draws : S} {p : Problem Rat (net.inDim + 1)} {s : Session E Rat (net.inDim + 1)}
    (h : Course net settings lab trace draws origin p s) (horigin : origin.length = net.inDim)
    (hoptimise : settings.optimise = true) (hobjective : settings.objective = "min-linf")
    (hne : origin ≠ []) :
    ∃ further, p.Centred settings origin further ∧ Seeks settings origin further s.program := by
  obtain ⟨further, hcentred⟩ := Problem.centred_of_build horigin h.built
  obtain ⟨engine, hopen⟩ := h.opened
  exact ⟨further, hcentred, seeks_of_openSession hcentred hoptimise hobjective hne hopen⟩

end

/-! ## Feasibility and optima -/

namespace Seeks

variable {program : Program Rat}

/-- Every feasible point is made of pixels, a distance and a radius. -/
theorem exists_parts (h : Seeks settings origin further program) (hne : origin ≠ [])
    (horigin : origin.length = k) {v : List Rat} (hv : program.feasible v) :
    ∃ x d e, x.length = k ∧ v = x ++ [e] ∧ Distance.linf x origin = .ok d := by
  obtain ⟨x, e, hx, rfl⟩ := h.point_of_feasible v hv
  obtain ⟨d, hd, -⟩ := Distance.linf_ok hne (hx.trans horigin.symm)
  exact ⟨x, d, e, hx, rfl, hd⟩

/-- Pixels that fit are a point with the smallest radius they go with, if that is not too large. -/
theorem feasible_radius (h : Seeks settings origin further program) {x : List Rat} {d : Rat}
    (hfits : Fits settings origin further x) (hd : Distance.linf x origin = .ok d)
    (heps : radius settings d ≤ settings.epsilon) (hmax : radius settings d ≤ settings.maxValue) :
    program.feasible (x ++ [radius settings d]) :=
  (h.feasible_iff x d _ hfits.length hd).2 ⟨hfits, whole_radius d, le_refl _, heps, hmax⟩

/-- **Feasibility.** -/
theorem exists_feasible_iff (h : Seeks settings origin further program) (hne : origin ≠ [])
    (horigin : origin.length = k) :
    (∃ v, program.feasible v) ↔ ∃ x d, Fits settings origin further x ∧
      Distance.linf x origin = .ok d ∧ radius settings d ≤ settings.epsilon ∧
      radius settings d ≤ settings.maxValue := by
  constructor
  · rintro ⟨v, hv⟩
    obtain ⟨x, d, e, hx, rfl, hd⟩ := h.exists_parts hne horigin hv
    obtain ⟨hfits, -, hle, heps, hmax⟩ := (h.feasible_iff x d e hx hd).1 hv
    exact ⟨x, d, hfits, hd, hle.trans heps, hle.trans hmax⟩
  · rintro ⟨x, d, hfits, hd, heps, hmax⟩
    exact ⟨_, h.feasible_radius hfits hd heps hmax⟩

/-- **Optima** are the pixels with the smallest radius, together with it. -/
theorem optimal_iff (h : Seeks settings origin further program) (hne : origin ≠ [])
    (horigin : origin.length = k) (v : List Rat) :
    program.Optimal v ↔ ∃ x d, v = x ++ [radius settings d] ∧ Fits settings origin further x ∧
      Distance.linf x origin = .ok d ∧ radius settings d ≤ settings.epsilon ∧
      radius settings d ≤ settings.maxValue ∧
      ∀ x' d', Fits settings origin further x' → Distance.linf x' origin = .ok d' →
        radius settings d ≤ radius settings d' := by
  obtain ⟨row, hobjective, hvalue⟩ := h.objective
  constructor
  · rintro ⟨hv, hbest⟩
    obtain ⟨x, d, e, hx, rfl, hd⟩ := h.exists_parts hne horigin hv
    obtain ⟨hfits, -, hle, heps, hmax⟩ := (h.feasible_iff x d e hx hd).1 hv
    have hbest : ∀ y, program.feasible y → e ≤ Program.rowValue (program.rowAt row) y := by
      intro y hy
      have hxy := hbest row _ hobjective y hy
      rwa [if_pos (show (Goal.mk "min").minimises = true from rfl), hvalue x e hx] at hxy
    -- the same pixels with their smallest radius are feasible too
    have hsmallest := hbest _ (h.feasible_radius hfits hd (hle.trans heps) (hle.trans hmax))
    rw [hvalue x _ hx] at hsmallest
    have he : e = radius settings d := le_antisymm hsmallest hle
    subst he
    refine ⟨x, d, rfl, hfits, hd, heps, hmax, fun x' d' hfits' hd' => ?_⟩
    by_contra hcloser
    have hcloser := not_le.1 hcloser
    have hother := hbest _ (h.feasible_radius hfits' hd' (hcloser.le.trans heps)
      (hcloser.le.trans hmax))
    rw [hvalue x' _ hfits'.length] at hother
    exact absurd hother (not_le.2 hcloser)
  · rintro ⟨x, d, rfl, hfits, hd, heps, hmax, hclosest⟩
    refine ⟨h.feasible_radius hfits hd heps hmax, fun row' goal hrow y hy => ?_⟩
    rw [hobjective] at hrow
    cases hrow
    obtain ⟨x', d', e', hx', rfl, hd'⟩ := h.exists_parts hne horigin hy
    obtain ⟨hfits', -, hle, -, -⟩ := (h.feasible_iff x' d' e' hx' hd').1 hy
    rw [if_pos (show (Goal.mk "min").minimises = true from rfl), hvalue x _ hfits.length,
      hvalue x' _ hx']
    exact (hclosest x' d' hfits' hd').trans hle

end Seeks

/-- **Where radius and distance are the same.**  If the range holds zero and starts there or reaches
    as far as the bound, pixels that fit have a distance that respects all limits of the radius. -/
theorem Fits.radius_eq {x : List Rat} (h : Fits settings origin further x) (hne : origin ≠ [])
    (horigin : origin.length = k)
    (hrange : ∀ a ∈ origin, settings.minValue ≤ a ∧ a ≤ settings.maxValue)
    (heps : 0 ≤ settings.epsilon) (hint : settings.integrality = false)
    (hmin : settings.minValue ≤ 0)
    (hmax : settings.minValue = 0 ∨ settings.epsilon ≤ settings.maxValue) :
    ∃ d, Distance.linf x origin = .ok d ∧ radius settings d = d ∧ d ≤ settings.epsilon ∧
      d ≤ settings.maxValue := by
  obtain ⟨d, hd, hnonneg, hnear⟩ := Distance.linf_ok hne (h.length.trans horigin.symm)
  have hlimits : ∀ (i : Nat) (a o : Rat), x[i]? = some a → origin[i]? = some o →
      max settings.minValue (o - settings.epsilon) ≤ a ∧
        a ≤ min settings.maxValue (o + settings.epsilon) := by
    intro i a o ha ho
    obtain ⟨hleast, hmost⟩ := hrange o (List.mem_of_getElem? ho)
    have hinterval := h.limits i o a ho ha
    rwa [clippedInterval_of_mem heps hleast hmost] at hinterval
  have hbound : d ≤ settings.epsilon := by
    refine (hnear _).2 fun i a o ha ho => ?_
    obtain ⟨hlo, hhi⟩ := hlimits i a o ha ho
    exact ⟨(le_max_right _ _).trans hlo, hhi.trans (min_le_right _ _)⟩
  have hceiling : d ≤ settings.maxValue := by
    rcases hmax with hzero | hreach
    · -- both the pixel and its origin lie between zero and the largest value
      refine (hnear _).2 fun i a o ha ho => ?_
      obtain ⟨hlo, hhi⟩ := hlimits i a o ha ho
      obtain ⟨hleast, hmost⟩ := hrange o (List.mem_of_getElem? ho)
      have hlow := (le_max_left _ _).trans hlo
      have hhigh := hhi.trans (min_le_left _ _)
      rw [hzero] at hlow hleast
      exact ⟨by linarith, by linarith⟩
    · exact hbound.trans hreach
  refine ⟨d, hd, ?_, hbound, hceiling⟩
  unfold radius
  rw [hint, if_neg Bool.false_ne_true, max_eq_right (hmin.trans hnonneg)]

/-- **Closest pixels.**  Where all pixels that fit have their distance as their radius, and none is
    too large, there is a feasible point exactly if any pixels fit, and the optima are the pixels
    closest to the origin, together with their distance. -/
theorem Seeks.closest_iff {program : Program Rat} (h : Seeks settings origin further program)
    (hne : origin ≠ []) (horigin : origin.length = k)
    (hradius : ∀ x, Fits settings origin further x → ∃ d, Distance.linf x origin = .ok d ∧
      radius settings d = d ∧ d ≤ settings.epsilon ∧ d ≤ settings.maxValue) :
    ((∃ v, program.feasible v) ↔ ∃ x, Fits settings origin further x) ∧
    ∀ v, program.Optimal v ↔ ∃ x d, v = x ++ [d] ∧ Fits settings origin further x ∧
      Distance.linf x origin = .ok d ∧
      ∀ x' d', Fits settings origin further x' → Distance.linf x' origin = .ok d' → d ≤ d' := by
  have hsame : ∀ {x : List Rat} {d : Rat}, Fits settings origin further x →
      Distance.linf x origin = .ok d →
      radius settings d = d ∧ d ≤ settings.epsilon ∧ d ≤ settings.maxValue := by
    intro x d hfits hd
    obtain ⟨d', hd', hparts⟩ := hradius x hfits
    cases hd.symm.trans hd'
    exact hparts
  constructor
  · rw [h.exists_feasible_iff hne horigin]
    constructor
    · rintro ⟨x, -, hfits, -⟩
      exact ⟨x, hfits⟩
    · rintro ⟨x, hfits⟩
      obtain ⟨d, hd, heq, heps, hmax⟩ := hradius x hfits
      exact ⟨x, d, hfits, hd, heq.trans_le heps, heq.trans_le hmax⟩
  · intro v
    rw [h.optimal_iff hne horigin]
    constructor
    · rintro ⟨x, d, rfl, hfits, hd, -, -, hclosest⟩
      have heq := (hsame hfits hd).1
      refine ⟨x, d, by rw [heq], hfits, hd, fun x' d' hfits' hd' => ?_⟩
      have hle := hclosest x' d' hfits' hd'
      rwa [heq, (hsame hfits' hd').1] at hle
    · rintro ⟨x, d, rfl, hfits, hd, hclosest⟩
      obtain ⟨heq, heps, hmax⟩ := hsame hfits hd
      refine ⟨x, d, by rw [heq], hfits, hd, heq.trans_le heps, heq.trans_le hmax,
        fun x' d' hfits' hd' => ?_⟩
      rw [heq, (hsame hfits' hd').1]
      exact hclosest x' d' hfits' hd'

/-- **An attempt looks for the closest pixels.**  Of accepted options with the smallest radius as
    objective, variables that need not be integers, and a range that holds zero and the origin and
    starts at zero or reaches as far as the bound: the program an attempt starts with is feasible
    exactly if some pixels fit what its replay, its labels and its draw ask for, and its optima are
    those of them that are closest to the origin. -/
theorem Course.closest [Transcendental] {E S : Type} [Engine E Rat] [Source S Rat] {o : Options Rat}
    (hvalid : o.validate = .ok ()) (hsettings : o.settings = .ok settings)
    (hoptimise : settings.optimise = true) (hobjective : settings.objective = "min-linf")
    (hint : settings.integrality = false) (hmin : settings.minValue ≤ 0)
    (hmax : settings.minValue = 0 ∨ settings.epsilon ≤ settings.maxValue) {net : Net Rat}
    {lab : Labelled Rat} {trace : Trace} {draws : S} {p : Problem Rat (net.inDim + 1)}
    {s : Session E Rat (net.inDim + 1)} (h : Course net settings lab trace draws origin p s)
    (hne : origin ≠ []) (horigin : origin.length = net.inDim)
    (hrange : ∀ a ∈ origin, settings.minValue ≤ a ∧ a ≤ settings.maxValue) :
    ∃ further, p.Centred settings origin further ∧
      ((∃ v, s.program.feasible v) ↔ ∃ x, Fits settings origin further x) ∧
      ∀ v, s.program.Optimal v ↔ ∃ x d, v = x ++ [d] ∧ Fits settings origin further x ∧
        Distance.linf x origin = .ok d ∧
        ∀ x' d', Fits settings origin further x' → Distance.linf x' origin = .ok d' → d ≤ d' := by
  obtain ⟨further, hcentred, hseeks⟩ := h.seeks horigin hoptimise hobjective hne
  have heps := (Options.settings_inRange hvalid hsettings).epsilon.le
  refine ⟨further, hcentred, hseeks.closest_iff hne horigin fun x hfits => ?_⟩
  exact hfits.radius_eq hne horigin hrange heps hint hmin hmax

/-- **The closest point.**  Of accepted options with the smallest radius as objective, an origin
    within the range, and a problem that asks for further constraints on the pixels: the program
    that is told of it is feasible exactly if some pixels fit whose radius is neither above the
    bound nor above the largest value; its optima are the pixels that fit with the smallest such
    radius, together with it; and where the variables need not be integers, the range holds zero,
    and it starts there or reaches as far as the bound, the radius is the distance and never too
    large. -/
theorem closest_point [Transcendental] {E : Type} [Engine E Rat] {o : Options Rat}
    (hvalid : o.validate = .ok ()) (hsettings : o.settings = .ok settings)
    (hoptimise : settings.optimise = true) (hobjective : settings.objective = "min-linf")
    (hne : origin ≠ []) (hrange : ∀ a ∈ origin, settings.minValue ≤ a ∧ a ≤ settings.maxValue)
    {p : Problem Rat (k + 1)} (hp : p.Centred settings origin further) {engine : E}
    {s : Session E Rat (k + 1)}
    (hopen : openSession settings origin p (Session.fresh engine origin.length p.pool) =
      .ok () s) :
    ((∃ v, s.program.feasible v) ↔ ∃ x d, Fits settings origin further x ∧
      Distance.linf x origin = .ok d ∧ radius settings d ≤ settings.epsilon ∧
      radius settings d ≤ settings.maxValue) ∧
    (∀ v, s.program.Optimal v ↔ ∃ x d, v = x ++ [radius settings d] ∧
      Fits settings origin further x ∧ Distance.linf x origin = .ok d ∧
      radius settings d ≤ settings.epsilon ∧ radius settings d ≤ settings.maxValue ∧
      ∀ x' d', Fits settings origin further x' → Distance.linf x' origin = .ok d' →
        radius settings d ≤ radius settings d') ∧
    (settings.integrality = false → settings.minValue ≤ 0 →
      (settings.minValue = 0 ∨ settings.epsilon ≤ settings.maxValue) →
      ∀ x, Fits settings origin further x → ∃ d, Distance.linf x origin = .ok d ∧
        radius settings d = d ∧ d ≤ settings.epsilon ∧ d ≤ settings.maxValue) := by
  have hseeks := seeks_of_openSession hp hoptimise hobjective hne hopen
  have heps := (Options.settings_inRange hvalid hsettings).epsilon.le
  exact ⟨hseeks.exists_feasible_iff hne hp.length, hseeks.optimal_iff hne hp.length,
    fun hint hmin hmax x hfits => hfits.radius_eq hne hp.length hrange heps hint hmin hmax⟩

/-! ### One pixel that has to be raised -/

namespace Lifted

attribute [local instance] Transcendental.flat

/-- The only pixel is at least `a`. -/
def atLeast (a : Rat) : List (Constraint Rat 2) := [.of ((Affine.var 0).addScalar (-a)) .ge]

theorem centred (settings : Settings Rat) (hobjective : settings.objective = "min-linf")
    (o a : Rat) :
    (Problem.asking settings [o] (atLeast a)).Centred settings [o] (atLeast a) := by
  refine Problem.centred_asking rfl ?_ ?_ hobjective
  · exact List.forall_mem_singleton.2 (Constraint.fresh_of _ fun _ h => by cases h)
  · have hpixel : (Affine.var 0 : Affine Rat 2).Spares 1 := Affine.spares_var (by decide)
    exact List.forall_mem_singleton.2 (hpixel.addScalar _)

theorem fits_iff {settings : Settings Rat} (hint : settings.integrality = false) {o a b : Rat} :
    Fits settings [o] (atLeast a) [b] ↔
      ((clippedInterval settings.epsilon settings.minValue settings.maxValue o).1 ≤ b ∧
        b ≤ (clippedInterval settings.epsilon settings.minValue settings.maxValue o).2) ∧
      a ≤ b := by
  have hholds : (Constraint.of ((Affine.var 0 : Affine Rat 2).addScalar (-a)) .ge).Holds
      (point [b] 0 rfl) ↔ a ≤ b := by
    rw [Constraint.holds_ge_iff, Affine.eval_addScalar, Affine.eval_var _ Nat.zero_lt_two]
    show 0 ≤ b + -a ↔ a ≤ b
    constructor <;> intro h <;> linarith
  constructor
  · intro h
    exact ⟨h.limits 0 o b rfl rfl, hholds.1 (h.further _ (List.mem_singleton.2 rfl))⟩
  · rintro ⟨hlimits, hle⟩
    refine ⟨rfl, fun i o' a' ho ha => ?_, fun h => ?_,
      List.forall_mem_singleton.2 (hholds.2 hle)⟩
    · cases i with
      | zero =>
        cases ho
        cases ha
        exact hlimits
      | succ i => cases ho
    · rw [hint] at h
      cases h

/-- The session of this problem can be opened. -/
theorem opened (settings : Settings Rat) (hobjective : settings.objective = "min-linf")
    (o a : Rat) : ∃ s, openSession settings [o] (Problem.asking settings [o] (atLeast a))
      (Session.fresh (Script.of []) 1 (Problem.asking settings [o] (atLeast a)).pool) =
        .ok () s :=
  openSession_succeeds (fun _ _ => rfl) settings [o] (Script.of [])
    (centred settings hobjective o a).fresh (centred settings hobjective o a).current_lt

/-- Of a pixel at 100 that has to be at least 107, the optimum is 107, at the distance 7. -/
theorem closest_point_lifted : ∃ s : Session (Script Rat) Rat 2,
    openSession Settings.defaults [100] (Problem.asking Settings.defaults [100] (atLeast 107))
      (Session.fresh (Script.of []) 1
        (Problem.asking Settings.defaults [100] (atLeast 107)).pool) = .ok () s ∧
    s.program.Optimal [107, 7] := by
  obtain ⟨s, hopen⟩ := opened Settings.defaults rfl 100 107
  have hrange : ∀ a ∈ [(100 : Rat)], Settings.defaults.minValue ≤ a ∧
      a ≤ Settings.defaults.maxValue := by decide +kernel
  obtain ⟨-, hoptimal, -⟩ := closest_point Options.validate_defaults Options.settings_defaults rfl
    rfl (List.cons_ne_nil _ _) hrange (centred Settings.defaults rfl 100 107) hopen
  have hseven : radius Settings.defaults 7 = 7 := by decide +kernel
  refine ⟨s, hopen, (hoptimal _).2 ⟨[107], 7, by rw [hseven]; rfl, ?_, by decide +kernel, ?_, ?_,
    ?_⟩⟩
  · exact (fits_iff rfl).2 ⟨by decide +kernel, le_refl _⟩
  · decide +kernel
  · decide +kernel
  · intro x d hfits hd
    obtain ⟨b, rfl⟩ := List.length_eq_one_iff.1 hfits.length
    obtain ⟨d', hd', -, hnear⟩ := Distance.linf_ok (List.cons_ne_nil (100 : Rat) [])
      hfits.length
    cases hd.symm.trans hd'
    -- whatever fits is at least 107, so at least 7 away
    have hraised := ((fits_iff rfl).1 hfits).2
    have hnear := ((hnear d).1 (le_refl d) 0 b 100 rfl rfl).2
    have hfar : 7 ≤ d := by linarith
    rw [hseven]
    exact hfar.trans (le_radius d).2

/-- Options with a range from one to two, in which no radius is as small as the bound. -/
def options : Options Rat :=
  ((Options.defaults.set .epsilon (.real (1 / 2))).set .minValue (.real 1)).set .maxValue (.real 2)

/-- What the options are read as. -/
def high : Settings Rat := { Settings.defaults with epsilon := 1 / 2, minValue := 1, maxValue := 2 }

/-- A pixel at 3/2 that has to be at least 7/4 could be 7/4, at the distance 1/4; but the radius
    would have to be one, so the program is infeasible. -/
theorem closest_point_out_of_reach : options.validate = .ok () ∧ options.settings = .ok high ∧
    high.optimise = true ∧ high.objective = "min-linf" ∧
    (∀ a ∈ [(3 / 2 : Rat)], high.minValue ≤ a ∧ a ≤ high.maxValue) ∧
    (Problem.asking high [3 / 2] (atLeast (7 / 4))).Centred high [3 / 2] (atLeast (7 / 4)) ∧
    ∃ s : Session (Script Rat) Rat 2,
      openSession high [3 / 2] (Problem.asking high [3 / 2] (atLeast (7 / 4)))
        (Session.fresh (Script.of []) 1
          (Problem.asking high [3 / 2] (atLeast (7 / 4))).pool) = .ok () s ∧
      Fits high [3 / 2] (atLeast (7 / 4)) [7 / 4] ∧
      Distance.linf [7 / 4] [3 / 2] = .ok (1 / 4 : Rat) ∧ ∀ v, ¬ s.program.feasible v := by
  have hcentred := centred high rfl (3 / 2) (7 / 4)
  have hne : [(3 / 2 : Rat)] ≠ [] := List.cons_ne_nil _ _
  obtain ⟨s, hopen⟩ := opened high rfl (3 / 2) (7 / 4)
  refine ⟨by cbv, by cbv, rfl, rfl, by decide +kernel, hcentred, s, hopen, ?_, by decide +kernel,
    fun v hv => ?_⟩
  · exact (fits_iff rfl).2 ⟨by decide +kernel, le_refl _⟩
  · have hseeks := seeks_of_openSession hcentred rfl rfl hne hopen
    obtain ⟨x, d, e, hx, rfl, hd⟩ := hseeks.exists_parts hne rfl hv
    obtain ⟨-, -, hle, heps, -⟩ := (hseeks.feasible_iff x d e hx hd).1 hv
    have hbad : high.minValue ≤ high.epsilon := (le_radius d).1.trans (hle.trans heps)
    exact absurd hbad (by decide +kernel)

end Lifted

end Attempt

end Perturb
