/-
  How far what is found lies from where it was looked for.

  The solver is trusted in one thing only: a point it answers with lies between the bounds of the
  variables and meets the bound rows (`Engine.Honest`).  It need not be optimal, integral, or right
  about there being no point.

  1. **Points** — the program of every state holds the live constraints, so whatever an honest
     solver answers satisfies them (`Tracks.sound`); and the solution that is in hand where a
     candidate was accepted is one of these answers.

  2. **Pixels** — `Near` says what that makes of the pixels: they are within the bound of their
     origin and within the range, and the drawn one was raised by a step.

  3. **Rounding** — THE CRUX is that the pixels that are reported are rounded after all of this was
     asked for, and that nobody looks again.  Rounding keeps the order, so it keeps an interval
     exactly if it keeps its ends; `Steady` asks this of the intervals around an origin, and of a
     step above it.  Integers are steady (`steady_of_whole`); in general the rounded pixels can be
     half a unit too far away, and the step can be lost.

  4. **Images** — cropping reads back what was written, and every cell of the crop has a place, so
     what holds of pixels holds of the image (`Near.perturbation`).
-/
import Perturb.Proofs.Config.Options
import Perturb.Proofs.Program.Limits
import Perturb.Proofs.Synthesis.Progress

namespace Perturb

/-- A solver that answers only with points between the bounds of the variables that meet the bound
    rows. -/
def Engine.Honest (E : Type) [Engine E Rat] : Prop :=
  ∀ (e engine : E) (p : Program Rat) (limit : Option Rat) (answer : Answer Rat) (x : List Rat),
    Engine.solve e p limit = (.ok answer, engine) → answer.solution? = some x →
      Program.Bounded p.vars x ∧ ∀ r ∈ p.boundRows, r.Met x

/-! ## Points -/

namespace Refinement

variable {E : Type} {n : Nat} {g : Session.Ground Rat n} {live waiting log : List Nat}
  {s : Refinement E Rat n}

/-- A point between the bounds of the variables that satisfies the live constraints with equality
    allowed. -/
def Sound (g : Session.Ground Rat n) (live : List Nat) (x : List Rat) : Prop :=
  ∃ v : Vector Rat n, x = v.toList ∧ Program.Bounded g.vars v.toList ∧
    ∀ i ∈ live, (g.constraint i).weakened.Holds v

/-- What an honest solver answers is sound. -/
theorem Tracks.sound [Engine E Rat] (hhonest : Engine.Honest E) (hvars : g.vars.length = n)
    (h : Tracks g live waiting log s) {limit : Option Rat} {answer : Answer Rat} {engine : E}
    {x : List Rat}
    (hsolve : Engine.solve s.session.engine s.session.program limit = (.ok answer, engine))
    (hx : answer.solution? = some x) : Sound g live x := by
  obtain ⟨hbounded, hrows⟩ := hhonest _ _ _ _ _ _ hsolve hx
  have hprogram : s.session.program.vars = g.vars := h.ledger.vars_eq
  rw [hprogram] at hbounded
  have hlen : x.length = n := hbounded.1.trans hvars
  let v : Vector Rat n := ⟨x.toArray, by rw [List.size_toArray, hlen]⟩
  have hall := (h.ledger.rows_met_iff v).1 hrows
  exact ⟨v, rfl, hbounded, fun i hi => hall i (h.live_sub i hi)⟩

end Refinement

namespace Attempt

section

variable {S : Type} [Source S Rat] {net : Net Rat} {settings : Settings Rat} {trace : Trace}
  {draws : S} {origin x datum full : List Rat}

/-! ## Pixels -/

/-- Pixels are within the bound of their origin and within the range, and the drawn one was raised
    by a step. -/
structure Near (net : Net Rat) (settings : Settings Rat) (trace : Trace) (draws : S)
    (origin x : List Rat) : Prop where
  length : x.length = origin.length
  limits : ∀ (i : Nat) (o a : Rat), origin[i]? = some o → x[i]? = some a →
    max settings.minValue (o - settings.epsilon) ≤ a ∧
      a ≤ min settings.maxValue (o + settings.epsilon)
  raised : settings.quantized = true → ∃ (i : Nat) (o a : Rat), Drawn net settings trace draws i ∧
    origin[i]? = some o ∧ x[i]? = some a ∧ o + settings.quantizationStep ≤ a

/-- A problem that was built with rounding asks for a drawn pixel to be raised by a step. -/
theorem drawn_of_build {label target : Int} {p : Problem Rat (net.inDim + 1)}
    (h : Problem.build net settings origin trace label target draws = .ok p)
    (hq : settings.quantized = true) :
    ∃ (i : Nat) (o : Rat), Drawn net settings trace draws i ∧ i < net.inDim ∧
      origin[i]? = some o ∧
      p.IsCurrent (.of ((Affine.var i).addScalar (-(o + settings.quantizationStep))) .ge) := by
  obtain ⟨outs, r, leads, lift, hreplay, -, hlift, hpool, harr⟩ := Problem.build_ok h
  rcases Problem.raises_ok hlift with ⟨-, left, hraised⟩ | ⟨hnot, -⟩
  · obtain ⟨i, t, o, hbelow, ht, ho, rfl⟩ := Formula.raised_ok hraised
    obtain ⟨hi, rfl⟩ := Problem.getElem?_pixels_iff.1 ht
    rw [Problem.length_pixels] at hbelow
    refine ⟨i, o, ⟨outs, r, left, hreplay, hbelow⟩, hi, ho, ?_⟩
    -- the constraint comes after the replay, so it does not wait
    refine harr.isCurrent_of_formula hpool List.length_append ?_
    exact List.mem_append_right _ (List.mem_singleton.2 rfl)
  · rw [hq] at hnot
    cases hnot

/-- The pixels of a sound point are near. -/
theorem near_of_sound {label target : Int} {p : Problem Rat (net.inDim + 1)}
    (hbuilt : Problem.build net settings origin trace label target draws = .ok p)
    (hepsilon : 0 ≤ settings.epsilon)
    (hrange : ∀ a ∈ origin, settings.minValue ≤ a ∧ a ≤ settings.maxValue)
    (hlen : origin.length = net.inDim)
    (h : Refinement.Sound (fixed settings origin p) p.current x) :
    Near net settings trace draws origin (x.take net.inDim) := by
  obtain ⟨v, rfl, hbounded, hlive⟩ := h
  have hpixel : ∀ {i : Nat} (hi : i < net.inDim), (v.toList.take net.inDim)[i]? = some v[i] := by
    intro i hi
    rw [List.getElem?_take_of_lt hi, List.getElem?_eq_getElem (by simpa using Nat.lt_succ_of_lt hi),
      Vector.getElem_toList]
  constructor
  case length =>
    rw [List.length_take, Vector.length_toList, hlen]
    omega
  case limits =>
    intro i o a ho ha
    have hi : i < net.inDim := hlen ▸ (List.getElem?_eq_some_iff.1 ho).1
    obtain ⟨hleast, hmost⟩ := hrange o (List.mem_of_getElem? ho)
    have hdeclared := Program.bounded_begun_iff.1 hbounded i (Nat.lt_succ_of_lt hi)
    cases (hpixel hi).symm.trans ha
    -- around a value of the range clipping never gives the range up
    exact (Program.between_pixel_iff hepsilon ho hleast hmost).1 hdeclared
  case raised =>
    intro hq
    obtain ⟨i, o, hdrawn, hi, ho, hcurrent⟩ := drawn_of_build hbuilt hq
    obtain ⟨outs, r, leads, lift, -, -, -, -, harr⟩ := Problem.build_ok hbuilt
    have hholds := (forall_current_iff (fun _ hj => harr.current_lt hj)
      fun c => c.weakened.Holds v).1 hlive _ hcurrent
    refine ⟨i, o, v[i], hdrawn, ho, hpixel hi, ?_⟩
    rw [← Affine.eval_var v (Nat.lt_succ_of_lt hi)]
    exact (Formula.raised_holds_iff _ o settings.quantizationStep v).1 hholds

/-! ## Rounding -/

/-- Rounding keeps the interval around every pixel, and does not undo a step above it. -/
def Steady (settings : Settings Rat) (origin : List Rat) : Prop :=
  ∀ o ∈ origin,
    max settings.minValue (o - settings.epsilon) ≤
      Number.roundHalfEven (max settings.minValue (o - settings.epsilon)) ∧
    (Number.roundHalfEven (min settings.maxValue (o + settings.epsilon)) : Rat) ≤
      min settings.maxValue (o + settings.epsilon) ∧
    o + settings.quantizationStep ≤ Number.roundHalfEven (o + settings.quantizationStep)

/-- **Integers are steady.** -/
theorem steady_of_whole (hepsilon : ∃ z : Int, settings.epsilon = z)
    (hmin : ∃ z : Int, settings.minValue = z) (hmax : ∃ z : Int, settings.maxValue = z)
    (hstep : ∃ z : Int, settings.quantizationStep = z)
    (horigin : ∀ o ∈ origin, ∃ z : Int, o = z) : Steady settings origin := by
  have hkeeps : ∀ {a : Rat}, (∃ z : Int, a = z) → (Number.roundHalfEven a : Rat) = a := by
    rintro a ⟨z, rfl⟩
    rw [Number.roundHalfEven_intCast]
  obtain ⟨e, he⟩ := hepsilon
  obtain ⟨least, hleast⟩ := hmin
  obtain ⟨most, hmost⟩ := hmax
  obtain ⟨step, hstep⟩ := hstep
  intro o ho
  obtain ⟨z, rfl⟩ := horigin o ho
  rw [hkeeps ⟨max least (z - e), by rw [hleast, he]; push_cast; rfl⟩,
    hkeeps ⟨min most (z + e), by rw [hmost, he]; push_cast; rfl⟩,
    hkeeps ⟨z + step, by rw [hstep]; push_cast; rfl⟩]
  exact ⟨le_refl _, le_refl _, le_refl _⟩

/-- **Rounding near pixels** gives near pixels where it is steady. -/
theorem Near.rounded (h : Near net settings trace draws origin x)
    (hsteady : Steady settings origin) :
    Near net settings trace draws origin (x.map Scalar.rounded) := by
  constructor
  case length => rw [List.length_map, h.length]
  case limits =>
    intro i o b ho hb
    rw [List.getElem?_map, Option.map_eq_some_iff] at hb
    obtain ⟨a, ha, rfl⟩ := hb
    obtain ⟨hlo, hhi⟩ := h.limits i o a ho ha
    obtain ⟨hleast, hmost, -⟩ := hsteady o (List.mem_of_getElem? ho)
    rw [Scalar.rounded_rat]
    exact (Number.rounds_into_iff (hlo.trans hhi)).2 ⟨hleast, hmost⟩ a hlo hhi
  case raised =>
    intro hq
    obtain ⟨i, o, a, hdrawn, ho, ha, hle⟩ := h.raised hq
    -- the step is not undone, and what is above it is rounded to what is above that
    obtain ⟨-, -, hstep⟩ := hsteady o (List.mem_of_getElem? ho)
    refine ⟨i, o, Scalar.rounded a, hdrawn, ho, by rw [List.getElem?_map, ha]; rfl, ?_⟩
    rw [Scalar.rounded_rat]
    have hkept : ((Number.roundHalfEven (o + settings.quantizationStep) : Int) : Rat) ≤
        Number.roundHalfEven a :=
      Int.cast_le.2 ((Number.roundHalfEven_spec _).mono (Number.roundHalfEven_spec a) hle)
    exact hstep.trans hkept

/-- What becomes of near pixels is near where it is steady or nothing is rounded. -/
theorem Near.settled (h : Near net settings trace draws origin x)
    (hsteady : settings.quantized = true → Steady settings origin) :
    Near net settings trace draws origin (x.map (Refinement.settle settings.quantized)) := by
  cases hq : settings.quantized with
  | true => exact h.rounded (hsteady hq)
  | false =>
    show Near net settings trace draws origin (x.map id)
    rw [List.map_id]
    exact h

/-- What becomes of a pixel is at most half a unit away from it. -/
theorem abs_settle_sub_le (quantized : Bool) (a : Rat) :
    |Refinement.settle quantized a - a| ≤ 1 / 2 := by
  cases quantized with
  | true =>
    show |Scalar.rounded a - a| ≤ 1 / 2
    rw [Scalar.rounded_rat, abs_sub_comm]
    exact (Number.roundHalfEven_spec a).1
  | false =>
    show |a - a| ≤ 1 / 2
    rw [sub_self, abs_zero]
    norm_num

/-! ## Images -/

/-- An image is another one, perturbed: no cell changes by more than the bound, and the pixels of
    its crop are near those of the other one. -/
structure Perturbation (net : Net Rat) (settings : Settings Rat) (trace : Trace) (draws : S)
    (datum full : List Rat) : Prop where
  length : full.length = datum.length
  close : ∀ (i : Nat) (a b : Rat), datum[i]? = some a → full[i]? = some b →
    |b - a| ≤ settings.epsilon
  near : ∃ origin x, net.cropped datum = .ok origin ∧ net.cropped full = .ok x ∧
    Near net settings trace draws origin x

/-- Near pixels, written back, perturb the image. -/
theorem Near.perturbation (h : Near net settings trace draws origin x)
    (hepsilon : 0 ≤ settings.epsilon) (hcrop : net.cropped datum = .ok origin)
    (hfull : net.uncropped datum x = .ok full) :
    Perturbation net settings trace draws datum full := by
  have hback : net.cropped full = .ok x := Net.cropped_uncropped hcrop hfull
  refine ⟨Net.length_uncropped hcrop hfull h.length, ?_, origin, x, hcrop, hback, h⟩
  intro i a b ha hb
  by_cases hi : net.InCrop i
  · -- the cell has the same place in both crops
    obtain ⟨j, hj⟩ := Net.exists_place hi
    rw [← hj hcrop] at ha
    rw [← hj hback] at hb
    obtain ⟨hlo, hhi⟩ := h.limits j a b ha hb
    have hlow : a - settings.epsilon ≤ b := (le_max_right _ _).trans hlo
    have hhigh : b ≤ a + settings.epsilon := hhi.trans (min_le_right _ _)
    rw [abs_le]
    constructor <;> linarith
  · rw [Net.uncropped_outside hfull hi, ha] at hb
    cases hb
    rw [sub_self, abs_zero]
    exact hepsilon

/-- Images in which different pixels were written back differ by no more than these do. -/
theorem abs_uncropped_sub_le {f : Rat → Rat} {d : Rat} (hd : 0 ≤ d) (hf : ∀ a, |f a - a| ≤ d)
    {full' : List Rat} (hfull' : net.uncropped datum (x.map f) = .ok full')
    (hfull : net.uncropped datum x = .ok full) (i : Nat) (a b : Rat) (ha : full[i]? = some a)
    (hb : full'[i]? = some b) : |b - a| ≤ d := by
  by_cases hi : net.InCrop i
  · rw [Net.uncropped_map hfull' hfull hi, ha] at hb
    cases hb
    exact hf a
  · rw [Net.uncropped_outside hfull hi] at ha
    rw [Net.uncropped_outside hfull' hi, ha] at hb
    cases hb
    rw [sub_self, abs_zero]
    exact hd

/-! ## Attempts -/

variable [Transcendental] {E F : Type} [Engine E Rat] {lab : Labelled Rat} {trueLabel : Int}

omit [Engine E Rat] in
/-- What was found was found by a loop that accepted a candidate. -/
theorem phase_of_found {n : Nat} {t : Refinement E Rat n} {r : AttemptResult Rat}
    (hrestored : restored net datum (resultOf t) = .ok r) (hfound : r.verdict = .found) :
    t.phase = .done := by
  by_contra hnot
  have hverdict : (resultOf t).verdict = .aborted := if_neg hnot
  have hsame : r = resultOf t := by
    refine restored_of_not_found ?_ hrestored
    rw [hverdict]
    nofun
  rw [hsame, hverdict] at hfound
  cases hfound

/-- The solution of a loop that accepted a candidate is sound, and there is a pixel for every input
    of the network. -/
theorem Course.accepted (hhonest : Engine.Honest E) {p : Problem Rat (net.inDim + 1)}
    {s : Session E Rat (net.inDim + 1)} {t : Refinement E Rat (net.inDim + 1)}
    (hc : Course net settings lab trace draws origin p s)
    (hloop : Refinement.run (quest net settings lab trueLabel) (Refinement.start s p.sets) =
      .ok () t) (hdone : t.phase = .done) :
    ∃ x ce, t.solution = some x ∧ t.candidate = some ce ∧
      Refinement.Sound (fixed settings origin p) p.current x ∧ origin.length = net.inDim ∧
      t.session.inputDim = net.inDim ∧
      ce.datum = (x.take net.inDim).map (Refinement.settle settings.quantized) := by
  have hreached := Refinement.run_reached hloop
  have hstart := hc.tracks
  have hvars := length_vars_fixed settings origin p
  obtain ⟨x, hx, hsound⟩ := hstart.accepted_of_turns rfl
    (fun htracks _ _ hsolve _ hx => htracks.sound hhonest hvars hsolve hx)
    (Refinement.turns_of_leads (Refinement.reached_iff.1 hreached)) hdone
  -- the same solution is the one whose candidate was labelled
  obtain ⟨x', ce, hx', hce, hlabel, -⟩ := (hreached.vouched rfl).accepted hdone
  cases hx.symm.trans hx'
  obtain ⟨log, htracks⟩ := hreached.tracks hstart
  have hdim : t.session.inputDim = origin.length := htracks.ledger.dim_eq
  obtain ⟨ys, hys, houtputs⟩ := Label.of_ok hlabel
  have hdatum := (Label.ofOutputs_ok houtputs).1
  rw [Refinement.candidateOf_eq, hdim] at hdatum hys
  -- a candidate that was labelled has the length of an input, and the solution is longer than that,
  -- so it is the origin that decides how many of its values are pixels
  have hlen : origin.length = net.inDim := by
    obtain ⟨v, rfl, -⟩ := hsound
    have hcandidate : ((v.toList.take origin.length).map
        (Refinement.settle settings.quantized)).length = net.inDim := Net.length_of_values hys
    rw [List.length_map, List.length_take, Vector.length_toList] at hcandidate
    omega
  rw [hlen] at hdatum hdim
  exact ⟨x, ce, hx, hce, hsound, hlen, hdim, hdatum⟩

/-- **What is found is near.**  Of accepted options, an input whose crop is within the range, and a
    solver that answers only with points its program admits: what is found is a perturbation of the
    input before it is rounded, rounding moves no cell by more than half a unit, and where rounding
    is steady, or there is none, the counterexample is a perturbation of the input itself. -/
theorem found_within (hhonest : Engine.Honest E) {o : Options Rat} (hvalid : o.validate = .ok ())
    (hsettings : o.settings = .ok settings) (hcrop : net.cropped lab.datum = .ok origin)
    (hrange : ∀ a ∈ origin, settings.minValue ≤ a ∧ a ≤ settings.maxValue)
    {create : F → List (Event Rat) × Outcome E × F} {factory : F} {r : AttemptResult Rat}
    (hrun : (run net settings lab trueLabel trace create factory (.ok draws)).1.result = .ok r)
    (hfound : r.verdict = .found) :
    ∃ ce u, r.counterexample = some ce ∧ r.unrounded = some u ∧
      Perturbation net settings trace draws lab.datum u ∧
      ce.datum.length = lab.datum.length ∧
      (∀ (i : Nat) (a b : Rat), u[i]? = some a → ce.datum[i]? = some b → |b - a| ≤ 1 / 2) ∧
      ((settings.quantized = true → Steady settings origin) →
        Perturbation net settings trace draws lab.datum ce.datum) := by
  have hepsilon := (Options.settings_inRange hvalid hsettings).epsilon.le
  rcases run_ok hrun with ⟨reason, event, -, rfl⟩ | ⟨d, origin', p, s, t, -, hd, hc, hloop,
    hrestored, -⟩
  · cases hfound
  cases hd
  cases hcrop.symm.trans hc.cropped
  have hdone := phase_of_found hrestored hfound
  obtain ⟨x, ce, hx, hce, hsound, hlen, hdim, hdatum⟩ := hc.accepted hhonest hloop hdone
  rw [resultOf_done hdone hx hce, hdim] at hrestored
  obtain ⟨full, hfull, hrestored⟩ := Outcome.bind_ok_iff.1 hrestored
  obtain ⟨u, hu, hrestored⟩ := Outcome.bind_ok_iff.1 hrestored
  cases hrestored
  rw [hdatum] at hfull
  have hnear := near_of_sound hc.built hepsilon hrange hlen hsound
  refine ⟨_, u, rfl, rfl, hnear.perturbation hepsilon hcrop hu, ?_, ?_, fun hsteady => ?_⟩
  · refine Net.length_uncropped hcrop hfull ?_
    rw [List.length_map]
    exact hnear.length
  · exact abs_uncropped_sub_le (by norm_num) (abs_settle_sub_le settings.quantized) hfull hu
  · exact (hnear.settled hsteady).perturbation hepsilon hcrop hfull

end

/-! ### A pixel that has to cross ten and a half -/

/-- A solver with one point to propose. -/
structure Proposal where
  point : List Rat

namespace Proposal

/-- It answers with its point, if that is between the bounds and meets the rows. -/
instance instEngine : Engine Proposal Rat where
  receive proposal _ := (.ok (), proposal)
  solve proposal p _ :=
    if Program.Bounded p.vars proposal.point ∧ ∀ r ∈ p.boundRows, r.Met proposal.point then
      (.ok ⟨.feasible, some proposal.point⟩, proposal)
    else (.ok ⟨.infeasible, none⟩, proposal)

theorem honest : Engine.Honest Proposal := by
  intro e engine p limit answer x hsolve hx
  change (if Program.Bounded p.vars e.point ∧ ∀ r ∈ p.boundRows, r.Met e.point then _ else _) = _
    at hsolve
  split at hsolve
  · rename_i hadmits
    cases hsolve
    cases hx
    exact hadmits
  · cases hsolve
    cases hx

end Proposal

namespace Threshold

attribute [local instance] Transcendental.flat

/-- `21/2 - x` and `x - 21/2`. -/
def head : DenseLayer Rat :=
  .flat 0 1 [[-1], [1]] [21 / 2, -21 / 2] rfl Seesaw.head.row_length

/-- The network with these outputs. -/
def net : Net Rat where
  first := .affine (.stage (.dense head))
  rest := []
  crop := none
  fits := rfl
  crop_fits := by decide

/-- The label at ten. -/
def lab : Labelled Rat := ⟨[10], 0, 1, 1 / 2, 0⟩

def trace : Trace := Trace.empty.record 0 .none

/-- The first pixel is drawn. -/
def draws : Cyclic Rat := .of [] [0]

/-- Makes a solver that proposes a point. -/
def proposing (x : List Rat) : List (Event Rat) × Outcome Proposal × List Rat :=
  ([], .ok ⟨x⟩, x)

/-- What a report says of an attempt that found something. -/
theorem found_parts (outcome : Outcome (AttemptResult Rat)) (d u : List Rat)
    (h : outcome.toOption.map (fun r => (r.verdict, r.counterexample.map (·.datum),
      r.unrounded)) = some (.found, some d, some u)) :
    ∃ r ce, outcome = .ok r ∧ r.verdict = .found ∧ r.counterexample = some ce ∧ ce.datum = d ∧
      r.unrounded = some u := by
  cases outcome with
  | error fault => cases h
  | ok r =>
    obtain ⟨verdict, reason, iterations, promoted, unrounded, counterexample⟩ := r
    cases counterexample with
    | none => cases h
    | some ce =>
      cases h
      exact ⟨_, ce, rfl, rfl, rfl, rfl, rfl⟩

/-- Eleven and a quarter is rounded to eleven, and both are near ten: the settings are integers. -/
theorem found_within_integers : ∃ r ce u,
    (run net Settings.defaults lab 0 trace proposing [45 / 4, 5 / 4] (.ok draws)).1.result =
      .ok r ∧
    r.counterexample = some ce ∧ r.unrounded = some u ∧ u = [45 / 4] ∧ ce.datum = [11] ∧
    Perturbation net Settings.defaults trace draws [10] u ∧
    Perturbation net Settings.defaults trace draws [10] ce.datum := by
  obtain ⟨r, ce, hr, hfound, hce, hdatum, hu⟩ := found_parts
    (run net Settings.defaults lab 0 trace proposing [45 / 4, 5 / 4] (.ok draws)).1.result
    [11] [45 / 4] (by cbv)
  have hrange : ∀ a ∈ [(10 : Rat)], Settings.defaults.minValue ≤ a ∧
      a ≤ Settings.defaults.maxValue := by decide +kernel
  obtain ⟨ce', u', hce', hu', hunrounded, -, -, hrounded⟩ :=
    found_within Proposal.honest Options.validate_defaults Options.settings_defaults rfl hrange hr
      hfound
  cases hce.symm.trans hce'
  cases hu.symm.trans hu'
  have hsteady : Steady Settings.defaults [10] :=
    steady_of_whole ⟨20, rfl⟩ ⟨0, rfl⟩ ⟨255, rfl⟩ ⟨1, rfl⟩
      (List.forall_mem_singleton.2 ⟨10, rfl⟩)
  exact ⟨r, ce, _, hr, hce, hu, rfl, hdatum, hunrounded, hrounded fun _ => hsteady⟩

/-- Options with a bound and a step that are no integers. -/
def options : Options Rat :=
  ((Options.defaults.set .epsilon (.real (3 / 4))).set .quantizationStep (.real (1 / 2))).set
    .labelConfidenceDiff (.real (1 / 4))

/-- What the options are read as. -/
def fine : Settings Rat :=
  { Settings.defaults with epsilon := 3 / 4, quantizationStep := 1 / 2, margin := 1 / 4 }

/-- Ten and five eighths is within three quarters of ten, but it is rounded to eleven, which is
    not, and reported all the same. -/
theorem found_too_far : options.validate = .ok () ∧ options.settings = .ok fine ∧
    Engine.Honest Proposal ∧ Label.traced net [10] true = .ok (lab, trace) ∧
    net.cropped [10] = .ok [10] ∧
    (∀ a ∈ [(10 : Rat)], fine.minValue ≤ a ∧ a ≤ fine.maxValue) ∧ ∃ r ce,
    (run net fine lab 0 trace proposing [85 / 8, 5 / 8] (.ok draws)).1.result = .ok r ∧
    r.verdict = .found ∧ r.counterexample = some ce ∧
    ¬ Perturbation net fine trace draws [10] ce.datum := by
  obtain ⟨r, ce, hr, hfound, hce, hdatum, -⟩ := found_parts
    (run net fine lab 0 trace proposing [85 / 8, 5 / 8] (.ok draws)).1.result [11] [85 / 8]
    (by cbv)
  refine ⟨by cbv, by cbv, Proposal.honest, by cbv, rfl, by decide +kernel, r, ce, hr, hfound, hce,
    fun h => ?_⟩
  have hclose := h.close 0 10 11 rfl (by rw [hdatum]; rfl)
  exact absurd hclose (by decide +kernel)

end Threshold

end Attempt

end Perturb
