/-
  What an attempt reports is true, whatever the solver says.

  Nothing is assumed of the solver: it may answer with points that violate the program, with points
  of a wrong length, or with any status.  What is reported as found is nevertheless a counterexample
  (`run_found`), because

  1. **the loop** ends in `done` only right after labelling the candidate, so that candidate and
     solution of the last state belong together (`Vouched`);

  2. **the label** of that candidate is the target or not the true label, and the target never is
     the true label of an input that was not skipped;

  3. **the image** — THE CRUX is that cropping undoes writing back (`Net.cropped_uncropped`): the
     full image is labelled by what the network said of the candidate.
-/
import Perturb.Proofs.Number.Rounding
import Perturb.Proofs.Synthesis.Answer
import Perturb.Proofs.Synthesis.Attempt

namespace Perturb

/-! ## The last state -/

namespace Refinement

variable [Transcendental] {E : Type} [Engine E Rat] {n : Nat}

/-- **Every state reached** has candidate and solution together. -/
theorem Reached.vouched {q : Quest Rat} {s₀ s : Refinement E Rat n} (h : Reached q s₀ s)
    (hp : s₀.phase = .solve) : Vouched q s :=
  vouched_of_turns hp (turns_of_leads (reached_iff.1 h))

/-- What becomes of one pixel of a solution. -/
def settle (quantized : Bool) (a : Rat) : Rat := if quantized then Scalar.rounded a else a

theorem candidateOf_eq (q : Quest Rat) (dim : Nat) (x : List Rat) :
    candidateOf q dim x = (x.take dim).map (settle q.settings.quantized) := by
  unfold candidateOf
  cases q.settings.quantized with
  | true => rfl
  | false => exact (List.map_id _).symm

/-- Without rounding a candidate is the pixels of the solution. -/
theorem candidateOf_plain {q : Quest Rat} (h : q.settings.quantized = false) (dim : Nat)
    (x : List Rat) : candidateOf q dim x = x.take dim := by
  rw [candidateOf_eq, h]
  exact List.map_id _

end Refinement

/-! ## Counterexamples -/

/-- One pixel is another one, rounded half to even if that is asked for. -/
def Settled (quantized : Bool) (a b : Rat) : Prop :=
  if quantized then ∃ z : Int, Number.HalfEven a z ∧ b = z else b = a

theorem settled_settle (quantized : Bool) (a : Rat) :
    Settled quantized a (Refinement.settle quantized a) := by
  cases quantized with
  | true => exact ⟨_, Number.roundHalfEven_spec a, Scalar.rounded_rat a⟩
  | false => rfl

/-- `ce` is a counterexample to the label of `lab`, and `u` what it was rounded from. -/
structure Refutes [Transcendental] (net : Net Rat) (quantized : Bool) (lab ce : Labelled Rat)
    (u : List Rat) : Prop where
  relabelled : Label.of net ce.datum true = .ok ce
  differs : ce.label ≠ lab.label
  outside : ∀ i, ¬ net.InCrop i → ce.datum[i]? = lab.datum[i]? ∧ u[i]? = lab.datum[i]?
  inside : ∀ i, net.InCrop i → Option.Rel (Settled quantized) u[i]? ce.datum[i]?

namespace Attempt

section

variable [Transcendental] {E : Type} [Engine E Rat] {S F : Type} [Source S Rat] {net : Net Rat}
  {settings : Settings Rat} {lab : Labelled Rat} {trueLabel : Int} {trace : Trace}

/-- A candidate that is not spurious, written back, is a counterexample. -/
theorem refutes_of_vouched {origin : List Rat} (hcrop : net.cropped lab.datum = .ok origin)
    (hne : lab.second ≠ lab.label) (htrue : trueLabel = Int.ofNat lab.label) {dim : Nat}
    {x full u : List Rat} {ce : Labelled Rat}
    (hlab : Label.of net (Refinement.candidateOf (quest net settings lab trueLabel) dim x) false =
      .ok ce) (hs : ¬ Refinement.Spurious (quest net settings lab trueLabel) ce)
    (hfull : net.uncropped lab.datum ce.datum = .ok full)
    (hu : net.uncropped lab.datum (x.take dim) = .ok u) :
    Refutes net settings.quantized lab { ce with datum := full } u := by
  obtain ⟨ys, hys, houtputs⟩ := Label.of_ok hlab
  have hdatum := (Label.ofOutputs_ok houtputs).1
  rw [Refinement.candidateOf_eq] at hdatum
  constructor
  case relabelled =>
    unfold Label.of Label.prepared
    rw [if_pos rfl, Net.cropped_uncropped hcrop hfull, Outcome.ok_bind, (Label.ofOutputs_ok
      houtputs).1, hys, Outcome.ok_bind]
    exact Label.ofOutputs_datum houtputs full
  case differs => exact Refinement.label_ne_of_accepted rfl htrue hne hs
  case outside =>
    exact fun i hi => ⟨Net.uncropped_outside hfull hi, Net.uncropped_outside hu hi⟩
  case inside =>
    intro i hi
    rw [hdatum] at hfull
    show Option.Rel _ _ full[i]?
    rw [Net.uncropped_map hfull hu hi]
    cases u[i]? with
    | none => exact .none
    | some a => exact .some (settled_settle settings.quantized a)

/-- **Acceptance is sound.**  Of an input that was labelled, with a crop or without, and whatever
    the solver and its creation do: what is reported as found is a counterexample to the true label,
    and otherwise none is reported. -/
theorem run_found {datum : List Rat} (hlab : Label.traced net datum true = .ok (lab, trace))
    {create : F → List (Event Rat) × Outcome E × F} {factory : F} {draws : Outcome S}
    {r : AttemptResult Rat}
    (h : (run net settings lab trueLabel trace create factory draws).1.result = .ok r) :
    (r.verdict = .found → trueLabel = Int.ofNat lab.label ∧ ∃ ce u, r.counterexample = some ce ∧
      r.unrounded = some u ∧ Refutes net settings.quantized lab ce u) ∧
    (r.verdict ≠ .found → r.counterexample = none) := by
  obtain ⟨-, ys, -, -, houtputs⟩ := Label.traced_ok hlab
  obtain ⟨-, -, -, -, hne⟩ := Label.ofOutputs_ok houtputs
  rcases run_ok h with ⟨reason, event, -, rfl⟩ | ⟨d, origin, p, s, t, hskip, -, hcourse, hrun,
    hrestored, -⟩
  · exact ⟨by rintro ⟨⟩, fun _ => rfl⟩
  by_cases hdone : t.phase = .done
  · obtain ⟨x, ce, hx, hce, hof, hs⟩ :=
      ((Refinement.run_reached hrun).vouched rfl).accepted hdone
    rw [resultOf_done hdone hx hce] at hrestored
    obtain ⟨full, hfull, hrestored⟩ := Outcome.bind_ok_iff.1 hrestored
    obtain ⟨u, hu, hrestored⟩ := Outcome.bind_ok_iff.1 hrestored
    cases hrestored
    have htrue := label_of_skip? hskip
    exact ⟨fun _ => ⟨htrue, _, u, rfl, rfl,
      refutes_of_vouched hcourse.cropped hne htrue hof hs hfull hu⟩, fun hnot => absurd rfl hnot⟩
  · have hverdict : (resultOf t).verdict = .aborted := if_neg hdone
    have hnot : (resultOf t).verdict ≠ .found := by
      rw [hverdict]
      rintro ⟨⟩
    have hnone : (resultOf t).counterexample = none := if_neg hdone
    rw [restored_of_not_found hnot hrestored]
    exact ⟨fun hfound => absurd hfound hnot, fun _ => hnone⟩

end

/-! ### A rounded counterexample -/

namespace Ramp

attribute [local instance] Transcendental.flat

/-- The pixel has to move and is rounded. -/
def rounding : Settings Rat :=
  { plain with epsilon := 4, minValue := -5, maxValue := 5, quantized := true }

/-- The solver answers with minus three halves, which is rounded to minus two, where the outputs are
    zero and one. -/
theorem run_found_ramp : ∃ r ce u,
    (run Net.Ramp.net rounding lab 0 trace prepared (.of [.answer ⟨.optimal, some [-3 / 2, 0]⟩])
      (.ok draws)).1.result = .ok r ∧
    r.verdict = .found ∧ r.counterexample = some ce ∧ r.unrounded = some u ∧
    Refutes Net.Ramp.net true lab ce u := by
  have hverdict : (run Net.Ramp.net rounding lab 0 trace prepared
      (.of [.answer ⟨.optimal, some [-3 / 2, 0]⟩]) (.ok draws)).1.result.toOption.map
        (·.verdict) = some .found := by cbv
  cases hresult : (run Net.Ramp.net rounding lab 0 trace prepared
      (.of [.answer ⟨.optimal, some [-3 / 2, 0]⟩]) (.ok draws)).1.result with
  | error fault =>
    rw [hresult] at hverdict
    cases hverdict
  | ok r =>
    rw [hresult] at hverdict
    have hfound : r.verdict = .found := Option.some.inj hverdict
    obtain ⟨-, ce, u, hce, hu, hrefutes⟩ := (run_found recorded.traced hresult).1 hfound
    exact ⟨r, ce, u, rfl, hfound, hce, hu, hrefutes⟩

end Ramp

end Attempt

end Perturb
