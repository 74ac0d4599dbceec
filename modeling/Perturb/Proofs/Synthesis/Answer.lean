/-
  What an attempt answers, whatever it computes with.

  Neither the numbers, nor the network, nor the solver are assumed to be anything here: comparisons
  may fail, vectors may be of any length.  What is reported as found nevertheless belongs to the
  input it was searched for.

  1. **The last state** — the loop ends in `done` only right after labelling the candidate, so
     candidate and solution belong together there (`Vouched`, kept by every turn), and the label is
     not the true one (`label_ne_of_accepted`).

  2. **The answer** — `Answers` says what a counterexample has to do with its input, and
     `run_answers` that every one reported has it.  THE CRUX is that the input has an entry at all:
     a network that takes nothing gives one and the same label to its only input, so a candidate for
     it is spurious.
-/
import Perturb.Proofs.Net.Crop
import Perturb.Proofs.Synthesis.Launch
import Perturb.Proofs.Synthesis.Loop

namespace Perturb

/-! ## The last state -/

namespace Refinement

variable {E K : Type} [Exponential K] {n : Nat}

theorem length_candidateOf (q : Quest K) (dim : Nat) (x : List K) :
    (candidateOf q dim x).length = min dim x.length := by
  unfold candidateOf
  split
  · rw [List.length_map, List.length_take]
  · exact List.length_take

/-- What is accepted for an input with the true label does not have that label, if the target is
    another one. -/
theorem label_ne_of_accepted {q : Quest K} {lab ce : Labelled K}
    (htarget : q.target = Int.ofNat lab.second) (htrue : q.trueLabel = Int.ofNat lab.label)
    (hne : lab.second ≠ lab.label) (hs : ¬ Spurious q ce) : ce.label ≠ lab.label := by
  intro heq
  refine hs ⟨fun h => hne ?_, htrue ▸ congrArg Int.ofNat heq⟩
  exact (Int.ofNat.inj (h.trans htarget)).symm.trans heq

/-- Candidate and solution belong together when they are looked at. -/
structure Vouched (q : Quest K) (s : Refinement E K n) : Prop where
  solved : s.phase = .validate → ∃ x, s.solution = some x
  accepted : s.phase = .done → ∃ x lab, s.solution = some x ∧ s.candidate = some lab ∧
    Label.of q.net (candidateOf q s.session.inputDim x) false = .ok lab ∧ ¬ Spurious q lab

/-- A state in another phase vouches for nothing. -/
theorem Vouched.of_phase {q : Quest K} {s : Refinement E K n} (hv : s.phase ≠ .validate)
    (hd : s.phase ≠ .done) : Vouched q s :=
  ⟨fun h => absurd h hv, fun h => absurd h hd⟩

variable [Engine E K]

/-- Every turn leaves candidate and solution together. -/
theorem Turn.vouched {q : Quest K} {s t : Refinement E K n} (hturn : Turn q s t)
    (h : Vouched q s) : Vouched q t := by
  cases hturn with
  | cap hp hcap => exact .of_phase (by rintro ⟨⟩) (by rintro ⟨⟩)
  | unsolved hp hcap hs hx => exact .of_phase (by rintro ⟨⟩) (by rintro ⟨⟩)
  | solved hp hcap hs hx => exact ⟨fun _ => ⟨_, rfl⟩, by rintro ⟨⟩⟩
  | rejected hp hl hs => exact .of_phase (by rintro ⟨⟩) (by rintro ⟨⟩)
  | accepted hp hl hs =>
    obtain ⟨x, hx⟩ := h.solved hp
    rw [hx] at hl
    exact ⟨by rintro ⟨⟩, fun _ => ⟨x, _, hx, rfl, hl, hs⟩⟩
  | stuck hp ho hok => exact .of_phase (by rintro ⟨⟩) (by rintro ⟨⟩)
  | refined hp ho hok h0 => exact .of_phase (by rintro ⟨⟩) (by rintro ⟨⟩)

/-- **Wherever turns lead** from a first solve, candidate and solution are together. -/
theorem vouched_of_turns {q : Quest K} {s t : Refinement E K n} (hp : s.phase = .solve)
    (hst : Relation.ReflTransGen (Turn q) s t) : Vouched q t :=
  inv_of_turns (fun _ _ hs hturn => hturn.vouched hs)
    (.of_phase (by rw [hp]; rintro ⟨⟩) (by rw [hp]; rintro ⟨⟩)) hst

end Refinement

/-! ## The answer -/

namespace Attempt

/-- The result of a loop that found something. -/
theorem resultOf_done {E K : Type} {n : Nat} {t : Refinement E K n} {x : List K}
    {ce : Labelled K} (hdone : t.phase = .done) (hx : t.solution = some x)
    (hce : t.candidate = some ce) :
    resultOf t = ⟨.found, t.reason, t.iterations, t.promoted, some (x.take t.session.inputDim),
      some ce⟩ := by
  unfold resultOf
  rw [if_pos hdone, if_pos hdone, hx, hce]
  rfl

/-- What a counterexample `ce`, and the point `u` it was made from, have to do with the input they
    were searched for: the network gives the input its true label and the counterexample another
    one, and there is something to compare, entry by entry. -/
structure Answers {K : Type} (lab : Labelled K) (trueLabel : Int) (ce : Labelled K) (u : List K) :
    Prop where
  truth : trueLabel = Int.ofNat lab.label
  differs : ce.label ≠ lab.label
  nonempty : lab.datum ≠ []
  length_ce : ce.datum.length = lab.datum.length
  length_u : u.length = lab.datum.length

variable {E K S F : Type} [Exponential K] [Engine E K] [Source S K] {net : Net K}
  {settings : Settings K} {lab : Labelled K} {trueLabel : Int} {trace : Trace} {datum : List K}

/-- **Whatever is found answers the question** that was asked, of every input that was labelled. -/
theorem run_answers (hlab : Label.traced net datum true = .ok (lab, trace))
    {create : F → List (Event K) × Outcome E × F} {factory : F} {draws : Outcome S}
    {r : AttemptResult K}
    (h : (run net settings lab trueLabel trace create factory draws).1.result = .ok r)
    (hfound : r.verdict = .found) :
    ∃ ce u, r.counterexample = some ce ∧ r.unrounded = some u ∧ Answers lab trueLabel ce u := by
  rcases run_launched h with ⟨reason, event, -, rfl⟩ | ⟨d, origin, p, s, t, hskip, -, hcrop, -,
    hrun, hrestored, -⟩
  · cases hfound
  by_cases hdone : t.phase = .done
  case neg =>
    have hverdict : (resultOf t).verdict = .aborted := if_neg hdone
    have hnot : (resultOf t).verdict ≠ .found := by
      rw [hverdict]
      rintro ⟨⟩
    rw [restored_of_not_found hnot hrestored] at hfound
    exact absurd hfound hnot
  have hturns := Refinement.turns_of_leads (Refinement.run_leads hrun)
  obtain ⟨x, ce, hx, hce, hof, hs⟩ := (Refinement.vouched_of_turns rfl hturns).accepted hdone
  rw [resultOf_done hdone hx hce] at hrestored
  obtain ⟨full, hfull, hrestored⟩ := Outcome.bind_ok_iff.1 hrestored
  obtain ⟨u, hu, hrestored⟩ := Outcome.bind_ok_iff.1 hrestored
  cases hrestored
  obtain ⟨origin', ys, hcrop', htraced, houtputs⟩ := Label.traced_ok hlab
  obtain ⟨hdatum, ⟨y, hlargest⟩, -, hne⟩ := Label.ofOutputs_parts houtputs
  rw [← hdatum] at hcrop'
  cases hcrop.symm.trans hcrop'
  have hvalues := Net.values_of_traced htraced
  obtain ⟨zs, hzs, hrelabelled⟩ := Label.of_ok hof
  obtain ⟨hpoint, ⟨z, hlargest'⟩, -, -⟩ := Label.ofOutputs_parts hrelabelled
  have htrue := label_of_skip? hskip
  have hdiffers : ce.label ≠ lab.label := Refinement.label_ne_of_accepted rfl htrue hne hs
  -- the network took the candidate, so the candidate is as long as what it took before
  have hlength : ce.datum.length = origin.length := by
    rw [hpoint, Net.length_of_values hzs, Net.length_of_values hvalues]
  have hunrounded : (x.take t.session.inputDim).length = origin.length := by
    rw [← hlength, hpoint, Refinement.length_candidateOf, List.length_take]
  refine ⟨_, u, rfl, rfl, htrue, hdiffers, fun hnil => ?_, Net.length_uncropped hcrop hfull hlength,
    Net.length_uncropped hcrop hu hunrounded⟩
  -- of an input without entries the candidate is the input, and has its label
  rw [hnil] at hcrop
  have horigin := Net.cropped_nil hcrop
  rw [horigin] at hvalues hlength
  rw [← hpoint, List.eq_nil_of_length_eq_zero hlength] at hzs
  cases hvalues.symm.trans hzs
  have hsame := Except.ok.inj (hlargest.symm.trans hlargest')
  exact hdiffers (congrArg Prod.snd hsame).symm

end Attempt

end Perturb
