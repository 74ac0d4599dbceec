/-
  One attempt to find a counterexample for a labelled input.

  An attempt is skipped when the network does not give the true label anyway, or, if asked for,
  when it is not sure enough.  Otherwise the problem is built, a solver is created and told the
  variables, the current constraints and the objective, and the refinement loop runs.  A candidate
  that is found is written back into the full image.

  What the solver was told is part of the result even if the attempt fails half way.
-/
import Perturb.Synthesis.Refinement

namespace Perturb

/-- How an attempt ended. -/
inductive Verdict where
  | skipped | found | aborted
  deriving DecidableEq, Repr, Inhabited

/-- The name of a verdict. -/
def Verdict.name : Verdict → String
  | .skipped => "SKIPPED"
  | .found => "DONE"
  | .aborted => "ABORT"

/-- The result of an attempt. -/
structure AttemptResult (K : Type) where
  verdict : Verdict
  reason : Reason
  iterations : Nat
  promoted : Nat
  unrounded : Option (List K)
  counterexample : Option (Labelled K)
  deriving Repr, Inhabited

/-- What happens during a run that is worth a line in the log. -/
inductive Event (K : Type) where
  | alreadyWrong (label trueLabel : Int)
  | notSure (softmax : K)
  | backendFallback
  | legacyDivisor (index : Nat)
  | found (item : Nat) (label synthesized : Nat) (linf : K) (solves : Nat)
  | notFound (item : Nat) (reason : String)
  | progress (processed count found : Int)
  | failed (item : Nat)
  | accuracy (dataset : String) (correct total : Nat)
  | patterns (layer : Int) (distinct collisions : Nat)
  | summary (lines : List (String × Int))
  | optionsLoaded (path : String)
  | netLoaded (description : String)
  | dataLoaded (count : Nat) (path : String)
  | registryWritten (path : String) (count : Nat)
  deriving Repr, Inhabited

namespace Attempt

variable {E K : Type} [Exponential K] [Engine E K]

/-- Opens the session of a problem: variables, current constraints, objective. -/
def openSession {n : Nat} (settings : Settings K) (origin : List K) (p : Problem K n) :
    Step (Session E K n) Unit := do
  Session.begin origin settings.epsilon settings.minValue settings.maxValue settings.integrality
  let _ ← Session.exportAll p.current
  match p.objective with
  | some o => Session.setObjective o
  | none => return

/-- The result of a loop that has ended. -/
def resultOf {n : Nat} (s : Refinement E K n) : AttemptResult K where
  verdict := if s.phase = .done then .found else .aborted
  reason := s.reason
  iterations := s.iterations
  promoted := s.promoted
  unrounded := s.solution.map (·.take s.session.inputDim)
  counterexample := if s.phase = .done then s.candidate else none

/-- The result with its vectors written back into the full image. -/
def restored (net : Net K) (datum : List K) (r : AttemptResult K) : Outcome (AttemptResult K) :=
  match r.verdict, r.counterexample, r.unrounded with
  | .found, some ce, some u => do
    let full ← net.uncropped datum ce.datum
    let unrounded ← net.uncropped datum u
    .ok { r with counterexample := some { ce with datum := full }, unrounded := some unrounded }
  | _, _, _ => .ok r

/-- Why an input is skipped, if it is, and the event that says so. -/
def skip? (settings : Settings K) (lab : Labelled K) (trueLabel : Int) :
    Option (Reason × Event K) :=
  if trueLabel ≠ Int.ofNat lab.label then
    some (.misclassified, .alreadyWrong (Int.ofNat lab.label) trueLabel)
  else if settings.skipLowConfidence && decide (lab.softmax < settings.lowConfidence) then
    some (.lowConfidence, .notSure lab.softmax)
  else none

/-- What an attempt leaves behind: events, what the solver was told if there is one, and the
    result. -/
structure Report (E K : Type) where
  events : List (Event K)
  told : Option (Program K × E)
  result : Outcome (AttemptResult K)

/-- Searches a counterexample for a labelled input along its trace.  `create` makes the solver; the
draws are looked at only if the input is not skipped. -/
def run {S F : Type} [Source S K] (net : Net K) (settings : Settings K) (lab : Labelled K)
    (trueLabel : Int) (trace : Trace) (create : F → List (Event K) × Outcome E × F) (factory : F)
    (draws : Outcome S) : Report E K × F :=
  match skip? settings lab trueLabel with
  | some (reason, event) =>
    (⟨[event], none, .ok ⟨.skipped, reason, 0, 0, none, none⟩⟩, factory)
  | none =>
    let built := do
      let draws ← draws
      let origin ← net.cropped lab.datum
      let p ← Problem.build net settings origin trace (Int.ofNat lab.label)
        (Int.ofNat lab.second) draws
      .ok (origin, p)
    match built with
    | .error e => (⟨[], none, .error e⟩, factory)
    | .ok (origin, p) =>
      match create factory with
      | (events, .error e, factory) => (⟨events, none, .error e⟩, factory)
      | (events, .ok engine, factory) =>
        match openSession settings origin p (Session.fresh engine origin.length p.pool) with
        | .error e s => (⟨events, some (s.program, s.engine), .error e⟩, factory)
        | .ok () s =>
          let quest : Quest K := ⟨net, settings, Int.ofNat lab.second, trueLabel⟩
          match Refinement.run quest (Refinement.start s p.sets) with
          | .error e r => (⟨events, some (r.session.program, r.session.engine), .error e⟩, factory)
          | .ok () r =>
            (⟨events, some (r.session.program, r.session.engine),
              restored net lab.datum (resultOf r)⟩, factory)

end Attempt

end Perturb
