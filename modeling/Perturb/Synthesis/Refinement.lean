/-
  The refinement loop of one attempt.

  The loop solves the program, labels the solution with the real network, and, if the network
  still gives the true label, looks for deferred constraints that the solution violates, adds some
  of them to the program, and solves again.

      solve ──→ validate ──→ done
        ↑   ↘       ↓
        │    abort ← refine
        └─────────────┘

  THE LOAD-BEARING STEP: `refine` returns to `solve` only if it flagged a deferred constraint that
  was not flagged before, so after `D` rounds of `D` unflagged constraints it cannot return again.
  A round has three steps; `run` therefore needs at most `3 (D + 2)` of them, whatever the solver
  answers.
-/
import Perturb.Data.Label
import Perturb.Synthesis.Problem

namespace Perturb

/-- Where the loop stands. -/
inductive Phase where
  | solve | validate | refine | done | abort
  deriving DecidableEq, Repr, Inhabited

/-- The name of a phase. -/
def Phase.name : Phase → String
  | .solve => "SOLVE"
  | .validate => "VALIDATE"
  | .refine => "REFINE"
  | .done => "DONE"
  | .abort => "ABORT"

/-- Why an attempt ended without a counterexample. -/
inductive Reason where
  | none
  | capReached
  | noSolution (status : Status)
  | nothingViolated
  | misclassified
  | lowConfidence
  deriving DecidableEq, Repr, Inhabited

/-- The text of a reason. -/
def Reason.text : Reason → String
  | .none => ""
  | .capReached => "refinement iteration cap reached"
  | .noSolution s => "no solution (" ++ s.word ++ ")"
  | .nothingViolated => "no violated deferred constraint"
  | .misclassified => "misclassified"
  | .lowConfidence => "low-confidence"

/-- The state of the loop. -/
structure Refinement (E K : Type) (n : Nat) where
  session : Session E K n
  sets : SetFamily Nat
  phase : Phase
  iterations : Nat
  promoted : Nat
  solution : Option (List K)
  candidate : Option (Labelled K)
  reason : Reason

/-- What stays fixed during an attempt. -/
structure Quest (K : Type) [Scalar K] where
  net : Net K
  settings : Settings K
  target : Int
  trueLabel : Int

namespace Refinement

variable {E K : Type} [Exponential K] [Engine E K] {n : Nat}

/-- The loop at its first solve. -/
def start (session : Session E K n) (sets : SetFamily Nat) : Refinement E K n :=
  ⟨session, sets, .solve, 0, 0, none, none, .none⟩

/-- The numbers of the current constraints. -/
def current (s : Refinement E K n) : List Nat := s.sets.items currentSet

/-- The numbers of the deferred constraints. -/
def deferred (s : Refinement E K n) : List Nat := s.sets.items deferredSet

/-- The deferred constraints that are not in the program. -/
def pending (s : Refinement E K n) : List Nat :=
  s.deferred.filter fun i => !s.session.isAdded i

/-- Gives up for a reason. -/
def giveUp (reason : Reason) (s : Refinement E K n) : Refinement E K n :=
  { s with phase := .abort, reason }

/-- The `solve` phase. -/
def solveStep (q : Quest K) : Step (Refinement E K n) Unit := fun s =>
  if q.settings.giveUpAfter < Scalar.ofNat s.iterations then .ok () (s.giveUp .capReached)
  else
    let s := { s with iterations := s.iterations + 1 }
    match Session.solve q.settings.timeLimit s.session with
    | .error e session => .error e { s with session }
    | .ok answer session =>
      let s := { s with session }
      match answer.solution? with
      | none => .ok () (s.giveUp (.noSolution answer.status))
      | some x => .ok () { s with solution := some x, phase := .validate }

/-- The pixels of a solution, rounded if the settings ask for it. -/
def candidateOf (q : Quest K) (inputDim : Nat) (solution : List K) : List K :=
  let pixels := solution.take inputDim
  if q.settings.quantized then pixels.map Scalar.rounded else pixels

/-- The `validate` phase. -/
def validateStep (q : Quest K) : Step (Refinement E K n) Unit := fun s =>
  match Label.of q.net (candidateOf q s.session.inputDim (s.solution.getD [])) false with
  | .error e => .error e s
  | .ok lab =>
    let spurious := Int.ofNat lab.label != q.target && Int.ofNat lab.label == q.trueLabel
    .ok () { s with
      candidate := some lab
      phase := if spurious then .refine else .done }

/-- Whether a solution satisfies a constraint; it must have a value for every variable. -/
def satisfied (c : Constraint K n) (solution : List K) : Outcome Bool :=
  if h : solution.length = n then c.holdsAt ⟨solution.toArray, by rw [List.size_toArray]; exact h⟩
  else .error .lengths

/-- Promotes the constraints of a list that the solution violates, until as many were promoted as
    one round allows; gives their number. -/
def promoteViolated (q : Quest K) (solution : List K) (counter : Nat) :
    List Nat → Step (Refinement E K n) Nat
  | [] => return 0
  | i :: rest => do
    if q.settings.maxPromotions ≤ Scalar.ofNat counter then return 0
    else
      let s ← get
      match satisfied ((s.session.pool[i]?).getD default) solution with
      | .error e => throw e
      | .ok true => promoteViolated q solution counter rest
      | .ok false =>
        match Session.promote i (some q.settings.maxPromotions) (s.session, counter) with
        | .error e (session, _) =>
          set { s with session }
          throw e
        | .ok false (session, counter) =>
          set { s with session }
          promoteViolated q solution counter rest
        | .ok true (session, counter) =>
          set { s with session, sets := s.sets.add currentSet i }
          let more ← promoteViolated q solution counter rest
          return more + 1

/-- The `refine` phase. -/
def refineStep (q : Quest K) : Step (Refinement E K n) Unit := do
  let s ← get
  let added ← promoteViolated q (s.solution.getD []) 0 s.pending
  if added = 0 then modify (giveUp .nothingViolated)
  else modify fun s => { s with promoted := s.promoted + added, phase := .solve }

/-- Whether the loop has ended. -/
def finished (s : Refinement E K n) : Bool :=
  match s.phase with
  | .done => true
  | .abort => true
  | _ => false

/-- One phase. -/
def step (q : Quest K) : Step (Refinement E K n) Unit := do
  match (← get).phase with
  | .solve => solveStep q
  | .validate => validateStep q
  | .refine => refineStep q
  | .done => return
  | .abort => return

/-- Phases up to a number, ending early when the loop has ended. -/
def stepsUpTo (q : Quest K) : Nat → Step (Refinement E K n) Unit
  | 0 => return
  | k + 1 => do
    if (← get).finished then return
    else
      step q
      stepsUpTo q k

/-- The states behind each of the next phases, and the fault that ended the loop, if one did. -/
def history (q : Quest K) : Nat → Refinement E K n → List (Refinement E K n) × Option Fault
  | 0, _ => ([], none)
  | k + 1, s =>
    if s.finished then ([], none)
    else
      match step q s with
      | .error e s => ([s], some e)
      | .ok () s =>
        let (later, fault) := history q k s
        (s :: later, fault)

/-- Runs the loop to its end. -/
def run (q : Quest K) : Step (Refinement E K n) Unit := do
  stepsUpTo q (3 * ((← get).pending.length + 2))

end Refinement

end Perturb
