/-
  The problem of one attempt.

  Building a problem replays the network along the recorded trace over fresh variables, one per
  pixel and one for the radius, and collects everything the solver will ever be told: the replay's
  constraints, the formula that makes the target win, and, as the settings ask, the ball around the
  origin, the raised pixel and an objective.

  All constraints lie in one pool and are referred to by their number.  Two sets matter: the
  CURRENT one, whose own items are the live constraints and which refers to the formulas, and the
  DEFERRED one.  Without laziness the current set refers to the deferred one too.
-/
import Perturb.Constraint.Sets
import Perturb.Net.Basic
import Perturb.Synthesis.Formula
import Perturb.Synthesis.Settings

namespace Perturb

/-- The number of the current set. -/
def currentSet : Nat := 0

/-- The number of the deferred set. -/
def deferredSet : Nat := 1

/-- The constraints, sets and objective of an attempt over `n` variables. -/
structure Problem (K : Type) (n : Nat) where
  outputs : List (Affine K n)
  pool : List (Constraint K n)
  sets : SetFamily Nat
  objective : Option (Objective K n)
  target : Int

namespace Problem

variable {K : Type} {n : Nat}

/-- Adds constraints to the pool; gives their numbers. -/
def enroll (p : Problem K n) (cs : List (Constraint K n)) : List Nat × Problem K n :=
  (List.range' p.pool.length cs.length, { p with pool := p.pool ++ cs })

/-- Adds constraints to the pool, in a set of their own to which the current set refers. -/
def attach (p : Problem K n) (cs : List (Constraint K n)) : Outcome (Problem K n) := do
  let (ids, p) := p.enroll cs
  let (s, sets) := p.sets.create ids
  let sets ← sets.unite currentSet s
  .ok { p with sets }

/-- The numbers of the current constraints, in order. -/
def current (p : Problem K n) : List Nat := p.sets.items currentSet

/-- The numbers of the deferred constraints, in order. -/
def deferred (p : Problem K n) : List Nat := p.sets.items deferredSet

/-- The problem that holds what a replay left behind. -/
def ofReplay {S : Type} (outputs : List (Affine K n)) (r : Replay S K n) (target : Int) :
    Problem K n :=
  let empty : Problem K n := ⟨outputs, [], SetFamily.empty, none, target⟩
  let (live, p) := empty.enroll r.current
  let (waiting, p) := p.enroll r.deferred
  let (_, sets) := p.sets.create live
  let (_, sets) := sets.create waiting
  { p with sets }

variable [Scalar K]

/-- The terms of the pixels: the first `count` variables. -/
def pixels (count : Nat) : List (Affine K n) := (List.range count).map Affine.var

/-- The problem of an attempt at a cropped input. -/
def build {S : Type} [Source S K] (net : Net K) (settings : Settings K) (origin : List K)
    (trace : Trace) (label target : Int) (draws : S) :
    Outcome (Problem K (net.inDim + 1)) := do
  let inputs := pixels net.inDim
  let eps : Affine K (net.inDim + 1) := Affine.var net.inDim
  let (outputs, r) ← net.replay trace settings.samplingRatio inputs (Replay.start draws)
  let p := ofReplay outputs r target
  let p ← p.attach (← Formula.beats outputs target settings.margin)
  let p ← if settings.optimise then do
      let p ← p.attach (Formula.ball inputs origin eps settings.epsilon)
      let o ← Formula.objective settings.objective eps outputs label target
      .ok { p with objective := some o }
    else .ok p
  let p ← if settings.quantized then do
      let (cs, _) ← Formula.raised inputs origin r.draws settings.quantizationStep
      p.attach cs
    else .ok p
  if settings.lazy then .ok p
  else do
    let sets ← p.sets.unite currentSet deferredSet
    .ok { p with sets }

end Problem

end Perturb
