/-
  The formulas of an attempt, as lists of constraints over given terms.

    * `beats`       one output is at least as large as every other, by a margin;
    * `within`      every input lies in the clipped neighbourhood of its origin;
    * `ball`        every input lies within a radius, itself a term, of its origin;
    * `raised`      one drawn input lies at least a step above its origin.

  The objective is either the smallest radius or the largest lead of the target.
-/
import Perturb.Program.Session
import Perturb.Random.Source

namespace Perturb.Formula

variable {K : Type} [Scalar K] {n : Nat}

/-- `outputs[label]` is at least every other output plus `margin`. -/
def beats (outputs : List (Affine K n)) (label : Int) (margin : K) :
    Outcome (List (Constraint K n)) := do
  let rivals := (outputs.zipIdx.filter fun (_, i) => Int.ofNat i != label).map (·.1)
  rivals.mapM fun rival => do
    let winner ← pick outputs label
    .ok (.of ((winner.sub rival).addScalar (-margin)) .ge)

/-- Every input lies in the clipped interval around its origin. -/
def within (inputs : List (Affine K n)) (origin : List K) (bound min max : K) :
    List (Constraint K n) :=
  (List.zip inputs (clippedBounds origin bound min max)).flatMap fun (x, lo, hi) =>
    [.of (x.addScalar (-lo)) .ge, .of (x.addScalar (-hi)) .le]

/-- Every input lies within `eps` of its origin, and `0 < eps ≤ most`. -/
def ball (inputs : List (Affine K n)) (origin : List K) (eps : Affine K n) (most : K) :
    List (Constraint K n) :=
  ((List.zip inputs origin).flatMap fun (x, o) =>
    [.of ((x.add eps).addScalar (-o)) .ge, .of ((x.sub eps).addScalar (-o)) .le])
  ++ [.of eps .gt, .of (eps.addScalar (-most)) .le]

/-- One drawn input lies at least `step` above its origin. -/
def raised {S : Type} [Source S K] (inputs : List (Affine K n)) (origin : List K) (draws : S)
    (step : K) : Outcome (List (Constraint K n) × S) := do
  let (i, draws) ← Source.below draws inputs.length
  let x ← pick inputs (Int.ofNat i)
  let o ← pick origin (Int.ofNat i)
  .ok ([.of (x.addScalar (-(o + step))) .ge], draws)

/-- The objective of a name: the radius made small, or the lead of `target` over `label` made
    large. -/
def objective (name : String) (eps : Affine K n) (outputs : List (Affine K n))
    (label target : Int) : Outcome (Objective K n) :=
  if name = "min-linf" then .ok ⟨eps, ⟨"min"⟩⟩
  else if name = "max-conf" then do
    let t ← pick outputs target
    let o ← pick outputs label
    .ok ⟨t.sub o, ⟨"max"⟩⟩
  else .error (.unknownObjective name)

end Perturb.Formula
