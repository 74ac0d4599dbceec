/-
  One output of an affine layer as a straight-line recipe.

  A recipe starts a running total at a number and updates it by a list of moves, each of which
  reads at most one input.  A layer says what its recipes are ONCE; running them with plain numbers
  evaluates the layer, running them with affine terms replays it on every input at once.  Since
  both runs perform the same moves, they agree by construction, which is the load-bearing idea of
  the replay.

  `reads` lists the inputs a recipe touches, so that "no recipe reads beyond its input" can be said
  without running anything.
-/
import Perturb.Term.Affine
import Perturb.Fault

namespace Perturb

/-- An update of a running total. -/
inductive Move (K : Type) where
  /-- Add an input. -/
  | add (input : Nat)
  /-- Add a multiple of an input. -/
  | addMul (input : Nat) (weight : K)
  /-- Multiply the total. -/
  | mul (factor : K)
  deriving Inhabited, Repr

/-- A running total: where it starts and how it is updated. -/
structure Recipe (K : Type) where
  start : K
  moves : List (Move K)
  deriving Inhabited, Repr

namespace Move

variable {K A : Type} [Accumulator K A]

/-- The input a move reads, if any. -/
def read? : Move K → Option Nat
  | .add i => some i
  | .addMul i _ => some i
  | .mul _ => none

/-- A move on a running total; reading an input that is not there leaves the total alone. -/
def apply (x : List A) (total : A) : Move K → A
  | .add i => match x[i]? with
    | some v => Accumulator.add total v
    | none => total
  | .addMul i w => match x[i]? with
    | some v => Accumulator.addMul total v w
    | none => total
  | .mul d => Accumulator.mul total d

end Move

namespace Recipe

variable {K A : Type} [Accumulator K A]

/-- The inputs a recipe reads, in order. -/
def reads (r : Recipe K) : List Nat := r.moves.filterMap Move.read?

/-- The total a recipe arrives at. -/
def run (x : List A) (r : Recipe K) : A := r.moves.foldl (Move.apply x) (Accumulator.const r.start)

/-- The totals of several recipes, provided that every input they read is there. -/
def runAll (x : List A) (rs : List (Recipe K)) : Outcome (List A) :=
  if rs.all fun r => r.reads.all (· < x.length) then .ok (rs.map (run x)) else .error .position

end Recipe

end Perturb
