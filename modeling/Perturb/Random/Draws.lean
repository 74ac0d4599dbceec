/-
  Draws of either kind: prescribed ones, or those of a seeded generator.
-/
import Perturb.Random.Pcg

namespace Perturb

/-- A source of prescribed draws, or a seeded one. -/
inductive Draws where
  | prescribed (s : Cyclic Float)
  | seeded (g : Pcg)
  deriving Repr

namespace Draws

/-- A number in the unit interval. -/
def unit : Draws → Float × Draws
  | .prescribed s =>
    let (x, s) := s.nextUnit
    (x, .prescribed s)
  | .seeded g =>
    let (x, g) : Float × Pcg := g.unit
    (x, .seeded g)

/-- An index below a bound. -/
def below (d : Draws) (bound : Nat) : Outcome (Nat × Draws) :=
  match d with
  | .prescribed s => (s.nextBelow bound).map fun (i, s) => (i, .prescribed s)
  | .seeded g => (g.below bound).map fun (i, g) => (i, .seeded g)

/-- The seeded draws for an item: every item has its own seed, counted from that of the run. -/
def forItem (seed : Option Int) (i : Nat) : Outcome Draws :=
  (Pcg.ofSeed (seed.getD 0 + Int.ofNat i)).map .seeded

end Draws

/-- Draws of either kind are a source. -/
instance Source.instDraws : Source Draws Float where
  unit := Draws.unit
  below := Draws.below

end Perturb
