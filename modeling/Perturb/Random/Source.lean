/-
  Sources of random draws.

  Two draws occur: a number in the unit interval, which decides whether a live constraint is
  deferred, and an index below a bound, which picks the coordinate that must move.  A source is any
  state with these two steps; `Cyclic` repeats two given lists and is what an experiment with
  prescribed draws uses.
-/
import Perturb.Scalar
import Perturb.Fault

namespace Perturb

/-- A state `S` from which numbers of type `K` and indices are drawn. -/
class Source (S : Type) (K : outParam Type) where
  /-- A number in the unit interval. -/
  unit : S → K × S
  /-- An index below a bound. -/
  below : S → Nat → Outcome (Nat × S)

/-- Two lists read round and round: unit draws, and integers taken modulo the bound. -/
structure Cyclic (K : Type) where
  units : List K
  integers : List Int
  unitsTaken : Nat
  integersTaken : Nat
  deriving Repr

namespace Cyclic

variable {K : Type}

/-- A source at the start of its two lists. -/
def of (units : List K) (integers : List Int) : Cyclic K := ⟨units, integers, 0, 0⟩

/-- The next unit draw; an empty list draws zero. -/
def nextUnit [Zero K] (s : Cyclic K) : K × Cyclic K :=
  ((s.units[s.unitsTaken % s.units.length]?).getD 0, { s with unitsTaken := s.unitsTaken + 1 })

/-- The next integer modulo the bound; an empty list draws zero. -/
def nextBelow (s : Cyclic K) (bound : Nat) : Outcome (Nat × Cyclic K) :=
  if bound = 0 then .error .zeroDivisor
  else
    let drawn := (s.integers[s.integersTaken % s.integers.length]?).getD 0
    .ok ((drawn % Int.ofNat bound).toNat, { s with integersTaken := s.integersTaken + 1 })

end Cyclic

/-- Repeated lists are a source. -/
instance Source.instCyclic {K : Type} [Scalar K] : Source (Cyclic K) K where
  unit := Cyclic.nextUnit
  below := Cyclic.nextBelow

end Perturb
