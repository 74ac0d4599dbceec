/-
  Counting activation patterns.

  A log keeps every pattern of active units seen per layer, packed into bytes with the first unit
  in the highest bit and the last byte filled up with zeros, and counts how often a recorded
  pattern was there already.  Two patterns of one length are packed alike only if they are equal.
-/
import Perturb.Fault

namespace Perturb

/-- The patterns seen so far, newest last, and how many recordings found their pattern present. -/
structure PatternLog where
  seen : List (Int × List Nat)
  collisions : Nat
  deriving Repr, Inhabited

namespace PatternLog

/-- A log that has seen nothing. -/
def empty : PatternLog := ⟨[], 0⟩

/-- The value of up to eight bits, first bit highest, missing bits zero. -/
def byte (bits : List Bool) : Nat :=
  (List.range 8).foldl (fun n i => 2 * n + (if (bits[i]?).getD false then 1 else 0)) 0

/-- A pattern packed into bytes. -/
def pack (bits : List Bool) : List Nat :=
  match bits with
  | [] => []
  | b :: rest => byte ((b :: rest).take 8) :: pack ((b :: rest).drop 8)
termination_by bits.length
decreasing_by
  rw [List.length_drop, List.length_cons]
  omega

/-- Records a pattern of a layer. -/
def record (log : PatternLog) (layer : Int) (pattern : List Bool) : PatternLog :=
  let key := (layer, pack pattern)
  if log.seen.contains key then { log with collisions := log.collisions + 1 }
  else { log with seen := log.seen ++ [key] }

/-- The number of different patterns recorded. -/
def distinct (log : PatternLog) : Nat := log.seen.length

/-- The number of different patterns recorded for a layer. -/
def distinctOf (log : PatternLog) (layer : Int) : Nat :=
  (log.seen.filter fun (l, _) => l == layer).length

end PatternLog

end Perturb
