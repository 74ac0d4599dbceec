/-
  Positions in a list, counted from either end.

  A position that is not negative counts from the front, a negative one from the back, so that `-1`
  is the last element.  A position beyond either end has no element.
-/
import Perturb.Fault

namespace Perturb

/-- The place of position `i` in a list of `length` elements. -/
def position? (length : Nat) (i : Int) : Option Nat :=
  if 0 ≤ i then (if i.toNat < length then some i.toNat else none)
  else if (-i).toNat ≤ length then some (length - (-i).toNat)
  else none

/-- The element at a position counted from either end. -/
def pick {α : Type} (xs : List α) (i : Int) : Outcome α :=
  match (position? xs.length i).bind fun k => xs[k]? with
  | some x => .ok x
  | none => .error .position

end Perturb
