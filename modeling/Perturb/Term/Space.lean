/-
  The variables of one attempt.

  A `Space` is a fixed number of variables of which a prefix has been handed out.  Handing out is
  all or nothing: a request for more variables than are left fails and changes nothing.
-/
import Perturb.Term.Affine
import Perturb.Fault

namespace Perturb

/-- A space of `size` variables, the first `next` of which are in use. -/
structure Space where
  size : Nat
  next : Nat
  size_pos : 0 < size
  next_le : next ≤ size

namespace Space

/-- A space with no variable in use. -/
def ofSize (n : Int) : Outcome Space :=
  if h : 0 < n.toNat then .ok ⟨n.toNat, 0, h, Nat.zero_le _⟩ else .error (.spaceSize n)

/-- Hands out the next variable, by its number. -/
def fresh (s : Space) : Outcome (Nat × Space) :=
  if h : s.next < s.size then .ok (s.next, { s with next := s.next + 1, next_le := h })
  else .error (.spaceExhausted (s.next + 1) s.size)

/-- Hands out the next `count` variables; a negative count hands out none. -/
def freshMany (s : Space) (count : Int) : Outcome (List Nat × Space) :=
  if h : s.next + count.toNat ≤ s.size then
    .ok (List.range' s.next count.toNat, { s with next := s.next + count.toNat, next_le := h })
  else .error (.spaceShort count (s.size - s.next))

end Space

end Perturb
