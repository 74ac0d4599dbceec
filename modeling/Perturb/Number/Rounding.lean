/-
  Rounding exact fractions to integers.

  One rule is used throughout: to the nearest integer, a half going to the even neighbour.  It
  rounds accepted candidates, counts the items of a batch, and is the last step of every printed
  number.
-/

namespace Perturb.Number

/-- The integer nearest to `q`; of two equally near ones, the even one. -/
def roundHalfEven (q : Rat) : Int :=
  let low := q.floor
  let rest := q - (low : Rat)
  if rest < 1 / 2 then low
  else if 1 / 2 < rest then low + 1
  else if low % 2 = 0 then low else low + 1

/-- The nearest natural number to `num / den`, a half going to the even neighbour. -/
def roundQuotient (num den : Nat) : Nat :=
  let low := num / den
  let rest := num % den
  if 2 * rest < den then low
  else if den < 2 * rest then low + 1
  else if low % 2 = 0 then low else low + 1

end Perturb.Number
