/-
  Constraints: an affine term compared with zero.

  The five relations are the ones a program can express; any other name is kept, because a
  constraint with an unknown relation may exist as long as nobody asks whether it holds.
  `added` tells whether the constraint has become a row of the program being solved.
-/
import Perturb.Term.Affine
import Perturb.Fault

namespace Perturb

/-- How a term is compared with zero. -/
inductive Relation where
  | eq | ge | gt | le | lt
  | other (name : String)
  deriving DecidableEq, Repr, Inhabited

namespace Relation

/-- The relation of a name. -/
def ofName : String → Relation
  | "EQ" => .eq
  | "GE" => .ge
  | "GT" => .gt
  | "LE" => .le
  | "LT" => .lt
  | name => .other name

/-- The name of a relation. -/
def name : Relation → String
  | .eq => "EQ"
  | .ge => "GE"
  | .gt => "GT"
  | .le => "LE"
  | .lt => "LT"
  | .other n => n

/-- Whether two values stand in the relation. -/
def compare {K : Type} [Scalar K] (r : Relation) (a b : K) : Outcome Bool :=
  match r with
  | .eq => .ok (a == b)
  | .ge => .ok (decide (b ≤ a))
  | .gt => .ok (decide (b < a))
  | .le => .ok (decide (a ≤ b))
  | .lt => .ok (decide (a < b))
  | .other n => .error (.unknownRelation n)

end Relation

/-- `term` compared with zero, and whether it has been added to a program. -/
structure Constraint (K : Type) (n : Nat) where
  term : Affine K n
  relation : Relation
  added : Bool

namespace Constraint

variable {K : Type} [Scalar K] {n : Nat}

instance instInhabited : Inhabited (Constraint K n) := ⟨⟨default, .eq, false⟩⟩

/-- A constraint that no program holds yet. -/
def of (term : Affine K n) (relation : Relation) : Constraint K n := ⟨term, relation, false⟩

/-- Whether a point satisfies the constraint: the linear part is compared with the negated
    intercept. -/
def holdsAt (c : Constraint K n) (x : Vector K n) : Outcome Bool :=
  c.relation.compare (c.term.linearAt x) (-c.term.intercept)

end Constraint

end Perturb
