/-
  A store of named terms and constraints.

  Names refer to objects: giving an object a second name shares it, so an update in place is seen
  under every name and by every constraint that holds the term.  The operators that build new terms
  leave their operands alone, and so does copying.

  A term belongs to one space of variables; terms of different spaces never mix.  An operation that
  fails leaves the store as it was.
-/
import Perturb.Constraint.Basic
import Perturb.Constraint.Sets
import Perturb.Number.Tensor
import Perturb.Term.Space

namespace Perturb

/-- A term with the number of its space. -/
structure StoredTerm (K : Type) where
  space : Nat
  dim : Nat
  term : Affine K dim

/-- A constraint on a term of the store. -/
structure StoredConstraint where
  term : Nat
  relation : Relation
  added : Bool
  deriving Repr, Inhabited

/-- An object of a store: its kind and its number among the objects of that kind. -/
inductive StoredItem where
  | space (id : Nat)
  | term (id : Nat)
  | constraint (id : Nat)
  | set (id : Nat)
  deriving Repr, DecidableEq

/-- Spaces, terms, constraints and sets of constraints, and the names for them, latest binding
first. -/
structure Store (K : Type) where
  spaces : List Space
  terms : List (StoredTerm K)
  constraints : List StoredConstraint
  sets : SetFamily Nat
  names : List (String × StoredItem)

/-- An operand of an operator: a named term or a number. -/
inductive Operand (K : Type) where
  | term (name : String)
  | number (x : K)
  deriving Repr

/-- The operators. -/
inductive Operator where
  | add | sub | mul
  deriving Repr, DecidableEq

/-- One operation on a store.  The first name is that of the result or of the updated object. -/
inductive StoreOp (K : Type) where
  | space (name : String) (size : Int)
  | const (name space : String) (value : K)
  | fresh (name space : String)
  | freshMany (stem space : String) (count : Int)
  | term (name space : String) (coeffs : Tensor K) (intercept : K)
  | copy (name source : String)
  | alias (name source : String)
  | addIn (name other : String)
  | subIn (name other : String)
  | addMulIn (name other : String) (d : K)
  | addScalarIn (name : String) (d : K)
  | mulIn (name : String) (d : K)
  | combine (name : String) (f : Operator) (a b : Operand K)
  | neg (name source : String)
  | constrain (name term relation : String)
  | mark (name : String) (on : Bool)
  | set (name : String) (members : List String)
  | setAdd (set name : String)
  | addTerm (name set term relation : String)
  | addCompare (name set : String) (left : Operand K) (relation : String) (right : Operand K)
  | union (set other : String)
  deriving Repr

namespace Store

variable {K : Type}

/-- The store of nothing. -/
def empty : Store K := ⟨[], [], [], SetFamily.empty, []⟩

/-! ## Looking up -/

/-- What a name refers to. -/
def resolve (s : Store K) (name : String) : Outcome StoredItem :=
  match s.names.lookup name with
  | some i => .ok i
  | none => .error .missingKey

/-- The element with a number. -/
def element {α : Type} (xs : List α) (i : Nat) : Outcome α :=
  match xs[i]? with
  | some x => .ok x
  | none => .error .missingKey

/-- A space by name, with its number. -/
def space (s : Store K) (name : String) : Outcome (Nat × Space) := do
  match ← s.resolve name with
  | .space i => do
    let v ← element s.spaces i
    .ok (i, v)
  | _ => .error .wrongType

/-- A term by name, with its number. -/
def term (s : Store K) (name : String) : Outcome (Nat × StoredTerm K) := do
  match ← s.resolve name with
  | .term i => do
    let t ← element s.terms i
    .ok (i, t)
  | _ => .error .wrongType

/-- The number of a constraint by name. -/
def constraintId (s : Store K) (name : String) : Outcome Nat := do
  match ← s.resolve name with
  | .constraint i => .ok i
  | _ => .error .wrongType

/-- The number of a set by name. -/
def setId (s : Store K) (name : String) : Outcome Nat := do
  match ← s.resolve name with
  | .set i => .ok i
  | _ => .error .wrongType

/-- The names that refer to an object. -/
def namesOf (s : Store K) (item : StoredItem) : List String :=
  let bound := s.names.foldr (fun (name, i) seen =>
    (name, i) :: seen.filter fun (n, _) => n != name) []
  (bound.filter fun (_, i) => decide (i = item)).map (·.1)

/-! ## Storing -/

/-- Binds a name. -/
def bind (s : Store K) (name : String) (item : StoredItem) : Store K :=
  { s with names := (name, item) :: s.names }

/-- Stores a term under a name. -/
def keep (s : Store K) (name : String) (t : StoredTerm K) : Store K :=
  { s with terms := s.terms ++ [t] }.bind name (.term s.terms.length)

/-- Replaces the term with a number. -/
def replace (s : Store K) (i : Nat) (t : StoredTerm K) : Store K :=
  { s with terms := s.terms.modify i fun _ => t }

/-- Stores a constraint under a name. -/
def keepConstraint (s : Store K) (name : String) (c : StoredConstraint) : Store K :=
  { s with constraints := s.constraints ++ [c] }.bind name (.constraint s.constraints.length)

variable [Scalar K]

/-- A term of coefficients, one per variable, and an intercept. -/
def affineOf (n : Nat) (coeffs : Tensor K) (intercept : K) : Outcome (Affine K n) :=
  if h : coeffs.shape = [n] ∧ coeffs.cells.toArray.size = n then
    .ok ⟨⟨coeffs.cells.toArray, h.2⟩, intercept⟩
  else .error (.coefficientShape coeffs.shape n)

/-- Combines two terms of one space. -/
def joined (f : {n : Nat} → Affine K n → Affine K n → Affine K n) (t u : StoredTerm K) :
    Outcome (StoredTerm K) :=
  if h : t.space = u.space ∧ u.dim = t.dim then
    .ok { t with term := f t.term (h.2 ▸ u.term) }
  else .error .spacesDiffer

/-- Updates a named term in place by another one. -/
def updateBy (s : Store K) (name other : String)
    (f : {n : Nat} → Affine K n → Affine K n → Affine K n) : Outcome (Store K) := do
  let (i, t) ← s.term name
  let (_, u) ← s.term other
  let t ← joined f t u
  .ok (s.replace i t)

/-- Updates a named term in place. -/
def update (s : Store K) (name : String) (f : {n : Nat} → Affine K n → Affine K n) :
    Outcome (Store K) := do
  let (i, t) ← s.term name
  .ok (s.replace i { t with term := f t.term })

/-- The new term of an operator.  Two numbers, or a number and a term where the order matters, have
    none. -/
def combination (s : Store K) (f : Operator) (a b : Operand K) : Outcome (StoredTerm K) :=
  match f, a, b with
  | .add, .term t, .term u => do joined Affine.add (← s.term t).2 (← s.term u).2
  | .sub, .term t, .term u => do joined Affine.sub (← s.term t).2 (← s.term u).2
  | .add, .term t, .number d => do
    let (_, t) ← s.term t
    .ok { t with term := t.term.addScalar d }
  | .sub, .term t, .number d => do
    let (_, t) ← s.term t
    .ok { t with term := t.term.addScalar (-d) }
  | .mul, .term t, .number d => do
    let (_, t) ← s.term t
    .ok { t with term := t.term.mul d }
  | .mul, .number d, .term t => do
    let (_, t) ← s.term t
    .ok { t with term := t.term.mul d }
  | _, _, _ => .error .wrongType

/-- Hands out variables of a named space under names. -/
def handOut (s : Store K) (space : Nat) (v : Space) (names : List String) (vars : List Nat) :
    Store K :=
  let s := { s with spaces := s.spaces.modify space fun _ => v }
  (List.zip names vars).foldl (fun s (name, i) => s.keep name ⟨space, v.size, Affine.var i⟩) s

/-- The store after an operation. -/
def apply (s : Store K) : StoreOp K → Outcome (Store K)
  | .space name size => do
    let v ← Space.ofSize size
    .ok ({ s with spaces := s.spaces ++ [v] }.bind name (.space s.spaces.length))
  | .const name space value => do
    let (i, v) ← s.space space
    .ok (s.keep name ⟨i, v.size, Affine.const value⟩)
  | .fresh name space => do
    let (i, v) ← s.space space
    let (x, v) ← v.fresh
    .ok (s.handOut i v [name] [x])
  | .freshMany stem space count => do
    let (i, v) ← s.space space
    let (xs, v) ← v.freshMany count
    let names := (List.range xs.length).map fun k => stem ++ Number.digitsOf k
    .ok (s.handOut i v names xs)
  | .term name space coeffs intercept => do
    let (i, v) ← s.space space
    let t ← affineOf v.size coeffs intercept
    .ok (s.keep name ⟨i, v.size, t⟩)
  | .copy name source => do
    let (_, t) ← s.term source
    .ok (s.keep name t)
  | .alias name source => do
    let item ← s.resolve source
    .ok (s.bind name item)
  | .addIn name other => s.updateBy name other Affine.add
  | .subIn name other => s.updateBy name other Affine.sub
  | .addMulIn name other d => s.updateBy name other fun t u => t.addMul u d
  | .addScalarIn name d => s.update name fun t => t.addScalar d
  | .mulIn name d => s.update name fun t => t.mul d
  | .combine name f a b => do
    let t ← s.combination f a b
    .ok (s.keep name t)
  | .neg name source => do
    let (_, t) ← s.term source
    .ok (s.keep name { t with term := t.term.neg })
  | .constrain name term relation => do
    let (i, _) ← s.term term
    .ok (s.keepConstraint name ⟨i, Relation.ofName relation, false⟩)
  | .mark name on => do
    let i ← s.constraintId name
    .ok { s with constraints := s.constraints.modify i fun c => { c with added := on } }
  | .set name members => do
    let ids ← members.mapM s.constraintId
    let (i, sets) := s.sets.create ids
    .ok ({ s with sets }.bind name (.set i))
  | .setAdd set name => do
    let i ← s.setId set
    let c ← s.constraintId name
    .ok { s with sets := s.sets.add i c }
  | .addTerm name set term relation => do
    let i ← s.setId set
    let (t, _) ← s.term term
    let s' := s.keepConstraint name ⟨t, Relation.ofName relation, false⟩
    .ok { s' with sets := s'.sets.add i s.constraints.length }
  | .addCompare name set left relation right => do
    let i ← s.setId set
    let t ← s.combination .sub left right
    let s' := { s with terms := s.terms ++ [t] }
    let s' := s'.keepConstraint name ⟨s.terms.length, Relation.ofName relation, false⟩
    .ok { s' with sets := s'.sets.add i s.constraints.length }
  | .union set other => do
    let sets ← s.sets.unite (← s.setId set) (← s.setId other)
    .ok { s with sets }

/-! ## Asking -/

/-- A point as a vector; its length must be right. -/
def pointOf (n : Nat) (x : List K) : Outcome (Vector K n) :=
  if h : x.toArray.size = n then .ok ⟨x.toArray, h⟩ else .error .lengths

/-- The value of a named term at a point. -/
def valueAt (s : Store K) (name : String) (x : List K) : Outcome K := do
  let (_, t) ← s.term name
  let p ← pointOf t.dim x
  .ok (t.term.eval p)

/-- The constraint with a number, and the term it holds. -/
def constraintAt (s : Store K) (id : Nat) : Outcome (StoredConstraint × StoredTerm K) := do
  let c ← element s.constraints id
  let t ← element s.terms c.term
  .ok (c, t)

/-- Whether a point satisfies the constraint with a number. -/
def holdsAt (s : Store K) (id : Nat) (x : List K) : Outcome Bool := do
  let (c, t) ← s.constraintAt id
  let p ← pointOf t.dim x
  (Constraint.of t.term c.relation).holdsAt p

/-- The numbers of the constraints that a named set reaches. -/
def membersOf (s : Store K) (set : String) : Outcome (List Nat) := do
  let i ← s.setId set
  .ok (s.sets.items i)

end Store

/-- The text of a coefficient: six digits at most, and a zero keeps its sign. -/
def coefficientText (x : Float) : String :=
  if x == 0.0 && Binary.isNegative x then "-0" else Number.generalText 6 x

/-- The description of a term: its variables with their coefficients, and its intercept. -/
def Affine.describe {n : Nat} (t : Affine Float n) : String :=
  let parts := t.support.map fun (i, a) => coefficientText a ++ "*x" ++ Number.digitsOf i
  "LinTerm(" ++ String.intercalate " + " (parts ++ [coefficientText t.intercept]) ++ ")"

end Perturb
