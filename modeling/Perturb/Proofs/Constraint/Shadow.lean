/-
  Functions of points with the operations of a store.

  A store keeps terms as coefficients and updates them coefficient by coefficient.  This module has
  the operations on functions instead, with the same names, the same sharing and nothing of
  coefficients: it says what a store of terms is about.

  `Shadow` holds functions in numbered places, and names for the places.  An update in place writes
  a new function to the place of its first operand, so every name and every constraint of that
  place sees it; each operator and each copy takes a new place.  Functions of different spaces do
  not combine.

  Everything is computable: a run of the reference can be looked at.
-/
import Mathlib.Algebra.BigOperators.Group.Finset.Basic
import Mathlib.Algebra.Order.Field.Rat
import Perturb.Constraint.Store

namespace Perturb

/-! ## The reference -/

/-- A function of the points of a space. -/
structure Shade where
  space : Nat
  value : (Nat → Rat) → Rat

/-- Spaces, functions, constraints and sets of constraints, and the names for them. -/
structure Shadow where
  spaces : List Space
  functions : List Shade
  constraints : List StoredConstraint
  sets : SetFamily Nat
  names : List (String × StoredItem)

namespace Shadow

/-- The reference of nothing. -/
def empty : Shadow := ⟨[], [], [], SetFamily.empty, []⟩

/-- What a name refers to. -/
def resolve (m : Shadow) (name : String) : Outcome StoredItem :=
  match m.names.lookup name with
  | some item => .ok item
  | none => .error .missingKey

/-- A space by name, with its number. -/
def space (m : Shadow) (name : String) : Outcome (Nat × Space) := do
  match ← m.resolve name with
  | .space i => do
    let v ← Store.element m.spaces i
    .ok (i, v)
  | _ => .error .wrongType

/-- A function by name, with its place. -/
def function (m : Shadow) (name : String) : Outcome (Nat × Shade) := do
  match ← m.resolve name with
  | .term i => do
    let g ← Store.element m.functions i
    .ok (i, g)
  | _ => .error .wrongType

/-- The number of a constraint by name. -/
def constraintId (m : Shadow) (name : String) : Outcome Nat := do
  match ← m.resolve name with
  | .constraint i => .ok i
  | _ => .error .wrongType

/-- The number of a set by name. -/
def setId (m : Shadow) (name : String) : Outcome Nat := do
  match ← m.resolve name with
  | .set i => .ok i
  | _ => .error .wrongType

/-- Binds a name. -/
def bind (m : Shadow) (name : String) (item : StoredItem) : Shadow :=
  { m with names := (name, item) :: m.names }

/-- Puts a function in a new place, under a name. -/
def keep (m : Shadow) (name : String) (g : Shade) : Shadow :=
  { m with functions := m.functions ++ [g] }.bind name (.term m.functions.length)

/-- Puts a constraint in a new place, under a name. -/
def keepConstraint (m : Shadow) (name : String) (c : StoredConstraint) : Shadow :=
  { m with constraints := m.constraints ++ [c] }.bind name (.constraint m.constraints.length)

/-- Combines two functions of one space point by point. -/
def joined (f : Rat → Rat → Rat) (g h : Shade) : Outcome Shade :=
  if g.space = h.space then .ok ⟨g.space, fun p => f (g.value p) (h.value p)⟩
  else .error .spacesDiffer

/-- Changes a function point by point. -/
def mapped (f : Rat → Rat) (g : Shade) : Shade := ⟨g.space, fun p => f (g.value p)⟩

/-- Writes a function to a place. -/
def write (m : Shadow) (i : Nat) (g : Shade) : Shadow :=
  { m with functions := m.functions.modify i fun _ => g }

/-- Updates the function in the place of a name by another one. -/
def updateBy (m : Shadow) (name other : String) (f : Rat → Rat → Rat) : Outcome Shadow := do
  let (i, g) ← m.function name
  let (_, h) ← m.function other
  let g ← joined f g h
  .ok (m.write i g)

/-- Updates the function in the place of a name. -/
def update (m : Shadow) (name : String) (f : Rat → Rat) : Outcome Shadow := do
  let (i, g) ← m.function name
  .ok (m.write i (mapped f g))

/-- The function of an operator. -/
def combination (m : Shadow) (f : Operator) (a b : Operand Rat) : Outcome Shade :=
  match f, a, b with
  | .add, .term a, .term b => do joined (· + ·) (← m.function a).2 (← m.function b).2
  | .sub, .term a, .term b => do joined (· - ·) (← m.function a).2 (← m.function b).2
  | .add, .term a, .number d => do
    let (_, g) ← m.function a
    .ok (mapped (· + d) g)
  | .sub, .term a, .number d => do
    let (_, g) ← m.function a
    .ok (mapped (· - d) g)
  | .mul, .term a, .number d => do
    let (_, g) ← m.function a
    .ok (mapped (· * d) g)
  | .mul, .number d, .term b => do
    let (_, g) ← m.function b
    .ok (mapped (d * ·) g)
  | _, _, _ => .error .wrongType

/-- Hands out coordinates of a space under names. -/
def handOut (m : Shadow) (space : Nat) (v : Space) (names : List String) (vars : List Nat) :
    Shadow :=
  let m := { m with spaces := m.spaces.modify space fun _ => v }
  (names.zip vars).foldl (fun m (name, i) => m.keep name ⟨space, fun p => p i⟩) m

/-- The function with given coefficients and a given value at the origin. -/
def linear (size : Nat) (coeffs : Tensor Rat) (intercept : Rat) :
    Outcome ((Nat → Rat) → Rat) :=
  if coeffs.shape = [size] ∧ coeffs.cells.length = size then
    .ok fun p => (∑ i ∈ Finset.range size, (coeffs.cells[i]?).getD 0 * p i) + intercept
  else .error (.coefficientShape coeffs.shape size)

/-- The functions after an operation. -/
def apply (m : Shadow) : StoreOp Rat → Outcome Shadow
  | .space name size => do
    let v ← Space.ofSize size
    .ok ({ m with spaces := m.spaces ++ [v] }.bind name (.space m.spaces.length))
  | .const name space value => do
    let (i, _) ← m.space space
    .ok (m.keep name ⟨i, fun _ => value⟩)
  | .fresh name space => do
    let (i, v) ← m.space space
    let (x, v) ← v.fresh
    .ok (m.handOut i v [name] [x])
  | .freshMany stem space count => do
    let (i, v) ← m.space space
    let (xs, v) ← v.freshMany count
    .ok (m.handOut i v ((List.range xs.length).map fun k => stem ++ Number.digitsOf k) xs)
  | .term name space coeffs intercept => do
    let (i, v) ← m.space space
    let value ← linear v.size coeffs intercept
    .ok (m.keep name ⟨i, value⟩)
  | .copy name source => do
    let (_, g) ← m.function source
    .ok (m.keep name g)
  | .alias name source => do
    let item ← m.resolve source
    .ok (m.bind name item)
  | .addIn name other => m.updateBy name other (· + ·)
  | .subIn name other => m.updateBy name other (· - ·)
  | .addMulIn name other d => m.updateBy name other fun a b => a + d * b
  | .addScalarIn name d => m.update name (· + d)
  | .mulIn name d => m.update name (· * d)
  | .combine name f a b => do
    let g ← m.combination f a b
    .ok (m.keep name g)
  | .neg name source => do
    let (_, g) ← m.function source
    .ok (m.keep name (mapped (- ·) g))
  | .constrain name term relation => do
    let (i, _) ← m.function term
    .ok (m.keepConstraint name ⟨i, Relation.ofName relation, false⟩)
  | .mark name on => do
    let i ← m.constraintId name
    .ok { m with constraints := m.constraints.modify i fun c => { c with added := on } }
  | .set name members => do
    let ids ← members.mapM m.constraintId
    let (i, sets) := m.sets.create ids
    .ok ({ m with sets }.bind name (.set i))
  | .setAdd set name => do
    let i ← m.setId set
    let c ← m.constraintId name
    .ok { m with sets := m.sets.add i c }
  | .addTerm name set term relation => do
    let i ← m.setId set
    let (j, _) ← m.function term
    let m' := m.keepConstraint name ⟨j, Relation.ofName relation, false⟩
    .ok { m' with sets := m'.sets.add i m.constraints.length }
  | .addCompare name set left relation right => do
    let i ← m.setId set
    let g ← m.combination .sub left right
    let m' := { m with functions := m.functions ++ [g] }
    let m' := m'.keepConstraint name ⟨m.functions.length, Relation.ofName relation, false⟩
    .ok { m' with sets := m'.sets.add i m.constraints.length }
  | .union set other => do
    let sets ← m.sets.unite (← m.setId set) (← m.setId other)
    .ok { m with sets }

/-- The functions after an operation, whether or not it fails. -/
def step (m : Shadow) (op : StoreOp Rat) : Shadow := (m.apply op).toOption.getD m

/-- The functions after operations on nothing. -/
def run (ops : List (StoreOp Rat)) : Shadow := ops.foldl step empty

end Shadow

end Perturb
