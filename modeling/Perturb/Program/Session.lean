/-
  Exporting constraints to a program.

  A session owns the program of one attempt, the engine that will solve it, and the pool of all
  constraints of the attempt.  Constraints are exported one by one; each export creates a row, and
  only when the row is bound is the constraint flagged and counted.  The two ways to export, a
  whole list at once and single ones up to a limit, both skip what is flagged already, so no
  constraint ever gets two bound rows.

  The first variables are the pixels, limited to the clipped neighbourhood of the origin; all
  others only to the range of values.

  A step that fails leaves the session as it was at the moment of failure.
-/
import Perturb.Constraint.Basic
import Perturb.Program.Engine

namespace Perturb

/-! ## Limits of the pixels -/

/-- The interval around one value, clipped to the range; unclipped if nothing would be left. -/
def clippedInterval {K : Type} [Scalar K] (bound min max o : K) : K × K :=
  let lo := Scalar.larger min (o - bound)
  let hi := Scalar.smaller max (o + bound)
  if hi < lo then (o - bound, o + bound) else (lo, hi)

/-- The intervals around all values of an origin. -/
def clippedBounds {K : Type} [Scalar K] (origin : List K) (bound min max : K) : List (K × K) :=
  origin.map (clippedInterval bound min max)

/-! ## Sessions -/

/-- What is optimised: a term and a direction. -/
structure Objective (K : Type) (n : Nat) where
  term : Affine K n
  goal : Goal

/-- A program under construction for constraints over `n` variables. -/
structure Session (E K : Type) (n : Nat) where
  program : Program K
  engine : E
  inputDim : Nat
  rowsAdded : Nat
  pool : List (Constraint K n)

namespace Session

variable {E K : Type} [Scalar K] [Engine E K] {n : Nat}

/-- How a constraint's relation compares a row; strict relations become non-strict ones. -/
def sense? : Relation → Option Sense
  | .eq => some .eq
  | .ge => some .ge
  | .gt => some .ge
  | .le => some .le
  | .lt => some .le
  | .other _ => none

/-- A session on an engine before anything has been told to it. -/
def fresh (engine : E) (inputDim : Nat) (pool : List (Constraint K n)) : Session E K n :=
  ⟨Program.empty "", engine, inputDim, 0, pool⟩

/-- Tells the engine a command and carries it out. -/
def tell (c : Command K) : Step (Session E K n) Unit := fun s =>
  match Engine.receive s.engine c with
  | (.error e, engine) => .error e { s with engine }
  | (.ok (), engine) =>
    match s.program.apply c with
    | .error e => .error e { s with engine }
    | .ok program => .ok () { s with engine, program }

/-- Creates variable `i` and limits it. -/
def declare (intervals : List (K × K)) (min max : K) (integrality : Bool) (i : Nat) :
    Step (Session E K n) Unit := do
  let (lo, hi) := (intervals[i]?).getD (min, max)
  tell (.limit (Int.ofNat i) lo hi)
  if integrality then tell (.integral (Int.ofNat i) true)

/-- Begins the program: all variables, then their limits. -/
def begin (origin : List K) (bound min max : K) (integrality : Bool) :
    Step (Session E K n) Unit := do
  tell (.begin "synth")
  (List.range n).forM fun i => tell (.variable ("x" ++ Number.digitsOf i))
  let intervals := clippedBounds origin bound min max
  (List.range n).forM (declare intervals min max integrality)

/-- Creates a row and fills in the coefficients of a term; gives the row's id. -/
def fillRow (name : String) (t : Affine K n) : Step (Session E K n) Int := do
  let id := Int.ofNat (← get).program.rows.length
  tell (.row name)
  t.support.forM fun (i, a) => tell (.coefficient id (Int.ofNat i) a)
  return id

/-- Exports constraint `i` of the pool and flags it; gives the row's id. -/
def exportOne (i : Nat) : Step (Session E K n) Int := do
  let s ← get
  let c := (s.pool[i]?).getD default
  let id ← fillRow ("c" ++ Number.digitsOf s.rowsAdded) c.term
  match sense? c.relation with
  | none => throw .missingKey
  | some sense =>
    tell (.bind id sense (-c.term.intercept))
    modify fun s => { s with
      rowsAdded := s.rowsAdded + 1
      pool := s.pool.modify i fun c => { c with added := true } }
    return id

/-- Whether constraint `i` has been exported. -/
def isAdded (s : Session E K n) (i : Nat) : Bool := (s.pool[i]?.map (·.added)).getD false

/-- Exports every constraint of a list that is not flagged yet; gives their number. -/
def exportAll : List Nat → Step (Session E K n) Nat
  | [] => return 0
  | i :: rest => do
    if (← get).isAdded i then exportAll rest
    else
      let _ ← exportOne i
      let count ← exportAll rest
      return count + 1

/-- Exports constraint `i` unless it is flagged, or unless a limit is given which the counter has
    reached; gives whether it was exported.  With a limit the counter goes up before the export. -/
def promote (i : Nat) (limit : Option K) : Step (Session E K n × Nat) Bool := fun (s, counter) =>
  if s.isAdded i then .ok false (s, counter)
  else if limit.any fun m => decide (m ≤ Scalar.ofNat counter) then .ok false (s, counter)
  else
    let counter := if limit.isSome then counter + 1 else counter
    match exportOne i s with
    | .ok _ s => .ok true (s, counter)
    | .error e s => .error e (s, counter)

/-- Makes a term the objective. -/
def setObjective (o : Objective K n) : Step (Session E K n) Unit := do
  let id ← fillRow "objective" o.term
  tell (.objective id o.goal)

/-- Solves the program. -/
def solve (limit : Option K) : Step (Session E K n) (Answer K) := fun s =>
  match Engine.solve s.engine s.program limit with
  | (.ok a, engine) => .ok a { s with engine }
  | (.error e, engine) => .error e { s with engine }

end Session

end Perturb
