/-
  Handing a program to a solver.

  A solver of the usual kind is not told commands.  It is handed columns, one per variable: their
  costs, to be minimised, rows that may not exceed their right-hand sides, rows that must equal
  them, and per column its limits and whether it is integral.  A program is put into this form anew
  on every solve, from its rows as they are then.

  A row bounded from below is handed over with all signs changed, and so are the costs of a maximum.
  An objective may count a variable from the end; a constraint row may not.
-/
import Perturb.Program.Basic

namespace Perturb

/-- Entries by column, and a right-hand side. -/
structure SparseRow (K : Type) where
  entries : List (Nat × K)
  rhs : K
  deriving Repr, Inhabited

/-- What a solver is handed. -/
structure Handover (K : Type) where
  /-- The costs of the columns. -/
  cost : List K
  /-- Rows that may not exceed their right-hand sides. -/
  upper : List (SparseRow K)
  /-- Rows that must equal their right-hand sides. -/
  equal : List (SparseRow K)
  /-- The limits of the columns; a missing one is no limit. -/
  limits : List (Option K × Option K)
  /-- Which columns are integral. -/
  integral : List Bool
  deriving Repr, Inhabited

namespace Program

variable {K : Type} [Scalar K]

/-- The costs of an objective row, to be minimised. -/
def rowCosts (count : Nat) (goal : Goal) (coeffs : List (Int × K)) : Outcome (List K) :=
  coeffs.foldlM (fun cost (v, a) => modifyAt cost v fun _ => if goal.minimises then a else -a)
    (List.replicate count 0)

/-- The costs of all variables; zero without an objective. -/
def costs (p : Program K) : Outcome (List K) :=
  match p.objective with
  | none => .ok (List.replicate p.vars.length 0)
  | some (i, goal) => do
    let row ← p.row i
    rowCosts p.vars.length goal row.coeffs

/-- A bound as a row that may not exceed its right-hand side, unless it asks for equality. -/
def upper? (b : RowBound K) (coeffs : List (Int × K)) : Option (List (Int × K) × K) :=
  match b.sense with
  | .le => some (coeffs, b.rhs)
  | .ge => some (coeffs.map fun (v, a) => (v, -a), -b.rhs)
  | .eq => none

/-- A bound that asks for equality. -/
def equal? (b : RowBound K) (coeffs : List (Int × K)) : Option (List (Int × K) × K) :=
  match b.sense with
  | .eq => some (coeffs, b.rhs)
  | _ => none

/-- A row over `count` columns; each of its variables must be one of them. -/
def sparseRow (count : Nat) (row : List (Int × K) × K) : Outcome (SparseRow K) := do
  let entries ← row.1.mapM fun (v, a) =>
    if 0 ≤ v && v < Int.ofNat count then .ok (v.toNat, a) else .error .rejectedProgram
  .ok ⟨entries, row.2⟩

/-- Puts a program into the form in which a solver is handed it. -/
def handOver (p : Program K) : Outcome (Handover K) := do
  let cost ← p.costs
  let bound ← p.bounds.mapM fun b => do
    let row ← p.row b.row
    .ok (b, row.coeffs)
  let upper ← (bound.filterMap fun (b, coeffs) => upper? b coeffs).mapM (sparseRow p.vars.length)
  let equal ← (bound.filterMap fun (b, coeffs) => equal? b coeffs).mapM (sparseRow p.vars.length)
  .ok ⟨cost, upper, equal, p.vars.map fun v => (v.lo, v.hi), p.vars.map (·.integral)⟩

end Program

end Perturb
