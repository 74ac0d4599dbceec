/-
  Exact linear programming.

  `Standard.minimise` solves `minimise c · y subject to A y = b, y ≥ 0` with `b ≥ 0` over the
  fractions, by the simplex method on a tableau: first artificial variables are driven out, then
  the objective is lowered.  Both phases choose pivots by the smallest index (first the entering
  column, then, among the rows with the smallest ratio, the one whose basic column is smallest).
  THE LOAD-BEARING STEP is that this choice never returns to a basis, so the number of bases bounds
  the number of pivots and serves as fuel.
-/
import Perturb.Number.Rounding

namespace Perturb.Simplex

/-- Equations in solved form: each row is `coefficients | right-hand side`, and `basis` names the
    column that each row is solved for.  `cost` is the objective row, reduced likewise. -/
structure Tableau where
  rows : Array (Array Rat)
  cost : Array Rat
  basis : Array Nat
  deriving Inhabited

/-- The entry of a row at a column. -/
def entry (row : Array Rat) (j : Nat) : Rat := row[j]?.getD (Rat.ofInt 0)

/-- The right-hand side of a row. -/
def rhs (row : Array Rat) : Rat := row.back?.getD (Rat.ofInt 0)

/-- Subtracts a multiple of one row from another. -/
def eliminate (pivotRow : Array Rat) (factor : Rat) (row : Array Rat) : Array Rat :=
  if factor = 0 then row
  else Array.zipWith (fun a p => if p = 0 then a else a - factor * p) row pivotRow

/-- Solves row `r` for column `c` and substitutes it everywhere else. -/
def Tableau.pivot (t : Tableau) (r c : Nat) : Tableau :=
  let row := t.rows[r]?.getD #[]
  let p := entry row c
  let pivotRow := row.map fun a => if a = 0 then a else a / p
  { rows := t.rows.mapIdx fun i other =>
      if i = r then pivotRow else eliminate pivotRow (entry other c) other
    cost := eliminate pivotRow (entry t.cost c) t.cost
    basis := t.basis.modify r fun _ => c }

/-- The first of the first `columns` columns along which the objective falls. -/
def Tableau.entering? (t : Tableau) (columns : Nat) : Option Nat :=
  (List.range columns).find? fun j => entry t.cost j < 0

/-- The row that limits column `c` first: its ratio, its basic column and its number. -/
def Tableau.leaving? (t : Tableau) (c : Nat) : Option (Rat × Nat × Nat) :=
  (List.range t.rows.size).foldl (fun best r =>
    let row := t.rows[r]?.getD #[]
    let a := entry row c
    if 0 < a then
      let ratio := rhs row / a
      let b := t.basis[r]?.getD 0
      match best with
      | none => some (ratio, b, r)
      | some (ratio', b', r') =>
        if ratio < ratio' || (ratio == ratio' && b < b') then some (ratio, b, r)
        else some (ratio', b', r')
    else best) none

/-- How lowering the objective ended. -/
inductive Descent where
  | lowest (t : Tableau)
  | unbounded
  deriving Inhabited

/-- Pivots until no column lowers the objective. -/
def Tableau.descend (columns : Nat) (t : Tableau) : Nat → Descent
  | 0 => .lowest t
  | fuel + 1 =>
    match t.entering? columns with
    | none => .lowest t
    | some c =>
      match t.leaving? c with
      | none => .unbounded
      | some (_, _, r) => (t.pivot r c).descend columns fuel

/-- A bound on the number of bases of `rows` among `columns`. -/
def baseCount (columns : Nat) : Nat := Nat.pow 2 columns

/-- Drives basic artificial columns out wherever another column can take their place. -/
def Tableau.expel (t : Tableau) (columns : Nat) : Tableau :=
  (List.range t.rows.size).foldl (fun t r =>
    if (t.basis[r]?.getD 0) < columns then t
    else
      let row := t.rows[r]?.getD #[]
      match (List.range columns).find? fun j => entry row j != 0 with
      | some c => t.pivot r c
      | none => t) t

/-- How a program in standard form ended. -/
inductive Result where
  | infeasible
  | unbounded
  | optimal (point : Array Rat)
  deriving Inhabited

/-- The value of every column in a tableau. -/
def Tableau.point (t : Tableau) (columns : Nat) : Array Rat :=
  (List.range t.rows.size).foldl (fun x r =>
    x.modify (t.basis[r]?.getD columns) fun _ => rhs (t.rows[r]?.getD #[]))
    (Array.replicate columns (Rat.ofInt 0))

/-- Minimises `objective · y` over `y ≥ 0` subject to equations whose right-hand sides are not
    negative. -/
def minimise (columns : Nat) (equations : Array (Array Rat)) (objective : Array Rat) : Result :=
  let count := equations.size
  let mark (i : Nat) : Array Rat :=
    Array.ofFn fun (k : Fin count) => if k.val = i then Rat.ofInt 1 else Rat.ofInt 0
  let widened := equations.mapIdx fun i row => (row.pop ++ mark i).push (rhs row)
  let total := columns + count
  let price := widened.foldl (fun cost row => Array.zipWith (· - ·) cost row)
    (Array.replicate columns (Rat.ofInt 0) ++ Array.replicate count (Rat.ofInt 1)
      ++ #[Rat.ofInt 0])
  let start : Tableau := ⟨widened, price, Array.ofFn fun (k : Fin count) => columns + k.val⟩
  match start.descend total (baseCount total) with
  | .unbounded => .infeasible
  | .lowest t =>
    if rhs t.cost < 0 then .infeasible
    else
      let t := t.expel columns
      let cost := objective ++ Array.replicate (count + 1) (Rat.ofInt 0)
      let cost := (List.range t.rows.size).foldl (fun cost r =>
        eliminate (t.rows[r]?.getD #[]) (entry cost (t.basis[r]?.getD 0)) cost) cost
      match Tableau.descend columns { t with cost } (baseCount total) with
      | .unbounded => .unbounded
      | .lowest t => .optimal (t.point columns)

end Perturb.Simplex
