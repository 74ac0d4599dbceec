/-
  The exact solver of programs.

  What a program hands over, if its numbers are finite, is read over the fractions and solved
  without rounding; only the point found is rounded back.  Variables are shifted to start at zero
  (`Shift` says how), an upper bound beside a lower one becomes a row, and variables that must be
  integral are settled by branching on the first one that is not.
-/
import Perturb.Program.Engine
import Perturb.Program.Handover
import Perturb.Program.Simplex

namespace Perturb.Exact

/-- The limits of a variable over the fractions. -/
structure Range where
  lo : Option Rat
  hi : Option Rat
  integral : Bool
  deriving Inhabited

/-- A minimisation over the fractions. -/
structure Model where
  ranges : Array Range
  upper : List (SparseRow Rat)
  equal : List (SparseRow Rat)
  cost : List (Nat × Rat)
  deriving Inhabited

/-! ## Reading what was handed over -/

variable {K : Type} [Scalar K]

/-- A finite value; others make the program unacceptable. -/
def finite (a : K) : Outcome Rat :=
  match Scalar.toRat? a with
  | some q => .ok q
  | none => .error .rejectedProgram

/-- The range of a column.  A limit that is not finite is no limit, except that a lower one of
    plus infinity or an upper one of minus infinity leaves nothing. -/
def rangeOf (limits : Option K × Option K) (integral : Bool) : Option Range :=
  let barred := (limits.1.any fun a => (Scalar.toRat? a).isNone && decide (0 < a)) ||
    (limits.2.any fun a => (Scalar.toRat? a).isNone && decide (a < 0))
  if barred then none
  else some ⟨limits.1.bind Scalar.toRat?, limits.2.bind Scalar.toRat?, integral⟩

/-- A row over the fractions. -/
def finiteRow (row : SparseRow K) : Outcome (SparseRow Rat) := do
  let entries ← row.entries.mapM fun (j, a) => do
    let q ← finite a
    .ok (j, q)
  let rhs ← finite row.rhs
  .ok ⟨entries, rhs⟩

/-- The model of what was handed over; `none` if some column has no value at all. -/
def modelOf (h : Handover K) : Outcome (Option Model) :=
  if h.cost.isEmpty then .error .rejectedProgram
  else do
    let upper ← h.upper.mapM finiteRow
    let equal ← h.equal.mapM finiteRow
    let cost ← h.cost.mapM finite
    let ranges := (h.limits.zip h.integral).mapM fun (limits, integral) => rangeOf limits integral
    .ok (ranges.map fun ranges =>
      ⟨ranges.toArray, upper, equal, cost.zipIdx.map Prod.swap⟩)

/-! ## Standard form -/

/-- How a variable is made of columns that are not negative. -/
inductive Shift where
  /-- `offset + y` -/
  | up (column : Nat) (offset : Rat)
  /-- `offset - y` -/
  | down (column : Nat) (offset : Rat)
  /-- `y - z` -/
  | free (plus minus : Nat)
  deriving Inhabited

/-- The columns of all variables, and how many there are. -/
def shifts (ranges : List Range) : List Shift × Nat :=
  ranges.foldl (fun (out, next) r =>
    match r.lo, r.hi with
    | some lo, _ => (out ++ [.up next lo], next + 1)
    | none, some hi => (out ++ [.down next hi], next + 1)
    | none, none => (out ++ [.free next (next + 1)], next + 2)) ([], 0)

/-- Adds a multiple of a variable to a row over columns whose last entry is the right-hand side. -/
def addShifted (row : Array Rat) (s : Shift) (a : Rat) : Array Rat :=
  let last := row.size - 1
  match s with
  | .up c off => (row.modify c (· + a)).modify last (· - a * off)
  | .down c off => (row.modify c (· - a)).modify last (· - a * off)
  | .free p m => (row.modify p (· + a)).modify m (· - a)

/-- A row over `columns` columns for coefficients by variable. -/
def shiftedRow (ss : Array Shift) (columns : Nat) (coeffs : List (Nat × Rat)) (rhs : Rat) :
    Array Rat :=
  coeffs.foldl (fun row (v, a) =>
    match ss[v]? with
    | some s => addShifted row s a
    | none => row) ((Array.replicate columns (Rat.ofInt 0)).push rhs)

/-- Makes a right-hand side not negative by changing all signs. -/
def upright (row : Array Rat) : Array Rat :=
  if Simplex.rhs row < 0 then row.map fun a => -a else row

/-- The value of a variable from those of the columns. -/
def Shift.value (s : Shift) (y : Array Rat) : Rat :=
  match s with
  | .up c off => off + Simplex.entry y c
  | .down c off => off - Simplex.entry y c
  | .free p m => Simplex.entry y p - Simplex.entry y m

/-- Solves a model, ignoring which variables must be integral. -/
def relax (m : Model) : Simplex.Result :=
  let crossed := m.ranges.any fun r =>
    match r.lo, r.hi with
    | some lo, some hi => decide (hi < lo)
    | _, _ => false
  if crossed then .infeasible
  else
    let (shiftList, columns) := shifts m.ranges.toList
    let ss := shiftList.toArray
    let caps := m.ranges.toList.zipIdx.filterMap fun (r, i) =>
      match r.lo, r.hi with
      | some _, some hi => some (SparseRow.mk [(i, Rat.ofInt 1)] hi)
      | _, _ => none
    let capped := m.upper ++ caps
    let width := columns + capped.length
    let below := capped.zipIdx.map fun (q, i) =>
      upright ((shiftedRow ss width q.entries q.rhs).modify (columns + i) fun _ => Rat.ofInt 1)
    let level := m.equal.map fun q => upright (shiftedRow ss width q.entries q.rhs)
    let equations := (below ++ level).toArray
    let cost := (shiftedRow ss width m.cost (Rat.ofInt 0)).pop
    match Simplex.minimise width equations cost with
    | .optimal y => .optimal ((shiftList.map fun s => s.value y).toArray)
    | other => other

/-! ## Integral variables -/

/-- The objective at a point. -/
def Model.costAt (m : Model) (x : Array Rat) : Rat :=
  m.cost.foldl (fun total (v, a) => total + a * Simplex.entry x v) (Rat.ofInt 0)

/-- The first variable that must be integral and is not. -/
def Model.fractional? (m : Model) (x : Array Rat) : Option (Nat × Rat) :=
  ((m.ranges.toList.zip x.toList).zipIdx.find? fun ((r, a), _) => r.integral && a.den != 1).map
    fun ((_, a), i) => (i, a)

/-- The better of two results of a branching. -/
def better (m : Model) : Simplex.Result → Simplex.Result → Simplex.Result
  | .unbounded, _ => .unbounded
  | _, .unbounded => .unbounded
  | .infeasible, r => r
  | r, .infeasible => r
  | .optimal x, .optimal y => if m.costAt y < m.costAt x then .optimal y else .optimal x

/-- Solves a model with its integral variables: below or above the fractional value of the first
    offender.  Every branching shortens the range of a variable by at least one. -/
def branch (m : Model) : Nat → Simplex.Result
  | 0 => .infeasible
  | fuel + 1 =>
    match relax m with
    | .optimal x =>
      match m.fractional? x with
      | none => .optimal x
      | some (i, a) =>
        let below := { m with ranges := m.ranges.modify i fun r =>
          { r with hi := some (Rat.ofInt a.floor) } }
        let above := { m with ranges := m.ranges.modify i fun r =>
          { r with lo := some (Rat.ofInt a.ceil) } }
        better m (branch below fuel) (branch above fuel)
    | other => other

/-- How often the ranges of the integral variables can be shortened; a fixed number where a range
    has no end. -/
def Model.depth (m : Model) : Nat :=
  m.ranges.foldl (fun n r =>
    if r.integral then
      match r.lo, r.hi with
      | some lo, some hi => n + (hi - lo).ceil.toNat + 1
      | _, _ => n + 1000
    else n) 1

/-- Solves a model. -/
def Model.solve (m : Model) : Simplex.Result :=
  if m.ranges.any (·.integral) then branch m m.depth else relax m

/-- Solves a program exactly. -/
def solve (p : Program K) : Outcome (Answer K) := do
  match ← modelOf (← p.handOver) with
  | none => .ok ⟨.infeasible, none⟩
  | some m =>
    match m.solve with
    | .infeasible => .ok ⟨.infeasible, none⟩
    | .unbounded => .ok ⟨.unknown, none⟩
    | .optimal x => .ok ⟨.optimal, some (x.toList.map Scalar.ofRat)⟩

end Perturb.Exact

namespace Perturb

/-- The engine that solves exactly; it keeps no state of its own. -/
structure ExactEngine (K : Type) where
  deriving Inhabited, Repr

/-- The exact engine accepts every command. -/
instance Engine.instExact {K : Type} [Scalar K] : Engine (ExactEngine K) K where
  receive e _ := (.ok (), e)
  solve e p _ := (Exact.solve p, e)

end Perturb
