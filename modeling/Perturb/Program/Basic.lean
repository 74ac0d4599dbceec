/-
  Linear programs as data.

  A `Program` is built by commands: variables are created and bounded, rows are created and filled
  with coefficients, and a row becomes a constraint when it is bound to a right-hand side, or the
  objective when it is named so.  A bound refers to its row, so coefficients changed later count;
  a row may be bound several times.

  `feasible` says which points a program admits; it is what a solver of the program is measured
  against.
-/
import Perturb.Scalar
import Perturb.Number.Position

namespace Perturb

/-- How a row compares with its right-hand side. -/
inductive Sense where
  | le | ge | eq
  deriving DecidableEq, Repr, Inhabited

namespace Sense

/-- The sign of a sense. -/
def sign : Sense → String
  | .le => "<="
  | .ge => ">="
  | .eq => "="

/-- The sense of a sign. -/
def ofSign : String → Outcome Sense
  | "<=" => .ok .le
  | ">=" => .ok .ge
  | "=" => .ok .eq
  | word => .error (.unknownSense word)

end Sense

/-- The direction of an objective.  Any word but `min` asks for a maximum. -/
structure Goal where
  word : String
  deriving DecidableEq, Repr, Inhabited

/-- Whether the smallest value is wanted. -/
def Goal.minimises (g : Goal) : Bool := g.word == "min"

/-- A variable; a missing bound is no bound. -/
structure Variable (K : Type) where
  name : String
  lo : Option K
  hi : Option K
  integral : Bool
  deriving Repr, Inhabited

/-- A row: coefficients by variable, in the order in which they were first set. -/
structure Row (K : Type) where
  name : String
  coeffs : List (Int × K)
  deriving Repr, Inhabited

/-- A row bound to a right-hand side. -/
structure RowBound (K : Type) where
  row : Int
  sense : Sense
  rhs : K
  deriving Repr, Inhabited

/-- A linear program. -/
structure Program (K : Type) where
  name : String
  vars : List (Variable K)
  rows : List (Row K)
  bounds : List (RowBound K)
  objective : Option (Int × Goal)
  deriving Repr, Inhabited

/-- One step in building a program. -/
inductive Command (K : Type) where
  | begin (name : String)
  | variable (name : String)
  | limit (var : Int) (lo hi : K)
  | integral (var : Int) (on : Bool)
  | row (name : String)
  | coefficient (row var : Int) (value : K)
  | bind (row : Int) (sense : Sense) (rhs : K)
  | objective (row : Int) (goal : Goal)
  deriving Repr, Inhabited

namespace Program

variable {K : Type}

/-- The program of a name with nothing in it. -/
def empty (name : String) : Program K := ⟨name, [], [], [], none⟩

/-- Sets an entry of an association list in place, or appends it. -/
def setEntry (key : Int) (value : K) : List (Int × K) → List (Int × K)
  | [] => [(key, value)]
  | (k, v) :: rest => if k = key then (k, value) :: rest else (k, v) :: setEntry key value rest

/-- Changes the element at a position counted from either end. -/
def modifyAt {α : Type} (xs : List α) (i : Int) (f : α → α) : Outcome (List α) :=
  match position? xs.length i with
  | some k => .ok (xs.modify k f)
  | none => .error .position

/-- The program after a command. -/
def apply (p : Program K) : Command K → Outcome (Program K)
  | .begin name => .ok (empty name)
  | .variable name => .ok { p with vars := p.vars ++ [⟨name, none, none, false⟩] }
  | .limit v lo hi => do
    let vars ← modifyAt p.vars v fun x => { x with lo := some lo, hi := some hi }
    .ok { p with vars }
  | .integral v on => do
    let vars ← modifyAt p.vars v fun x => { x with integral := on }
    .ok { p with vars }
  | .row name => .ok { p with rows := p.rows ++ [⟨name, []⟩] }
  | .coefficient row v a => do
    let rows ← modifyAt p.rows row fun r => { r with coeffs := setEntry v a r.coeffs }
    .ok { p with rows }
  | .bind row sense rhs => .ok { p with bounds := p.bounds ++ [⟨row, sense, rhs⟩] }
  | .objective row goal => .ok { p with objective := some (row, goal) }

/-- The row of an id. -/
def row (p : Program K) (i : Int) : Outcome (Row K) := pick p.rows i

/-- The row with a number, empty if there is none. -/
def rowAt (p : Program K) (i : Int) : Row K := (p.row i).toOption.getD ⟨"", []⟩

variable [Scalar K]

/-- The value of a row at a point. -/
def rowValue (r : Row K) (x : List K) : K :=
  Scalar.sum (r.coeffs.map fun (v, a) => a * (pick x v).toOption.getD 0)

/-- Whether a value respects a bound of a variable. -/
def withinLimits (v : Variable K) (a : K) : Prop :=
  (∀ lo ∈ v.lo, lo ≤ a) ∧ (∀ hi ∈ v.hi, a ≤ hi) ∧
    (v.integral = true → ∃ n : Int, a = Scalar.ofInt n)

/-- Whether a row's value compares with a right-hand side as the sense asks. -/
def meets (sense : Sense) (value rhs : K) : Prop :=
  match sense with
  | .le => value ≤ rhs
  | .ge => rhs ≤ value
  | .eq => value = rhs

/-- Whether a point is admitted: one value per variable within its limits, and every bound met. -/
def feasible (p : Program K) (x : List K) : Prop :=
  x.length = p.vars.length ∧
  (∀ (i : Nat) (v : Variable K) (a : K), p.vars[i]? = some v → x[i]? = some a →
    withinLimits v a) ∧
  ∀ b ∈ p.bounds, meets b.sense (rowValue (p.rowAt b.row) x) b.rhs

end Program

/-! ## Answers -/

/-- How a solve ended. -/
inductive Status where
  | optimal | feasible | infeasible | timedOut | unknown
  | other (word : String)
  deriving DecidableEq, Repr, Inhabited

namespace Status

/-- The word of a status. -/
def word : Status → String
  | .optimal => "OPTIMAL"
  | .feasible => "FEASIBLE"
  | .infeasible => "INFEASIBLE"
  | .timedOut => "TIMED_OUT"
  | .unknown => "UNKNOWN"
  | .other w => w

/-- The status of a word. -/
def ofWord : String → Status
  | "OPTIMAL" => .optimal
  | "FEASIBLE" => .feasible
  | "INFEASIBLE" => .infeasible
  | "TIMED_OUT" => .timedOut
  | "UNKNOWN" => .unknown
  | w => .other w

end Status

/-- The answer of a solver. -/
structure Answer (K : Type) where
  status : Status
  values : Option (List K)
  deriving Repr, Inhabited

/-- The point found, if the status says that it is one. -/
def Answer.solution? {K : Type} (a : Answer K) : Option (List K) :=
  match a.status with
  | .optimal => a.values
  | .feasible => a.values
  | _ => none

end Perturb
