/-
  What a session leaves on the solver, at fractions.

  The ledger of a session says which constraints its bounds bear.  Here it is read over fractions,
  where a point can be asked whether it is feasible: the bound rows are those of the constraints in
  the ledger (`Ledger.rows_eq`), so what meets them, and what the program admits, is said without
  the program (`Ledger.rows_met_iff`, `Ledger.feasible_iff`).

  `begin_ok` computes what a session begins with, and `ledger_of_begin` that its ledger is empty.
-/
import Perturb.Proofs.Program.Ledger

namespace Perturb

/-- An engine that takes note of every command. -/
def Engine.Accepts (E : Type) [Engine E Rat] : Prop :=
  ∀ (e : E) (c : Command Rat), (Engine.receive e c).1 = .ok ()

namespace Session

variable {E : Type} {n : Nat}

/-! ## The ledger at fractions -/

namespace Ledger

variable {g : Ground Rat n} {log : List Nat} {s s' : Session E Rat n}

/-- The bound row of a constraint is the row it becomes. -/
theorem row?_of_bears {p : Program Rat} {c : Constraint Rat n} {b : RowBound Rat}
    (h : p.Bears c b) : c.row? = some ⟨(p.rowAt b.row).coeffs, b.sense, b.rhs⟩ := by
  obtain ⟨k, r, hb, hr, hcoeffs⟩ := h.row
  unfold Constraint.row?
  rw [h.sense, h.rhs, hb, Program.rowAt_ofNat hr, hcoeffs]
  rfl

/-- The bound rows are those of the constraints in the ledger. -/
theorem rows_eq (h : Ledger g log s) :
    s.program.boundRows.map some = log.map fun i => (g.constraint i).row? := by
  unfold Program.boundRows
  rw [List.map_map]
  refine List.forall₂_eq_eq_eq ▸ ?_
  rw [List.forall₂_map_left_iff, List.forall₂_map_right_iff]
  exact h.bears.flip.imp fun b i hb => (row?_of_bears hb).symm

/-- A constraint in the ledger has a row. -/
theorem row?_isSome (h : Ledger g log s) {i : Nat} (hi : i ∈ log) :
    ∃ r ∈ s.program.boundRows, (g.constraint i).row? = some r := by
  obtain ⟨b, hb, hbears⟩ := h.exists_bound hi
  exact ⟨_, List.mem_map_of_mem hb, row?_of_bears hbears⟩

/-- A point meets the bound rows exactly if it satisfies every constraint in the ledger with
    equality allowed. -/
theorem rows_met_iff (h : Ledger g log s) (v : Vector Rat n) :
    (∀ r ∈ s.program.boundRows, r.Met v.toList) ↔ ∀ i ∈ log, (g.constraint i).weakened.Holds v := by
  constructor
  · intro hrows i hi
    obtain ⟨r, hr, hrow⟩ := h.row?_isSome hi
    exact (Constraint.met_iff_holds hrow v).1 (hrows r hr)
  · intro hall r hr
    have hmem : some r ∈ log.map fun i => (g.constraint i).row? := by
      rw [← h.rows_eq]
      exact List.mem_map_of_mem hr
    obtain ⟨i, hi, hrow⟩ := List.mem_map.1 hmem
    exact (Constraint.met_iff_holds hrow v).2 (hall i hi)

/-- **What a program admits.**  A point is feasible exactly if it respects the variables and
    satisfies every constraint in the ledger with equality allowed. -/
theorem feasible_iff (h : Ledger g log s) (v : Vector Rat n) :
    s.program.feasible v.toList ↔ Program.InLimits g.vars v.toList ∧
      ∀ i ∈ log, (g.constraint i).weakened.Holds v := by
  rw [Program.feasible_iff, h.vars_eq, h.rows_met_iff]

/-- A feasible point has one value per variable. -/
theorem length_of_feasible (h : Ledger g log s) {x : List Rat} (hx : s.program.feasible x) :
    x.length = g.vars.length := by
  rw [Program.feasible_iff, h.vars_eq] at hx
  exact hx.1.1

end Ledger

variable [Engine E Rat]

/-! ## Beginning -/

/-- Beginning is telling a list of commands. -/
theorem begin_eq (origin : List Rat) (bound min max : Rat) (integrality : Bool) :
    (Session.begin origin bound min max integrality : Step (Session E Rat n) Unit) =
      (Program.beginCommands n (clippedBounds origin bound min max) min max integrality).forM
        tell := by
  have hflat : ∀ (is : List Nat) (f : Nat → List (Command Rat)),
      forM (is.flatMap f) (tell : Command Rat → Step (Session E Rat n) Unit) =
        forM is fun i => forM (f i) tell := by
    intro is f
    induction is with
    | nil => rfl
    | cons i is ih =>
      rw [List.flatMap_cons, List.forM_append, ih, List.forM_cons]
  have hdeclare : ∀ i, (declare (clippedBounds origin bound min max) min max integrality i :
      Step (Session E Rat n) Unit) =
        forM (Program.limitCommands (clippedBounds origin bound min max) min max integrality i)
          tell := by
    intro i
    unfold declare Program.limitCommands
    cases integrality <;> simp
  unfold Session.begin Program.beginCommands
  simp only [List.forM_eq_forM, List.cons_append, List.forM_cons, List.forM_append, List.forM_map,
    hflat, funext hdeclare]

/-- A program that was begun has its variables and nothing else. -/
theorem begin_ok {origin : List Rat} {bound min max : Rat} {integrality : Bool}
    {s s' : Session E Rat n} (h : Session.begin origin bound min max integrality s = .ok () s') :
    ∃ engine, s' = { s with
      engine, program := .begun n (clippedBounds origin bound min max) min max integrality } := by
  rw [begin_eq] at h
  obtain ⟨engine, program, hall, rfl⟩ := tellAll_ok h
  rw [Program.applyAll_beginCommands] at hall
  cases hall
  exact ⟨engine, rfl⟩

theorem begin_of_accepts (ha : Engine.Accepts E) (origin : List Rat) (bound min max : Rat)
    (integrality : Bool) (s : Session E Rat n) :
    ∃ s', Session.begin origin bound min max integrality s = .ok () s' := by
  rw [begin_eq]
  obtain ⟨engine, h⟩ := tellAll_of_accepts ha
    (Program.applyAll_beginCommands s.program n (clippedBounds origin bound min max) min max
      integrality)
  exact ⟨_, h⟩

/-- A session that was begun has an empty ledger. -/
theorem ledger_of_begin {origin : List Rat} {bound min max : Rat} {integrality : Bool}
    {s s' : Session E Rat n} (hrows : s.rowsAdded = 0) (hpool : ∀ c ∈ s.pool, c.added = false)
    (h : Session.begin origin bound min max integrality s = .ok () s') :
    Ledger ⟨s.inputDim, (Program.begun n (clippedBounds origin bound min max) min max
      integrality).vars, s.pool⟩ [] s' := by
  have hledger := (begun_of_begin h).ledger hrows hpool
  obtain ⟨engine, rfl⟩ := begin_ok h
  exact hledger

end Session

end Perturb
