/-
  What is handed to a solver means what the program says.

  A program keeps bounds that refer to rows; what a solver is handed are columns, rows that may not
  exceed their right-hand sides and rows that must equal them, and costs to be minimised.

  1. **The other side** — `Handover.Admits` and `Handover.Minimises` say which points the columns
     and rows admit and which of them a solver looks for.

  2. **Rows** — a bound is met exactly if the one row it becomes is (`meets_iff`); changing all signs
     on both sides turns a lower bound into an upper one.

  3. **Costs (`value_rowCosts`)** — writing the coefficients of the objective into a list of zeros
     gives a list whose product with a point is the value of the row.  THE LOAD-BEARING FACT is that
     a row lists no variable twice: a cost is written, not added.

  The theorem is `Closed.handOver_ok`: of a closed program, one that refers only to what it has, the
  form handed over exists, admits the feasible points and is minimised by the optimal ones.
-/
import Perturb.Proofs.Program.Commands
import Perturb.Program.Handover

namespace Perturb

/-! ## Points of what was handed over -/

/-- The value of a row at a point. -/
def SparseRow.value (r : SparseRow Rat) (x : List Rat) : Rat :=
  (r.entries.map fun (j, a) => a * (x[j]?).getD 0).sum

namespace Handover

/-- A point is admitted: one value per column within its limits, integral where it must be, and
    every row kept. -/
structure Admits (h : Handover Rat) (x : List Rat) : Prop where
  length : x.length = h.cost.length
  limits : ∀ (i : Nat) (lo hi : Option Rat) (a : Rat), h.limits[i]? = some (lo, hi) →
    x[i]? = some a → (∀ l ∈ lo, l ≤ a) ∧ ∀ u ∈ hi, a ≤ u
  integral : ∀ (i : Nat) (a : Rat), h.integral[i]? = some true → x[i]? = some a → ∃ z : Int, a = z
  upper : ∀ r ∈ h.upper, r.value x ≤ r.rhs
  equal : ∀ r ∈ h.equal, r.value x = r.rhs

/-- The cost of a point. -/
def value (h : Handover Rat) (x : List Rat) : Rat := Scalar.dot h.cost x

/-- A point that a solver looks for: no admitted one costs less. -/
def Minimises (h : Handover Rat) (x : List Rat) : Prop :=
  h.Admits x ∧ ∀ y, h.Admits y → h.value x ≤ h.value y

end Handover

namespace Program

/-! ## Closed programs -/

/-- The entries of a row are on variables that exist, each at most once. -/
def OnVariables {K : Type} (count : Nat) (coeffs : List (Int × K)) : Prop :=
  (coeffs.map (·.1)).Nodup ∧ ∀ e ∈ coeffs, ∃ j < count, e.1 = Int.ofNat j

/-- A program that refers only to rows and variables it has. -/
structure Closed {K : Type} (p : Program K) : Prop where
  rows : ∀ r ∈ p.rows, OnVariables p.vars.length r.coeffs
  bounds : ∀ b ∈ p.bounds, ∃ k < p.rows.length, b.row = Int.ofNat k
  objective : ∀ i goal, p.objective = some (i, goal) → ∃ k < p.rows.length, i = Int.ofNat k

section

variable {K : Type} {p : Program K}

/-- A row that exists is found under its number. -/
theorem row_ofNat {k : Nat} (hk : k < p.rows.length) :
    p.row (Int.ofNat k) = .ok p.rows[k] ∧ p.rowAt (Int.ofNat k) = p.rows[k] := by
  have hget := List.getElem?_eq_getElem hk
  refine ⟨?_, rowAt_ofNat hget⟩
  unfold row
  rw [pick_ofNat, hget]

theorem Closed.row_of_bound (h : p.Closed) {b : RowBound K} (hb : b ∈ p.bounds) :
    p.row b.row = .ok (p.rowAt b.row) ∧ OnVariables p.vars.length (p.rowAt b.row).coeffs := by
  obtain ⟨k, hk, hrow⟩ := h.bounds b hb
  obtain ⟨hok, hat⟩ := row_ofNat hk
  rw [hrow, hok, hat]
  exact ⟨rfl, h.rows _ (List.getElem_mem hk)⟩

end

/-! ## Rows -/

section

variable {K : Type} [Scalar K]

/-- Entries by column numbers. -/
def byColumn (row : List (Int × K) × K) : SparseRow K :=
  ⟨row.1.map fun e => (e.1.toNat, e.2), row.2⟩

omit [Scalar K] in
theorem sparseRow_ok {count : Nat} {row : List (Int × K) × K} (h : OnVariables count row.1) :
    sparseRow count row = .ok (byColumn row) := by
  have hentry : ∀ e ∈ row.1, (if 0 ≤ e.1 && e.1 < Int.ofNat count then .ok (e.1.toNat, e.2)
      else .error .rejectedProgram : Outcome (Nat × K)) = .ok (e.1.toNat, e.2) := by
    intro e he
    obtain ⟨j, hj, hej⟩ := h.2 e he
    rw [hej]
    simp [hj]
  unfold sparseRow
  rw [Outcome.mapM_ok hentry]
  rfl

/-- A bound becomes a row on the same variables. -/
theorem onVariables_upper? {count : Nat} {b : RowBound K} {coeffs : List (Int × K)}
    (h : OnVariables count coeffs) {row : List (Int × K) × K} (hrow : upper? b coeffs = some row) :
    OnVariables count row.1 := by
  unfold upper? at hrow
  split at hrow <;> cases hrow
  · exact h
  · refine ⟨?_, fun e he => ?_⟩
    · rw [List.map_map]
      exact h.1
    · obtain ⟨e', he', rfl⟩ := List.mem_map.1 he
      exact h.2 e' he'

omit [Scalar K] in
theorem onVariables_equal? {count : Nat} {b : RowBound K} {coeffs : List (Int × K)}
    (h : OnVariables count coeffs) {row : List (Int × K) × K} (hrow : equal? b coeffs = some row) :
    OnVariables count row.1 := by
  unfold equal? at hrow
  split at hrow <;> cases hrow
  exact h

/-- The bounds of a program, each with the entries of its row. -/
def boundEntries (p : Program K) : List (RowBound K × List (Int × K)) :=
  p.bounds.map fun b => (b, (p.rowAt b.row).coeffs)

/-- What a closed program with given costs hands over. -/
def columns (p : Program K) (cost : List K) : Handover K where
  cost := cost
  upper := (p.boundEntries.filterMap fun e => upper? e.1 e.2).map byColumn
  equal := (p.boundEntries.filterMap fun e => equal? e.1 e.2).map byColumn
  limits := p.vars.map fun v => (v.lo, v.hi)
  integral := p.vars.map (·.integral)

/-- A closed program hands over its bounds by column numbers. -/
theorem Closed.handOver_eq {p : Program K} (h : p.Closed) :
    p.handOver = p.costs.map p.columns := by
  have hrows : (p.bounds.mapM fun b => do
      let row ← p.row b.row
      .ok (b, row.coeffs) : Outcome _) = .ok p.boundEntries :=
    Outcome.mapM_ok fun b hb => by rw [(h.row_of_bound hb).1]; rfl
  have hentries : ∀ e ∈ p.boundEntries, OnVariables p.vars.length e.2 := by
    intro e he
    obtain ⟨b, hb, rfl⟩ := List.mem_map.1 he
    exact (h.row_of_bound hb).2
  have hupper : ∀ row ∈ p.boundEntries.filterMap fun e => upper? e.1 e.2,
      sparseRow p.vars.length row = .ok (byColumn row) := by
    intro row hrow
    obtain ⟨e, he, hsome⟩ := List.mem_filterMap.1 hrow
    exact sparseRow_ok (onVariables_upper? (hentries e he) hsome)
  have hequal : ∀ row ∈ p.boundEntries.filterMap fun e => equal? e.1 e.2,
      sparseRow p.vars.length row = .ok (byColumn row) := by
    intro row hrow
    obtain ⟨e, he, hsome⟩ := List.mem_filterMap.1 hrow
    exact sparseRow_ok (onVariables_equal? (hentries e he) hsome)
  unfold handOver
  rw [hrows]
  cases p.costs with
  | error e => rfl
  | ok cost =>
    simp only [Outcome.ok_bind]
    rw [Outcome.mapM_ok hupper, Outcome.mapM_ok hequal]
    rfl

end

/-- By column numbers a row has the value it had. -/
theorem value_byColumn {count : Nat} {coeffs : List (Int × Rat)} (h : OnVariables count coeffs)
    (rhs : Rat) (x : List Rat) :
    (byColumn (coeffs, rhs)).value x = rowValue ⟨"", coeffs⟩ x := by
  unfold SparseRow.value byColumn rowValue
  rw [Scalar.sum_rat, List.map_map]
  refine congrArg List.sum (List.map_congr_left fun e he => ?_)
  obtain ⟨j, -, hej⟩ := h.2 e he
  obtain ⟨v, a⟩ := e
  have hv : v = Int.ofNat j := hej
  show a * (x[v.toNat]?).getD 0 = a * (pick x v).toOption.getD 0
  rw [hv, pick_ofNat_getD]
  rfl

/-- The value of a row, entry by entry. -/
theorem rowValue_cons (v : Int) (a : Rat) (coeffs : List (Int × Rat)) (x : List Rat) :
    rowValue ⟨"", (v, a) :: coeffs⟩ x =
      a * (pick x v).toOption.getD 0 + rowValue ⟨"", coeffs⟩ x := by
  unfold rowValue
  rw [Scalar.sum_rat, Scalar.sum_rat, List.map_cons, List.sum_cons]

/-- With all signs changed a row has the negated value. -/
theorem rowValue_neg (coeffs : List (Int × Rat)) (x : List Rat) :
    rowValue ⟨"", coeffs.map fun (v, a) => (v, -a)⟩ x = -rowValue ⟨"", coeffs⟩ x := by
  induction coeffs with
  | nil => rfl
  | cons e coeffs ih =>
    rw [List.map_cons, rowValue_cons, rowValue_cons, ih]
    ring

/-- **A bound is met** exactly if the row it becomes is. -/
theorem meets_iff {count : Nat} {b : RowBound Rat} {coeffs : List (Int × Rat)}
    (h : OnVariables count coeffs) (x : List Rat) :
    meets b.sense (rowValue ⟨"", coeffs⟩ x) b.rhs ↔
      (∀ row ∈ upper? b coeffs, (byColumn row).value x ≤ row.2) ∧
        ∀ row ∈ equal? b coeffs, (byColumn row).value x = row.2 := by
  have hupper : ∀ row ∈ upper? b coeffs, (byColumn row).value x = rowValue ⟨"", row.1⟩ x :=
    fun row hrow => value_byColumn (onVariables_upper? h hrow) row.2 x
  have hequal : ∀ row ∈ equal? b coeffs, (byColumn row).value x = rowValue ⟨"", row.1⟩ x :=
    fun row hrow => value_byColumn (onVariables_equal? h hrow) row.2 x
  obtain ⟨row, sense, rhs⟩ := b
  cases sense with
  | le =>
    have hvalue := hupper _ rfl
    simp [meets, upper?, equal?, hvalue]
  | ge =>
    have hvalue := hupper _ rfl
    rw [rowValue_neg] at hvalue
    simp [meets, upper?, equal?, hvalue]
  | eq =>
    have hvalue := hequal _ rfl
    simp [meets, upper?, equal?, hvalue]

/-! ## Costs -/

/-- Writing to a place that held zero adds the product with what a point has there. -/
theorem dot_modify {cost x : List Rat} {j : Nat} (hlen : cost.length = x.length)
    (hj : cost[j]? = some 0) (a : Rat) :
    Scalar.dot (cost.modify j fun _ => a) x = Scalar.dot cost x + a * (x[j]?).getD 0 := by
  rw [Scalar.dot_rat, Scalar.dot_rat]
  induction cost generalizing x j with
  | nil => cases hj
  | cons c cost ih =>
    cases x with
    | nil => cases hlen
    | cons y x =>
      have hlen : cost.length = x.length := Nat.succ.inj hlen
      cases j with
      | zero =>
        cases hj
        simp only [List.modify_zero_cons, List.zipWith_cons_cons, List.sum_cons,
          List.getElem?_cons_zero, Option.getD_some]
        ring
      | succ j =>
        have hrest := ih hlen hj
        simp only [List.modify_succ_cons, List.zipWith_cons_cons, List.sum_cons, hrest,
          List.getElem?_cons_succ]
        ring

/-- **Costs.**  The coefficients of an objective, written where there are zeros, cost a point the
    value of the row, or its negation if a maximum is wanted. -/
theorem value_rowCosts (goal : Goal) {coeffs : List (Int × Rat)} {cost : List Rat}
    (h : OnVariables cost.length coeffs)
    (hzero : ∀ (j : Nat) (a : Rat), (Int.ofNat j, a) ∈ coeffs → cost[j]? = some 0) :
    ∃ cost', coeffs.foldlM (fun cost (v, a) =>
        modifyAt cost v fun _ => if goal.minimises then a else -a) cost = .ok cost' ∧
      cost'.length = cost.length ∧ ∀ x : List Rat, x.length = cost.length →
        Scalar.dot cost' x = Scalar.dot cost x +
          (if goal.minimises then rowValue ⟨"", coeffs⟩ x else -rowValue ⟨"", coeffs⟩ x) := by
  induction coeffs generalizing cost with
  | nil =>
    refine ⟨cost, rfl, rfl, fun x _ => ?_⟩
    have hnil : rowValue ⟨"", []⟩ x = 0 := rfl
    rw [hnil, neg_zero, ite_self, add_zero]
  | cons e coeffs ih =>
    obtain ⟨v, a⟩ := e
    obtain ⟨hnodup, hall⟩ := h
    rw [List.map_cons, List.nodup_cons] at hnodup
    obtain ⟨⟨j, hj, rfl⟩, hon⟩ := List.forall_mem_cons.1 hall
    let written := cost.modify j fun _ => if goal.minimises then a else -a
    have hlen : written.length = cost.length := List.length_modify ..
    have hwritten : ∀ (i : Nat) (b : Rat), (Int.ofNat i, b) ∈ coeffs → written[i]? = some 0 := by
      intro i b hi
      have hne : j ≠ i := fun hji => hnodup.1 (List.mem_map.2 ⟨(Int.ofNat i, b), hi, by rw [hji]⟩)
      rw [List.getElem?_modify, hzero i b (List.mem_cons_of_mem _ hi)]
      exact congrArg some (if_neg hne)
    have hrest : OnVariables written.length coeffs := ⟨hnodup.2, hlen ▸ hon⟩
    obtain ⟨cost', hok, hlen', hvalue⟩ := ih hrest hwritten
    refine ⟨cost', ?_, hlen'.trans hlen, fun x hx => ?_⟩
    · rw [List.foldlM_cons]
      show (modifyAt cost (Int.ofNat j) _ >>= _) = _
      rw [modifyAt_ofNat hj]
      exact hok
    · rw [hvalue x (hx.trans hlen.symm), dot_modify hx.symm (hzero j a (List.mem_cons_self ..)),
        rowValue_cons, pick_ofNat_getD]
      cases goal.minimises <;> simp <;> ring

/-- The costs of a closed program: what its objective gives, to be minimised. -/
theorem Closed.costs_ok {p : Program Rat} (h : p.Closed) : ∃ cost, p.costs = .ok cost ∧
    cost.length = p.vars.length ∧ ∀ x : List Rat, x.length = p.vars.length →
      (p.objective = none → Scalar.dot cost x = 0) ∧
      ∀ i goal, p.objective = some (i, goal) → Scalar.dot cost x =
        if goal.minimises then rowValue (p.rowAt i) x else -rowValue (p.rowAt i) x := by
  let zeros : List Rat := List.replicate p.vars.length 0
  have hlen : zeros.length = p.vars.length := List.length_replicate
  have hzeros : ∀ x : List Rat, Scalar.dot zeros x = 0 := by
    intro x
    rw [Scalar.dot_rat]
    refine List.sum_eq_zero fun a ha => ?_
    obtain ⟨i, hi, rfl⟩ := List.getElem_of_mem ha
    simp [zeros]
  unfold costs
  cases hobj : p.objective with
  | none =>
    refine ⟨zeros, rfl, hlen, fun x _ => ⟨fun _ => hzeros x, fun i goal hsome => ?_⟩⟩
    cases hsome
  | some objective =>
    obtain ⟨i, goal⟩ := objective
    obtain ⟨k, hk, rfl⟩ := h.objective i goal hobj
    obtain ⟨hrow, hat⟩ := row_ofNat hk
    have hon : OnVariables zeros.length p.rows[k].coeffs := hlen ▸ h.rows _ (List.getElem_mem hk)
    have hzero : ∀ (j : Nat) (a : Rat), (Int.ofNat j, a) ∈ p.rows[k].coeffs →
        zeros[j]? = some 0 := by
      intro j a hj
      obtain ⟨j', hj', hjj⟩ := hon.2 _ hj
      have hjj : j = j' := Int.ofNat.inj hjj
      rw [hjj, List.getElem?_eq_getElem hj']
      exact congrArg some (List.getElem_replicate ..)
    obtain ⟨cost, hok, hcost, hvalue⟩ := value_rowCosts goal hon hzero
    refine ⟨cost, ?_, hcost.trans hlen, fun x hx => ⟨fun hnone => ?_, fun i' goal' hsome => ?_⟩⟩
    · show (p.row _ >>= _) = _
      rw [hrow]
      exact hok
    · cases hnone
    · cases hsome
      rw [hvalue x (hx.trans hlen.symm), hzeros, zero_add, hat]
      rfl

/-! ## Programs -/

section

variable {p : Program Rat}

/-- Limits and integrality are kept exactly if every value is within the limits of its variable. -/
theorem columns_within_iff (p : Program Rat) (cost : List Rat) {x : List Rat} :
    ((∀ (i : Nat) (lo hi : Option Rat) (a : Rat), (p.columns cost).limits[i]? = some (lo, hi) →
        x[i]? = some a → (∀ l ∈ lo, l ≤ a) ∧ ∀ u ∈ hi, a ≤ u) ∧
      ∀ (i : Nat) (a : Rat), (p.columns cost).integral[i]? = some true → x[i]? = some a →
        ∃ z : Int, a = z) ↔
      ∀ (i : Nat) (v : Variable Rat) (a : Rat), p.vars[i]? = some v → x[i]? = some a →
        withinLimits v a := by
  constructor
  · rintro ⟨hlimits, hintegral⟩ i v a hv ha
    obtain ⟨hlo, hhi⟩ := hlimits i v.lo v.hi a (by unfold columns; simp [hv]) ha
    exact ⟨hlo, hhi, fun hint => hintegral i a (by unfold columns; simp [hv, hint]) ha⟩
  · intro hall
    constructor
    · intro i lo hi a hlimits ha
      unfold columns at hlimits
      rw [List.getElem?_map] at hlimits
      obtain ⟨v, hv, heq⟩ := Option.map_eq_some_iff.1 hlimits
      cases heq
      obtain ⟨hlo, hhi, -⟩ := hall i v a hv ha
      exact ⟨hlo, hhi⟩
    · intro i a hintegral ha
      unfold columns at hintegral
      rw [List.getElem?_map] at hintegral
      obtain ⟨v, hv, heq⟩ := Option.map_eq_some_iff.1 hintegral
      exact (hall i v a hv ha).2.2 heq

/-- The rows of a closed program are kept exactly if its bounds are met. -/
theorem Closed.columns_kept_iff (h : p.Closed) {cost x : List Rat} :
    ((∀ r ∈ (p.columns cost).upper, r.value x ≤ r.rhs) ∧
      ∀ r ∈ (p.columns cost).equal, r.value x = r.rhs) ↔
      ∀ b ∈ p.bounds, meets b.sense (rowValue (p.rowAt b.row) x) b.rhs := by
  constructor
  · rintro ⟨hupper, hequal⟩ b hb
    have hentry : (b, (p.rowAt b.row).coeffs) ∈ p.boundEntries := List.mem_map_of_mem hb
    refine (meets_iff (h.row_of_bound hb).2 x).2 ⟨fun row hrow => ?_, fun row hrow => ?_⟩
    · exact hupper _ (List.mem_map_of_mem (List.mem_filterMap.2 ⟨_, hentry, hrow⟩))
    · exact hequal _ (List.mem_map_of_mem (List.mem_filterMap.2 ⟨_, hentry, hrow⟩))
  · intro hall
    constructor
    · intro r hr
      obtain ⟨row, hrow, rfl⟩ := List.mem_map.1 hr
      obtain ⟨e, he, hsome⟩ := List.mem_filterMap.1 hrow
      obtain ⟨b, hb, rfl⟩ := List.mem_map.1 he
      exact ((meets_iff (h.row_of_bound hb).2 x).1 (hall b hb)).1 row hsome
    · intro r hr
      obtain ⟨row, hrow, rfl⟩ := List.mem_map.1 hr
      obtain ⟨e, he, hsome⟩ := List.mem_filterMap.1 hrow
      obtain ⟨b, hb, rfl⟩ := List.mem_map.1 he
      exact ((meets_iff (h.row_of_bound hb).2 x).1 (hall b hb)).2 row hsome

theorem Closed.columns_admits_iff (h : p.Closed) {cost : List Rat}
    (hlen : cost.length = p.vars.length) (x : List Rat) :
    (p.columns cost).Admits x ↔ p.feasible x := by
  unfold feasible
  rw [← columns_within_iff p cost, ← h.columns_kept_iff, ← hlen]
  constructor
  · intro hx
    exact ⟨hx.length, ⟨hx.limits, hx.integral⟩, hx.upper, hx.equal⟩
  · rintro ⟨hlength, ⟨hlimits, hintegral⟩, hupper, hequal⟩
    exact ⟨hlength, hlimits, hintegral, hupper, hequal⟩

/-- **What is handed over means what the program says.**  A closed program can be handed over; the
    columns and rows admit its feasible points, and are minimised by its optimal ones. -/
theorem Closed.handOver_ok (h : p.Closed) : ∃ w, p.handOver = .ok w ∧
    (∀ x, w.Admits x ↔ p.feasible x) ∧ ∀ x, w.Minimises x ↔ p.Optimal x := by
  obtain ⟨cost, hcosts, hlen, hvalue⟩ := h.costs_ok
  have hok : p.handOver = .ok (p.columns cost) := by
    rw [h.handOver_eq, hcosts]
    rfl
  have hadmits := h.columns_admits_iff hlen
  refine ⟨_, hok, hadmits, fun x => ?_⟩
  unfold Handover.Minimises Optimal
  rw [hadmits x]
  refine and_congr_right fun hx => ?_
  have hcost : ∀ y, p.feasible y → (p.objective = none → (p.columns cost).value y = 0) ∧
      ∀ i goal, p.objective = some (i, goal) → (p.columns cost).value y =
        if goal.minimises then rowValue (p.rowAt i) y else -rowValue (p.rowAt i) y :=
    fun y hy => hvalue y hy.1
  constructor
  · intro hmin i goal hobj y hy
    have hle := hmin y ((hadmits y).2 hy)
    rw [(hcost x hx).2 i goal hobj, (hcost y hy).2 i goal hobj] at hle
    cases hgoal : goal.minimises with
    | true => simpa [hgoal] using hle
    | false => simpa [hgoal] using hle
  · intro hbest y hy
    have hy := (hadmits y).1 hy
    cases hobj : p.objective with
    | none => rw [(hcost x hx).1 hobj, (hcost y hy).1 hobj]
    | some objective =>
      obtain ⟨i, goal⟩ := objective
      have hle := hbest i goal hobj y hy
      rw [(hcost x hx).2 i goal hobj, (hcost y hy).2 i goal hobj]
      cases hgoal : goal.minimises with
      | true => simpa [hgoal] using hle
      | false => simpa [hgoal] using hle

end

end Program

end Perturb
