/-
  What a solver was told is what it is handed.

  A solver is told commands, and asked to solve in between.  What was declared is read off the
  commands alone: since the program was last begun, what was set last for a variable, what was
  written last to a place of a row, and every bound that was issued.

  1. **Readings** — `Declared.limits`, `Declared.coefficient`, `Declared.bounds` and their
     companions, and with them the points that were asked for (`Declared.Admits`) and those that are
     best (`Declared.Best`).  No program occurs in them.

  2. **The crux (`Declares.apply`)** — commands declare a program if every entry of it is what the
     readings give.  One command, on ids that were given out, keeps this; so a coefficient that is
     changed after its row was bound counts, and a row bound twice is bound twice.

  3. **Runs** — hence after any calls, solves among them, what was told declares the program
     (`declares_called`), and it is closed, so it can be handed over.

  The theorem is `handed_over_as_declared`.
-/
import Perturb.Proofs.Program.Export
import Perturb.Proofs.Program.Handover

namespace Perturb

/-! ## Readings -/

namespace Command

variable {K : Type}

/-- The limits a command sets for a variable. -/
def limits? (i : Nat) : Command K → Option (K × K)
  | .limit v lo hi => if v = Int.ofNat i then some (lo, hi) else none
  | _ => none

/-- What a command says about whether a variable is integral. -/
def integral? (i : Nat) : Command K → Option Bool
  | .integral v on => if v = Int.ofNat i then some on else none
  | _ => none

/-- What a command writes to a place of a row. -/
def coefficient? (k : Int) (i : Nat) : Command K → Option K
  | .coefficient id v a => if id = k ∧ v = Int.ofNat i then some a else none
  | _ => none

/-- The bound a command issues. -/
def bound? : Command K → Option (RowBound K)
  | .bind id sense rhs => some ⟨id, sense, rhs⟩
  | _ => none

/-- The objective a command names. -/
def objective? : Command K → Option (Int × Goal)
  | .objective id goal => some (id, goal)
  | _ => none

/-- Whether a command creates a variable. -/
def isVariable : Command K → Bool
  | .variable _ => true
  | _ => false

/-- Whether a command creates a row. -/
def isRow : Command K → Bool
  | .row _ => true
  | _ => false

end Command

namespace Declared

variable {K : Type}

/-- What was said last, of what a list of commands says. -/
def last {α : Type} (f : Command K → Option α) (told : List (Command K)) : Option α :=
  (told.filterMap f).getLast?

@[simp] theorem last_concat {α : Type} (f : Command K → Option α) (told : List (Command K))
    (c : Command K) : last f (told ++ [c]) = (f c).or (last f told) := by
  unfold last
  rw [List.filterMap_append, List.getLast?_append]
  cases h : f c <;> simp [h]

/-- How many variables there are. -/
def variableCount (told : List (Command K)) : Nat := told.countP Command.isVariable

/-- How many rows there are. -/
def rowCount (told : List (Command K)) : Nat := told.countP Command.isRow

/-- The limits of a variable, if any were set. -/
def limits (told : List (Command K)) (i : Nat) : Option (K × K) := last (Command.limits? i) told

/-- Whether a variable must be integral. -/
def integral (told : List (Command K)) (i : Nat) : Bool :=
  (last (Command.integral? i) told).getD false

/-- What was written to a place of a row, if anything was. -/
def entryOf (told : List (Command K)) (row : Int) (i : Nat) : Option K :=
  last (Command.coefficient? row i) told

/-- All bounds that were issued, in order. -/
def bounds (told : List (Command K)) : List (RowBound K) := told.filterMap Command.bound?

/-- The objective. -/
def objective (told : List (Command K)) : Option (Int × Goal) := last Command.objective? told

/-- A command after others: beginning makes a clean slate. -/
def proceed (told : List (Command K)) : Command K → List (Command K)
  | .begin _ => []
  | c => told ++ [c]

/-- The ids in a command were given out. -/
def Proper (told : List (Command K)) : Command K → Prop
  | .limit v _ _ => ∃ i < variableCount told, v = Int.ofNat i
  | .integral v _ => ∃ i < variableCount told, v = Int.ofNat i
  | .coefficient row v _ => (∃ k < rowCount told, row = Int.ofNat k) ∧
      ∃ i < variableCount told, v = Int.ofNat i
  | .bind row _ _ => ∃ k < rowCount told, row = Int.ofNat k
  | .objective row _ => ∃ k < rowCount told, row = Int.ofNat k
  | _ => True

/-! ### Points -/

/-- The coefficient at a place of a row; zero where nothing was written. -/
def coefficient (told : List (Command Rat)) (row : Int) (i : Nat) : Rat :=
  (entryOf told row i).getD 0

/-- The value of a row at a point. -/
def rowValue (told : List (Command Rat)) (row : Int) (x : List Rat) : Rat :=
  ∑ i ∈ Finset.range (variableCount told), coefficient told row i * (x[i]?).getD 0

/-- A point is what was asked for: within the limits of every variable, integral where it must be,
    and every bound that was issued is met. -/
structure Admits (told : List (Command Rat)) (x : List Rat) : Prop where
  length : x.length = variableCount told
  limits : ∀ (i : Nat) (lo hi a : Rat), limits told i = some (lo, hi) → x[i]? = some a →
    lo ≤ a ∧ a ≤ hi
  integral : ∀ (i : Nat) (a : Rat), integral told i = true → x[i]? = some a → ∃ z : Int, a = z
  bounds : ∀ b ∈ bounds told, Program.meets b.sense (rowValue told b.row x) b.rhs

/-- A point is best: it is what was asked for, and nothing that is has a better value of the
    objective. -/
def Best (told : List (Command Rat)) (x : List Rat) : Prop :=
  Admits told x ∧ ∀ row goal, objective told = some (row, goal) → ∀ y, Admits told y →
    if goal.minimises then rowValue told row x ≤ rowValue told row y
    else rowValue told row y ≤ rowValue told row x

end Declared

/-! ## Programs that commands declare -/

namespace Program

open Declared

section

variable {K : Type}

variable {told : List (Command K)} {c : Command K}

/-! ### Variables -/

/-- Variables are what commands declare.  Nothing was said of a variable before it was created. -/
structure VarsStand (told : List (Command K)) (vars : List (Variable K)) : Prop where
  length : vars.length = variableCount told
  limits : ∀ (i : Nat) (v : Variable K), vars[i]? = some v →
    v.lo = (limits told i).map Prod.fst ∧ v.hi = (limits told i).map Prod.snd
  integral : ∀ (i : Nat) (v : Variable K), vars[i]? = some v → v.integral = integral told i
  unset : ∀ i, variableCount told ≤ i → Declared.limits told i = none ∧
    Declared.integral told i = false

theorem variableCount_concat (told : List (Command K)) (c : Command K) :
    variableCount (told ++ [c]) = variableCount told + if c.isVariable then 1 else 0 := by
  unfold variableCount
  rw [List.countP_append, List.countP_singleton]

/-- What stands at a place of a list of which one place was changed. -/
theorem of_getElem?_modify {α : Type} {xs : List α} {i j : Nat} {f : α → α} {y : α}
    (h : (xs.modify i f)[j]? = some y) :
    ∃ x, xs[j]? = some x ∧ y = if i = j then f x else x := by
  rw [List.getElem?_modify] at h
  obtain ⟨x, hx, rfl⟩ := Option.map_eq_some_iff.1 h
  exact ⟨x, hx, rfl⟩

namespace VarsStand

variable {vars : List (Variable K)}

/-- A command that says nothing of variables leaves them standing. -/
theorem frame (h : VarsStand told vars) (hvar : c.isVariable = false)
    (hlimits : ∀ i, c.limits? i = none) (hintegral : ∀ i, c.integral? i = none) :
    VarsStand (told ++ [c]) vars := by
  have hl : ∀ i, Declared.limits (told ++ [c]) i = Declared.limits told i := by
    intro i
    simp [Declared.limits, hlimits i]
  have hi : ∀ i, Declared.integral (told ++ [c]) i = Declared.integral told i := by
    intro i
    simp [Declared.integral, hintegral i]
  have hcount : variableCount (told ++ [c]) = variableCount told := by
    simp [variableCount_concat, hvar]
  constructor
  · rw [hcount, h.length]
  · intro i v hv
    rw [hl]
    exact h.limits i v hv
  · intro i v hv
    rw [hi]
    exact h.integral i v hv
  · intro i hle
    rw [hl, hi]
    exact h.unset i (hcount ▸ hle)

/-- A variable that is created has no limits and need not be integral. -/
theorem create (h : VarsStand told vars) (name : String) :
    VarsStand (told ++ [.variable name]) (vars ++ [⟨name, none, none, false⟩]) := by
  have hl : ∀ i, Declared.limits (told ++ [.variable name]) i = Declared.limits told i := by
    intro i
    simp [Declared.limits, Command.limits?]
  have hi : ∀ i, Declared.integral (told ++ [.variable name]) i = Declared.integral told i := by
    intro i
    simp [Declared.integral, Command.integral?]
  have hcount : variableCount (told ++ [.variable name]) = variableCount told + 1 := by
    simp [variableCount_concat, Command.isVariable]
  -- a variable that was there, or the new one, of which nothing was said
  have hcases : ∀ (i : Nat) (v : Variable K),
      (vars ++ [⟨name, none, none, false⟩])[i]? = some v →
        vars[i]? = some v ∨ v = ⟨name, none, none, false⟩ ∧ variableCount told ≤ i := by
    intro i v hv
    rcases Nat.lt_or_ge i vars.length with hlt | hge
    · rw [List.getElem?_append_left hlt] at hv
      exact Or.inl hv
    · rw [List.getElem?_append_right hge] at hv
      have hmem := List.mem_of_getElem? hv
      exact Or.inr ⟨List.mem_singleton.1 hmem, h.length ▸ hge⟩
  constructor
  · rw [hcount, List.length_append, h.length]
    rfl
  · intro i v hv
    rw [hl]
    rcases hcases i v hv with hv | ⟨rfl, hge⟩
    · exact h.limits i v hv
    · rw [(h.unset i hge).1]
      exact ⟨rfl, rfl⟩
  · intro i v hv
    rw [hi]
    rcases hcases i v hv with hv | ⟨rfl, hge⟩
    · exact h.integral i v hv
    · exact (h.unset i hge).2.symm
  · intro i hle
    rw [hl, hi]
    exact h.unset i (by omega)

/-- Limits that are set replace those that were set before. -/
theorem limit (h : VarsStand told vars) {j : Nat} (hj : j < variableCount told) (lo hi : K) :
    VarsStand (told ++ [.limit (Int.ofNat j) lo hi])
      (vars.modify j fun x => { x with lo := some lo, hi := some hi }) := by
  have hl : ∀ i, Declared.limits (told ++ [.limit (Int.ofNat j) lo hi]) i =
      if j = i then some (lo, hi) else Declared.limits told i := by
    intro i
    by_cases hji : j = i <;> simp [Declared.limits, Command.limits?, hji]
  have hi' : ∀ i, Declared.integral (told ++ [.limit (Int.ofNat j) lo hi]) i =
      Declared.integral told i := by
    intro i
    simp [Declared.integral, Command.integral?]
  have hcount : variableCount (told ++ [.limit (Int.ofNat j) lo hi]) = variableCount told := by
    simp [variableCount_concat, Command.isVariable]
  constructor
  · rw [hcount, List.length_modify, h.length]
  · intro i v hv
    obtain ⟨x, hx, rfl⟩ := of_getElem?_modify hv
    rw [hl]
    split
    · exact ⟨rfl, rfl⟩
    · exact h.limits i x hx
  · intro i v hv
    obtain ⟨x, hx, rfl⟩ := of_getElem?_modify hv
    rw [hi', ← h.integral i x hx]
    split <;> rfl
  · intro i hle
    rw [hcount] at hle
    rw [hl, hi', if_neg (by omega)]
    exact h.unset i hle

/-- What is said of whether a variable is integral replaces what was said before. -/
theorem mark (h : VarsStand told vars) {j : Nat} (hj : j < variableCount told) (on : Bool) :
    VarsStand (told ++ [.integral (Int.ofNat j) on])
      (vars.modify j fun x => { x with integral := on }) := by
  have hl : ∀ i, Declared.limits (told ++ [.integral (Int.ofNat j) on]) i =
      Declared.limits told i := by
    intro i
    simp [Declared.limits, Command.limits?]
  have hi : ∀ i, Declared.integral (told ++ [.integral (Int.ofNat j) on]) i =
      if j = i then on else Declared.integral told i := by
    intro i
    by_cases hji : j = i <;> simp [Declared.integral, Command.integral?, hji]
  have hcount : variableCount (told ++ [.integral (Int.ofNat j) on]) = variableCount told := by
    simp [variableCount_concat, Command.isVariable]
  constructor
  · rw [hcount, List.length_modify, h.length]
  · intro i v hv
    obtain ⟨x, hx, rfl⟩ := of_getElem?_modify hv
    rw [hl, ← (h.limits i x hx).1, ← (h.limits i x hx).2]
    split <;> exact ⟨rfl, rfl⟩
  · intro i v hv
    obtain ⟨x, hx, rfl⟩ := of_getElem?_modify hv
    rw [hi]
    split
    · rfl
    · exact h.integral i x hx
  · intro i hle
    rw [hcount] at hle
    rw [hl, hi, if_neg (by omega)]
    exact h.unset i hle

end VarsStand

/-! ### Rows -/

theorem lookup_cons_if (j k : Int) (a : K) (es : List (Int × K)) :
    ((j, a) :: es).lookup k = if k = j then some a else es.lookup k := by
  by_cases hk : k = j
  · rw [if_pos hk, hk]
    exact List.lookup_cons_self
  · rw [if_neg hk, List.lookup_cons, beq_eq_false_iff_ne.2 hk]

/-- An entry that was set is found, and every other one as before. -/
theorem lookup_setEntry (key : Int) (value : K) (es : List (Int × K)) (k : Int) :
    (setEntry key value es).lookup k = if k = key then some value else es.lookup k := by
  induction es with
  | nil => exact lookup_cons_if key k value []
  | cons e es ih =>
    obtain ⟨j, a⟩ := e
    rw [setEntry]
    split
    · rename_i hj
      rw [lookup_cons_if, lookup_cons_if, hj]
      split <;> rfl
    · rename_i hj
      rw [lookup_cons_if, lookup_cons_if, ih]
      by_cases hk : k = j
      · rw [if_pos hk, if_neg (fun hkey => hj (hk ▸ hkey)), if_pos hk]
      · rw [if_neg hk, if_neg hk]

theorem mem_keys_setEntry {key k : Int} {value : K} {es : List (Int × K)} :
    k ∈ (setEntry key value es).map (·.1) ↔ k = key ∨ k ∈ es.map (·.1) := by
  induction es with
  | nil => simp [setEntry]
  | cons e es ih =>
    obtain ⟨j, a⟩ := e
    by_cases hj : j = key
    · simp [setEntry, hj]
    · rw [setEntry, if_neg hj, List.map_cons, List.mem_cons, ih, List.map_cons, List.mem_cons]
      tauto

theorem nodup_keys_setEntry {key : Int} {value : K} {es : List (Int × K)}
    (h : (es.map (·.1)).Nodup) : ((setEntry key value es).map (·.1)).Nodup := by
  induction es with
  | nil => exact List.nodup_singleton _
  | cons e es ih =>
    obtain ⟨j, a⟩ := e
    rw [List.map_cons, List.nodup_cons] at h
    rw [setEntry]
    split
    · rename_i hj
      rw [List.map_cons, List.nodup_cons]
      exact h
    · rename_i hj
      rw [List.map_cons, List.nodup_cons, mem_keys_setEntry, not_or]
      exact ⟨⟨hj, h.1⟩, ih h.2⟩

namespace OnVariables

variable {count : Nat} {es : List (Int × K)}

/-- An entry that is set on a variable that exists keeps every variable listed at most once. -/
theorem setEntry (h : OnVariables count es) {j : Nat} (hj : j < count) (value : K) :
    OnVariables count (Program.setEntry (Int.ofNat j) value es) := by
  refine ⟨nodup_keys_setEntry h.1, fun e he => ?_⟩
  rcases mem_keys_setEntry.1 (List.mem_map_of_mem he) with hkey | hkey
  · exact ⟨j, hj, hkey⟩
  · obtain ⟨e', he', hkey⟩ := List.mem_map.1 hkey
    rw [← hkey]
    exact h.2 e' he'

theorem mono {count' : Nat} (h : OnVariables count es) (hle : count ≤ count') :
    OnVariables count' es :=
  ⟨h.1, fun e he => (h.2 e he).imp fun _ hj => ⟨hj.1.trans_le hle, hj.2⟩⟩

end OnVariables

/-- Rows are what commands declare.  Nothing was written to a row before it was created. -/
structure RowsStand (told : List (Command K)) (rows : List (Row K)) : Prop where
  length : rows.length = rowCount told
  on : ∀ r ∈ rows, OnVariables (variableCount told) r.coeffs
  coeffs : ∀ (k : Nat) (r : Row K), rows[k]? = some r → ∀ i : Nat,
    r.coeffs.lookup (Int.ofNat i) = entryOf told (Int.ofNat k) i
  unset : ∀ k i, rowCount told ≤ k → entryOf told (Int.ofNat k) i = none

theorem rowCount_concat (told : List (Command K)) (c : Command K) :
    rowCount (told ++ [c]) = rowCount told + if c.isRow then 1 else 0 := by
  unfold rowCount
  rw [List.countP_append, List.countP_singleton]

namespace RowsStand

variable {rows : List (Row K)}

/-- A command that says nothing of rows leaves them standing. -/
theorem frame (h : RowsStand told rows) (hrow : c.isRow = false)
    (hcoeff : ∀ k i, c.coefficient? k i = none) : RowsStand (told ++ [c]) rows := by
  have he : ∀ k i, entryOf (told ++ [c]) k i = entryOf told k i := by
    intro k i
    simp [entryOf, hcoeff k i]
  have hcount : rowCount (told ++ [c]) = rowCount told := by
    simp [rowCount_concat, hrow]
  constructor
  · rw [hcount, h.length]
  · intro r hr
    exact (h.on r hr).mono (by rw [variableCount_concat]; omega)
  · intro k r hr i
    rw [he]
    exact h.coeffs k r hr i
  · intro k i hle
    rw [he]
    exact h.unset k i (hcount ▸ hle)

/-- A row that is created has no entries. -/
theorem create (h : RowsStand told rows) (name : String) :
    RowsStand (told ++ [.row name]) (rows ++ [⟨name, []⟩]) := by
  have he : ∀ k i, entryOf (told ++ [.row name]) k i = entryOf told k i := by
    intro k i
    simp [entryOf, Command.coefficient?]
  have hcount : rowCount (told ++ [.row name]) = rowCount told + 1 := by
    simp [rowCount_concat, Command.isRow]
  have hvars : variableCount (told ++ [.row name]) = variableCount told := by
    simp [variableCount_concat, Command.isVariable]
  constructor
  · rw [hcount, List.length_append, h.length]
    rfl
  · intro r hr
    rw [hvars]
    rcases List.mem_append.1 hr with hr | hr
    · exact h.on r hr
    · rw [List.mem_singleton.1 hr]
      exact ⟨List.nodup_nil, List.forall_mem_nil _⟩
  · intro k r hr i
    rw [he]
    rcases Nat.lt_or_ge k rows.length with hlt | hge
    · rw [List.getElem?_append_left hlt] at hr
      exact h.coeffs k r hr i
    · rw [List.getElem?_append_right hge] at hr
      rw [List.mem_singleton.1 (List.mem_of_getElem? hr), h.unset k i (h.length ▸ hge)]
      rfl
  · intro k i hle
    rw [he]
    exact h.unset k i (by omega)

/-- A coefficient that is set replaces the one that was set before. -/
theorem write (h : RowsStand told rows) {k j : Nat} (hk : k < rowCount told)
    (hj : j < variableCount told) (a : K) :
    RowsStand (told ++ [.coefficient (Int.ofNat k) (Int.ofNat j) a])
      (rows.modify k fun r => { r with coeffs := setEntry (Int.ofNat j) a r.coeffs }) := by
  have he : ∀ k' i, entryOf (told ++ [.coefficient (Int.ofNat k) (Int.ofNat j) a]) (Int.ofNat k') i =
      if k = k' ∧ j = i then some a else entryOf told (Int.ofNat k') i := by
    intro k' i
    by_cases hboth : k = k' ∧ j = i
    · obtain ⟨rfl, rfl⟩ := hboth
      simp [entryOf, Command.coefficient?]
    · have hboth' : ¬(Int.ofNat k = Int.ofNat k' ∧ Int.ofNat j = Int.ofNat i) :=
        fun ⟨h₁, h₂⟩ => hboth ⟨Int.ofNat.inj h₁, Int.ofNat.inj h₂⟩
      rw [if_neg hboth]
      unfold entryOf
      rw [last_concat, Command.coefficient?, if_neg hboth']
      rfl
  have hcount : rowCount (told ++ [.coefficient (Int.ofNat k) (Int.ofNat j) a]) =
      rowCount told := by
    simp [rowCount_concat, Command.isRow]
  have hvars : variableCount (told ++ [.coefficient (Int.ofNat k) (Int.ofNat j) a]) =
      variableCount told := by
    simp [variableCount_concat, Command.isVariable]
  constructor
  · rw [hcount, List.length_modify, h.length]
  · intro r hr
    rw [hvars]
    obtain ⟨k', hr⟩ := List.getElem?_of_mem hr
    obtain ⟨x, hx, rfl⟩ := of_getElem?_modify hr
    have hon := h.on x (List.mem_of_getElem? hx)
    split
    · exact hon.setEntry hj a
    · exact hon
  · intro k' r hr i
    obtain ⟨x, hx, rfl⟩ := of_getElem?_modify hr
    rw [he, ← h.coeffs k' x hx i]
    by_cases hkk : k = k'
    · rw [if_pos hkk]
      show (setEntry (Int.ofNat j) a x.coeffs).lookup (Int.ofNat i) = _
      rw [lookup_setEntry]
      by_cases hji : j = i
      · rw [if_pos (congrArg Int.ofNat hji.symm), if_pos ⟨hkk, hji⟩]
      · rw [if_neg fun hij => hji (Int.ofNat.inj hij).symm, if_neg fun hboth => hji hboth.2]
    · rw [if_neg hkk, if_neg fun hboth => hkk hboth.1]
  · intro k' i hle
    rw [hcount] at hle
    rw [he, if_neg (by omega)]
    exact h.unset k' i hle

end RowsStand

/-! ### References to rows -/

/-- Bounds and objective are what commands declare, and on rows that exist. -/
structure UsesStand (told : List (Command K)) (bounds : List (RowBound K))
    (objective : Option (Int × Goal)) : Prop where
  bounds_eq : bounds = Declared.bounds told
  objective_eq : objective = Declared.objective told
  bounds_on : ∀ b ∈ bounds, ∃ k < rowCount told, b.row = Int.ofNat k
  objective_on : ∀ i goal, objective = some (i, goal) → ∃ k < rowCount told, i = Int.ofNat k

namespace UsesStand

variable {bounds : List (RowBound K)} {objective : Option (Int × Goal)}

theorem le_rowCount_concat (told : List (Command K)) (c : Command K) :
    rowCount told ≤ rowCount (told ++ [c]) := by
  rw [rowCount_concat]
  omega

/-- A command that uses no row leaves the uses standing. -/
theorem frame (h : UsesStand told bounds objective) (hbound : c.bound? = none)
    (hobjective : c.objective? = none) : UsesStand (told ++ [c]) bounds objective := by
  have hle := le_rowCount_concat told c
  constructor
  · rw [h.bounds_eq]
    simp [Declared.bounds, hbound]
  · rw [h.objective_eq]
    simp [Declared.objective, hobjective]
  · exact fun b hb => (h.bounds_on b hb).imp fun _ hk => ⟨hk.1.trans_le hle, hk.2⟩
  · exact fun i goal ho => (h.objective_on i goal ho).imp fun _ hk => ⟨hk.1.trans_le hle, hk.2⟩

/-- A bound that is issued comes after those before it. -/
theorem bind (h : UsesStand told bounds objective) {k : Nat} (hk : k < rowCount told)
    (sense : Sense) (rhs : K) : UsesStand (told ++ [.bind (Int.ofNat k) sense rhs])
      (bounds ++ [⟨Int.ofNat k, sense, rhs⟩]) objective := by
  have hle := le_rowCount_concat told (.bind (Int.ofNat k) sense rhs)
  constructor
  · rw [h.bounds_eq]
    simp [Declared.bounds, Command.bound?]
  · rw [h.objective_eq]
    simp [Declared.objective, Command.objective?]
  · intro b hb
    rcases List.mem_append.1 hb with hb | hb
    · exact (h.bounds_on b hb).imp fun _ hk => ⟨hk.1.trans_le hle, hk.2⟩
    · rw [List.mem_singleton.1 hb]
      exact ⟨k, hk.trans_le hle, rfl⟩
  · exact fun i goal ho => (h.objective_on i goal ho).imp fun _ hk => ⟨hk.1.trans_le hle, hk.2⟩

/-- An objective that is named replaces the one before. -/
theorem aim (h : UsesStand told bounds objective) {k : Nat} (hk : k < rowCount told)
    (goal : Goal) : UsesStand (told ++ [.objective (Int.ofNat k) goal]) bounds
      (some (Int.ofNat k, goal)) := by
  have hle := le_rowCount_concat told (.objective (Int.ofNat k) goal)
  constructor
  · rw [h.bounds_eq]
    simp [Declared.bounds, Command.bound?]
  · simp [Declared.objective, Command.objective?]
  · exact fun b hb => (h.bounds_on b hb).imp fun _ hk => ⟨hk.1.trans_le hle, hk.2⟩
  · intro i goal' ho
    cases ho
    exact ⟨k, hk.trans_le hle, rfl⟩

end UsesStand

/-! ### Whole programs -/

/-- A program is what commands declare. -/
structure Declares (told : List (Command K)) (p : Program K) : Prop where
  vars : VarsStand told p.vars
  rows : RowsStand told p.rows
  uses : UsesStand told p.bounds p.objective

namespace Declares

variable {p : Program K}

/-- Nothing declares an empty program. -/
theorem nil (name : String) : Declares [] (Program.empty name : Program K) := by
  refine ⟨⟨rfl, ?_, ?_, fun i _ => ⟨rfl, rfl⟩⟩, ⟨rfl, ?_, ?_, fun k i _ => rfl⟩, rfl, rfl, ?_, ?_⟩
  all_goals simp [Program.empty]

/-- A program that commands declare refers only to what it has. -/
theorem closed (h : Declares told p) : p.Closed where
  rows r hr := h.vars.length ▸ h.rows.on r hr
  bounds b hb := h.rows.length ▸ h.uses.bounds_on b hb
  objective i goal ho := h.rows.length ▸ h.uses.objective_on i goal ho

/-- **One command** on ids that were given out is carried out, and what was told with it declares
    the program after it. -/
theorem apply (h : Declares told p) (hc : Proper told c) :
    ∃ q, p.apply c = .ok q ∧ Declares (proceed told c) q := by
  cases c with
  | begin name => exact ⟨_, rfl, .nil name⟩
  | «variable» name =>
    exact ⟨_, rfl, h.vars.create name, h.rows.frame rfl fun _ _ => rfl, h.uses.frame rfl rfl⟩
  | limit v lo hi =>
    obtain ⟨j, hj, rfl⟩ := hc
    have hok : p.apply (.limit (Int.ofNat j) lo hi) = .ok { p with
        vars := p.vars.modify j fun x => { x with lo := some lo, hi := some hi } } := by
      rw [Program.apply, modifyAt_ofNat (h.vars.length ▸ hj)]
      rfl
    exact ⟨_, hok, h.vars.limit hj lo hi, h.rows.frame rfl fun _ _ => rfl, h.uses.frame rfl rfl⟩
  | integral v on =>
    obtain ⟨j, hj, rfl⟩ := hc
    have hok : p.apply (.integral (Int.ofNat j) on) = .ok { p with
        vars := p.vars.modify j fun x => { x with integral := on } } := by
      rw [Program.apply, modifyAt_ofNat (h.vars.length ▸ hj)]
      rfl
    exact ⟨_, hok, h.vars.mark hj on, h.rows.frame rfl fun _ _ => rfl, h.uses.frame rfl rfl⟩
  | row name =>
    exact ⟨_, rfl, h.vars.frame rfl (fun _ => rfl) fun _ => rfl, h.rows.create name,
      h.uses.frame rfl rfl⟩
  | coefficient row v a =>
    obtain ⟨⟨k, hk, rfl⟩, j, hj, rfl⟩ := hc
    have hok : p.apply (.coefficient (Int.ofNat k) (Int.ofNat j) a) = .ok { p with
        rows := p.rows.modify k fun r =>
          { r with coeffs := setEntry (Int.ofNat j) a r.coeffs } } := by
      rw [Program.apply, modifyAt_ofNat (h.rows.length ▸ hk)]
      rfl
    exact ⟨_, hok, h.vars.frame rfl (fun _ => rfl) fun _ => rfl, h.rows.write hk hj a,
      h.uses.frame rfl rfl⟩
  | bind row sense rhs =>
    obtain ⟨k, hk, rfl⟩ := hc
    exact ⟨_, rfl, h.vars.frame rfl (fun _ => rfl) fun _ => rfl, h.rows.frame rfl fun _ _ => rfl,
      h.uses.bind hk sense rhs⟩
  | objective row goal =>
    obtain ⟨k, hk, rfl⟩ := hc
    exact ⟨_, rfl, h.vars.frame rfl (fun _ => rfl) fun _ => rfl, h.rows.frame rfl fun _ _ => rfl,
      h.uses.aim hk goal⟩

end Declares

end

/-! ## Points -/

/-- A row is worth what its places are: an entry where one is found, and zero elsewhere. -/
theorem OnVariables.rowValue_eq {count : Nat} {es : List (Int × Rat)} (h : OnVariables count es)
    (x : List Rat) : Program.rowValue ⟨"", es⟩ x =
      ∑ i ∈ Finset.range count, (es.lookup (Int.ofNat i)).getD 0 * (x[i]?).getD 0 := by
  induction es with
  | nil => simp [Program.rowValue, Scalar.sum_rat]
  | cons e es ih =>
    obtain ⟨v, a⟩ := e
    obtain ⟨hnodup, hall⟩ := h
    rw [List.map_cons, List.nodup_cons] at hnodup
    obtain ⟨⟨j, hj, rfl⟩, hon⟩ := List.forall_mem_cons.1 hall
    have hnone : es.lookup (Int.ofNat j) = none := by
      rw [List.lookup_eq_none_iff]
      intro e he
      have hne : Int.ofNat j ≠ e.1 := fun hje => hnodup.1 (List.mem_map.2 ⟨e, he, hje.symm⟩)
      simpa using hne
    have hterm : ∀ i ∈ Finset.range count,
        (((Int.ofNat j, a) :: es).lookup (Int.ofNat i)).getD 0 * (x[i]?).getD 0 =
          (if j = i then a * (x[j]?).getD 0 else 0) +
            (es.lookup (Int.ofNat i)).getD 0 * (x[i]?).getD 0 := by
      intro i _
      rw [lookup_cons_if]
      by_cases hij : j = i
      · subst hij
        rw [if_pos rfl, if_pos rfl, hnone]
        simp
      · have hne : ¬ Int.ofNat i = Int.ofNat j := fun h => hij (Int.ofNat.inj h).symm
        rw [if_neg hne, if_neg hij, zero_add]
    rw [rowValue_cons, pick_ofNat_getD, ih ⟨hnodup.2, hon⟩, Finset.sum_congr rfl hterm,
      Finset.sum_add_distrib, Finset.sum_ite_eq, if_pos (Finset.mem_range.2 hj)]

namespace Declares

variable {told : List (Command Rat)} {p : Program Rat}

/-- A row of a program that commands declare is worth what they declare. -/
theorem rowValue_eq (h : Declares told p) {k : Nat} (hk : k < rowCount told) (x : List Rat) :
    Program.rowValue (p.rowAt (Int.ofNat k)) x = Declared.rowValue told (Int.ofNat k) x := by
  have hlt : k < p.rows.length := h.rows.length ▸ hk
  have hrow := List.getElem?_eq_getElem hlt
  rw [(row_ofNat hlt).2]
  refine ((h.rows.on _ (List.getElem_mem hlt)).rowValue_eq x).trans ?_
  unfold Declared.rowValue coefficient
  exact Finset.sum_congr rfl fun i _ => by rw [h.rows.coeffs k _ hrow i]

/-- **What is feasible is what was asked for.** -/
theorem feasible_iff (h : Declares told p) (x : List Rat) : p.feasible x ↔ Admits told x := by
  have hrow : ∀ b ∈ p.bounds, Program.rowValue (p.rowAt b.row) x =
      Declared.rowValue told b.row x := by
    intro b hb
    obtain ⟨k, hk, hbk⟩ := h.uses.bounds_on b hb
    rw [hbk]
    exact h.rowValue_eq hk x
  have hvar : ∀ (i : Nat) (a : Rat), x.length = p.vars.length → x[i]? = some a →
      ∃ v, p.vars[i]? = some v := by
    intro i a hlen ha
    have hlt : i < p.vars.length := hlen ▸ (List.getElem?_eq_some_iff.1 ha).1
    exact ⟨_, List.getElem?_eq_getElem hlt⟩
  constructor
  · rintro ⟨hlen, hwithin, hbounds⟩
    refine ⟨hlen.trans h.vars.length, fun i lo hi a hlimits ha => ?_, fun i a hint ha => ?_,
      fun b hb => ?_⟩
    · obtain ⟨v, hv⟩ := hvar i a hlen ha
      obtain ⟨hlo, hhi⟩ := h.vars.limits i v hv
      rw [hlimits] at hlo hhi
      obtain ⟨hle, hge, -⟩ := hwithin i v a hv ha
      exact ⟨hle lo hlo, hge hi hhi⟩
    · obtain ⟨v, hv⟩ := hvar i a hlen ha
      exact (hwithin i v a hv ha).2.2 ((h.vars.integral i v hv).trans hint)
    · have hb := h.uses.bounds_eq ▸ hb
      rw [← hrow b hb]
      exact hbounds b hb
  · intro hx
    refine ⟨hx.length.trans h.vars.length.symm, fun i v a hv ha => ?_, fun b hb => ?_⟩
    · obtain ⟨hlo, hhi⟩ := h.vars.limits i v hv
      refine ⟨fun lo hmem => ?_, fun hi hmem => ?_, fun hint => ?_⟩
      · rw [hlo] at hmem
        obtain ⟨⟨lo', hi'⟩, hlimits, rfl⟩ := Option.map_eq_some_iff.1 hmem
        exact (hx.limits i lo' hi' a hlimits ha).1
      · rw [hhi] at hmem
        obtain ⟨⟨lo', hi'⟩, hlimits, rfl⟩ := Option.map_eq_some_iff.1 hmem
        exact (hx.limits i lo' hi' a hlimits ha).2
      · exact hx.integral i a ((h.vars.integral i v hv).symm.trans hint) ha
    · rw [hrow b hb]
      exact hx.bounds b (h.uses.bounds_eq ▸ hb)

/-- What is optimal is what is best. -/
theorem optimal_iff (h : Declares told p) (x : List Rat) : p.Optimal x ↔ Best told x := by
  unfold Optimal Best
  rw [h.feasible_iff x, h.uses.objective_eq]
  refine and_congr_right fun _ => forall₂_congr fun row goal => forall_congr' fun hobj => ?_
  obtain ⟨k, hk, rfl⟩ := h.uses.objective_on row goal (h.uses.objective_eq.trans hobj)
  refine forall_congr' fun y => ?_
  rw [h.feasible_iff y, h.rowValue_eq hk x, h.rowValue_eq hk y]

end Declares

end Program

/-! ## Calls -/

/-- What a solver is called with: a command, or to solve within a limit. -/
inductive Call (K : Type) where
  | tell (c : Command K)
  | solve (limit : Option K)

namespace Declared

variable {K : Type}

/-- The commands that count after one more call. -/
def hear (told : List (Command K)) : Call K → List (Command K)
  | .tell c => proceed told c
  | .solve _ => told

/-- Every id in the commands of the calls was given out since the program was last begun. -/
def ProperCalls (told : List (Command K)) : List (Call K) → Prop
  | [] => True
  | .tell c :: rest => Proper told c ∧ ProperCalls (proceed told c) rest
  | .solve _ :: rest => ProperCalls told rest

instance decidableProper (told : List (Command K)) : (c : Command K) → Decidable (Proper told c)
  | .begin _ => isTrue trivial
  | .variable _ => isTrue trivial
  | .limit v _ _ => inferInstanceAs (Decidable (∃ i < variableCount told, v = Int.ofNat i))
  | .integral v _ => inferInstanceAs (Decidable (∃ i < variableCount told, v = Int.ofNat i))
  | .row _ => isTrue trivial
  | .coefficient row v _ => inferInstanceAs (Decidable ((∃ k < rowCount told, row = Int.ofNat k) ∧
      ∃ i < variableCount told, v = Int.ofNat i))
  | .bind row _ _ => inferInstanceAs (Decidable (∃ k < rowCount told, row = Int.ofNat k))
  | .objective row _ => inferInstanceAs (Decidable (∃ k < rowCount told, row = Int.ofNat k))

instance decidableProperCalls :
    (told : List (Command K)) → (calls : List (Call K)) → Decidable (ProperCalls told calls)
  | _, [] => isTrue trivial
  | told, .tell c :: rest =>
    have := decidableProperCalls (proceed told c) rest
    inferInstanceAs (Decidable (Proper told c ∧ ProperCalls (proceed told c) rest))
  | told, .solve _ :: rest => decidableProperCalls told rest

end Declared

namespace Session

open Declared Program

variable {E : Type} [Engine E Rat] {n : Nat}

/-- The session after a call, whatever came of it. -/
def called (s : Session E Rat n) : Call Rat → Session E Rat n
  | .tell c => Step.left (Session.tell c s)
  | .solve limit => Step.left (Session.solve limit s)

/-- **Runs.**  If what was told declares the program, it does so after any calls, solves among
    them. -/
theorem declares_called (ha : Engine.Accepts E) {told : List (Command Rat)} {s : Session E Rat n}
    (hs : Declares told s.program) {calls : List (Call Rat)} (hcalls : ProperCalls told calls) :
    Declares (calls.foldl hear told) (calls.foldl called s).program := by
  induction calls generalizing told s with
  | nil => exact hs
  | cons call calls ih =>
    cases call with
    | tell c =>
      obtain ⟨q, hq, hdeclares⟩ := hs.apply hcalls.1
      have htell := tell_ok_iff.2 ⟨_, q, Prod.ext (ha s.engine c) rfl, hq, rfl⟩
      have hnext : Declares (proceed told c) (Step.left (Session.tell c s)).program := by
        rw [htell]
        exact hdeclares
      exact ih hnext hcalls.2
    | solve limit =>
      have hnext : Declares told (Step.left (Session.solve limit s)).program := by
        unfold Session.solve
        rcases Engine.solve s.engine s.program limit with ⟨answer, engine⟩
        cases answer <;> exact hs
      exact ih hnext hcalls

/-- **What a solver is handed is what was declared.**  Let a solver be called in any way, with ids
    that it gave out, solving as often as one likes.  Then the program as it is can be handed over.
    A point is admitted by what is handed over exactly if it is within the limits set last for every
    variable, integral where a variable was last said to be, and meets every bound issued since the
    program was begun, with the coefficients its row has now; and the points of least cost are those
    that are best for the objective named last. -/
theorem handed_over_as_declared (ha : Engine.Accepts E) (engine : E) (dim : Nat)
    (pool : List (Constraint Rat n)) {calls : List (Call Rat)} (hcalls : ProperCalls [] calls) :
    ∃ w, (calls.foldl called (Session.fresh engine dim pool)).program.handOver = .ok w ∧
      ∀ x, (w.Admits x ↔ Admits (calls.foldl hear []) x) ∧
        (w.Minimises x ↔ Best (calls.foldl hear []) x) := by
  have hempty : Declares [] (Session.fresh engine dim pool).program := .nil ""
  have hdeclares := declares_called ha hempty hcalls
  obtain ⟨w, hok, hadmits, hminimises⟩ := hdeclares.closed.handOver_ok
  exact ⟨w, hok, fun x => ⟨(hadmits x).trans (hdeclares.feasible_iff x),
    (hminimises x).trans (hdeclares.optimal_iff x)⟩⟩

/-! ### Calls to look at -/

namespace Pair

/-- Two variables, and the row `x + y`, bound from above; the coefficient of `x` is changed to three
    after a solve, and the row bound once more, from below.  Then `y` is to be as large as
    possible. -/
def calls : List (Call Rat) :=
  [.tell (.begin "pair"), .tell (.variable "x"), .tell (.variable "y"), .tell (.limit 0 0 10),
    .tell (.integral 1 true), .tell (.row "sum"), .tell (.coefficient 0 0 1),
    .tell (.coefficient 0 1 1), .tell (.bind 0 .le 7), .solve none, .tell (.coefficient 0 0 3),
    .tell (.bind 0 .ge 2), .tell (.row "aim"), .tell (.coefficient 1 1 1),
    .tell (.objective 1 ⟨"max"⟩)]

end Pair

/-- A solver is handed both bounds with the changed coefficient, the lower one with all signs
    changed, and the negated costs of a maximum. -/
theorem handed_over_as_declared_pair :
    ∃ w, (Pair.calls.foldl called
        (Session.fresh (Script.of []) 0 ([] : List (Constraint Rat 0)))).program.handOver = .ok w ∧
      (∀ x, w.Minimises x ↔ Best (Pair.calls.foldl hear []) x) ∧ w.cost = [0, -1] ∧
      w.upper.map (fun r => (r.entries, r.rhs)) =
        [([(0, 3), (1, 1)], 7), ([(0, -3), (1, -1)], -2)] := by
  have hproper : ProperCalls [] Pair.calls := by decide
  obtain ⟨w, hok, hmeans⟩ := handed_over_as_declared (fun _ _ => rfl) (Script.of []) 0
    ([] : List (Constraint Rat 0)) hproper
  have hcost : (Pair.calls.foldl called (Session.fresh (Script.of []) 0
      ([] : List (Constraint Rat 0)))).program.handOver.map (fun w => (w.cost, w.upper.map
        fun r => (r.entries, r.rhs))) =
      .ok ([0, -1], [([(0, 3), (1, 1)], 7), ([(0, -3), (1, -1)], -2)]) := by decide +kernel
  rw [hok] at hcost
  have hparts := Except.ok.inj hcost
  exact ⟨w, hok, fun x => (hmeans x).2, congrArg Prod.fst hparts, congrArg Prod.snd hparts⟩

end Session

end Perturb
