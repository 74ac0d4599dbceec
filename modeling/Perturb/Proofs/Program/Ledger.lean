/-
  What a session knows of the constraints it has exported.

  A session keeps four records of an export: the bound row of the program, the count of rows, the
  flag of the constraint, and, further up, the set the constraint is in.  The LEDGER is the list of
  exported constraints in the order of their rows, and `Ledger g log s` says that the first three
  records of a session all tell of that list: the bounds bear its constraints one by one, the count
  is its length, and exactly its members are flagged.  No constraint is in it twice, so none has two
  rows.

  1. **Telling** — telling an engine a list of commands either fails or does to the program what the
     commands do to it, whatever the engine is (`tellAll_ok`).

  2. **The crux (`Ledger.exportOne`)** — a row that is created and filled disturbs no row that is
     bound already, because bounds refer to rows by number and numbers are never reused.  So one
     export extends the ledger by one entry.

  3. **Several** — constraints that are exported one after the other extend the ledger by their list
     (`Ledger.exports`).  A whole list extends it by what is pending of it (`Ledger.exportAll_ok`),
     where `pending log is` are those of its members that are not in the ledger, each once, in the
     order of the list.

  The numbers are any scalars: nothing here computes with them.
-/
import Mathlib.Data.List.Forall2
import Perturb.Proofs.Program.Commands

namespace Perturb

/-! ## Rows that bear constraints -/

/-- A bound bears a constraint: it is on a row that lists the coefficients of the term, and it
    compares that row with the negated intercept as the relation asks. -/
structure Program.Bears {K : Type} [Scalar K] {n : Nat} (p : Program K) (c : Constraint K n)
    (b : RowBound K) : Prop where
  row : ∃ k r, b.row = Int.ofNat k ∧ p.rows[k]? = some r ∧ r.coeffs = c.term.rowEntries
  sense : Session.sense? c.relation = some b.sense
  rhs : b.rhs = -c.term.intercept

namespace Program.Bears

variable {K : Type} [Scalar K] {n : Nat} {p p' : Program K} {c : Constraint K n} {b : RowBound K}

/-- A program with more rows bears what it bore. -/
theorem mono (h : p.Bears c b) (hrows : p.rows <+: p'.rows) : p'.Bears c b := by
  obtain ⟨more, hmore⟩ := hrows
  obtain ⟨k, r, hb, hr, hcoeffs⟩ := h.row
  refine ⟨⟨k, r, hb, ?_, hcoeffs⟩, h.sense, h.rhs⟩
  rw [← hmore, List.getElem?_append_left (List.getElem?_eq_some_iff.1 hr).1, hr]

/-- A bound that bears something is on a row of the program. -/
theorem row_lt (h : p.Bears c b) : ∃ k < p.rows.length, b.row = Int.ofNat k := by
  obtain ⟨k, r, hb, hr, -⟩ := h.row
  exact ⟨k, (List.getElem?_eq_some_iff.1 hr).1, hb⟩

end Program.Bears

namespace Session

/-! ## The ledger -/

/-- What stays fixed in a session: the number of pixels, the variables, and the constraints as they
    were at the start. -/
structure Ground (K : Type) (n : Nat) where
  dim : Nat
  vars : List (Variable K)
  pool : List (Constraint K n)

section

variable {E K : Type} [Scalar K] {n : Nat}

/-- The constraint with a number. -/
def Ground.constraint (g : Ground K n) (i : Nat) : Constraint K n := (g.pool[i]?).getD default

theorem Ground.constraint_of_getElem? {g : Ground K n} {i : Nat} {c : Constraint K n}
    (h : g.pool[i]? = some c) : g.constraint i = c := by
  unfold Ground.constraint
  rw [h]
  rfl

/-- A number that occurs is the number of something in the pool. -/
theorem Ground.constraint_mem {g : Ground K n} {i : Nat} (hi : i < g.pool.length) :
    g.constraint i ∈ g.pool := by
  rw [Ground.constraint_of_getElem? (List.getElem?_eq_getElem hi)]
  exact List.getElem_mem hi

/-- The bounds of a session bear the constraints in `log`, in this order and on rows of their own;
    each of these constraints is flagged and counted once, and no other is flagged. -/
structure Ledger (g : Ground K n) (log : List Nat) (s : Session E K n) : Prop where
  dim_eq : s.inputDim = g.dim
  vars_eq : s.program.vars = g.vars
  bears : List.Forall₂ (fun i b => s.program.Bears (g.constraint i) b) log s.program.bounds
  rows_nodup : (s.program.bounds.map (·.row)).Nodup
  pool_eq : ∀ i : Nat, s.pool[i]? = (g.pool[i]?).map fun c => { c with added := decide (i ∈ log) }
  log_lt : ∀ i ∈ log, i < g.pool.length
  nodup : log.Nodup
  count : s.rowsAdded = log.length

namespace Ledger

variable {g : Ground K n} {log : List Nat} {s t : Session E K n}

/-- There are as many bounds as entries. -/
theorem length_bounds (h : Ledger g log s) : s.program.bounds.length = log.length :=
  h.bears.length_eq.symm

/-- Every bound bears a constraint of the ledger. -/
theorem exists_entry (h : Ledger g log s) {b : RowBound K} (hb : b ∈ s.program.bounds) :
    ∃ i ∈ log, s.program.Bears (g.constraint i) b := by
  obtain ⟨k, hk, rfl⟩ := List.getElem_of_mem hb
  have hk' : k < log.length := h.length_bounds ▸ hk
  exact ⟨log[k], List.getElem_mem hk', h.bears.get hk' hk⟩

/-- Every constraint of the ledger is borne by a bound. -/
theorem exists_bound (h : Ledger g log s) {i : Nat} (hi : i ∈ log) :
    ∃ b ∈ s.program.bounds, s.program.Bears (g.constraint i) b := by
  obtain ⟨k, hk, rfl⟩ := List.getElem_of_mem hi
  have hk' : k < s.program.bounds.length := h.length_bounds ▸ hk
  exact ⟨s.program.bounds[k], List.getElem_mem hk', h.bears.get hk hk'⟩

/-- Flags aside, a constraint of the pool is what it was at the start. -/
theorem constraint_eq (h : Ledger g log s) (i : Nat) :
    ((s.pool[i]?).getD default).term = (g.constraint i).term ∧
      ((s.pool[i]?).getD default).relation = (g.constraint i).relation := by
  unfold Ground.constraint
  rw [h.pool_eq i]
  cases g.pool[i]? with
  | none => exact ⟨rfl, rfl⟩
  | some c => exact ⟨rfl, rfl⟩

/-- What is flagged is what is in the ledger. -/
theorem isAdded_iff (h : Ledger g log s) (i : Nat) : s.isAdded i = true ↔ i ∈ log := by
  unfold isAdded
  rw [h.pool_eq i]
  constructor
  · intro hadded
    cases hi : g.pool[i]? with
    | none => simp [hi] at hadded
    | some c => simpa [hi] using hadded
  · intro hi
    simp [List.getElem?_eq_getElem (h.log_lt i hi), hi]

/-- What is not in the ledger is not flagged. -/
theorem isAdded_of_notMem (h : Ledger g log s) {i : Nat} (hi : i ∉ log) : s.isAdded i = false := by
  rw [Bool.eq_false_iff]
  exact fun hadded => hi ((h.isAdded_iff i).1 hadded)

theorem sense_of_fresh (h : Ledger g log s) (hf : ∀ c ∈ g.pool, c.Fresh) {i : Nat}
    (hi : i < g.pool.length) :
    ∃ sense, sense? ((s.pool[i]?).getD default).relation = some sense := by
  rw [(h.constraint_eq i).2]
  exact (hf _ (Ground.constraint_mem hi)).sense

/-- Whatever happens to the engine and to rows that are not bound leaves the ledger as it is. -/
theorem congr (h : Ledger g log s) (hdim : t.inputDim = s.inputDim)
    (hvars : t.program.vars = s.program.vars) (hrows : s.program.rows <+: t.program.rows)
    (hbounds : t.program.bounds = s.program.bounds) (hcount : t.rowsAdded = s.rowsAdded)
    (hpool : t.pool = s.pool) : Ledger g log t where
  dim_eq := hdim.trans h.dim_eq
  vars_eq := hvars.trans h.vars_eq
  bears := hbounds ▸ h.bears.imp fun _ _ hb => hb.mono hrows
  rows_nodup := hbounds ▸ h.rows_nodup
  pool_eq := hpool ▸ h.pool_eq
  log_lt := h.log_lt
  nodup := h.nodup
  count := hcount.trans h.count

/-- A session whose program has no bounds yet, of constraints that are not flagged. -/
theorem empty (hbounds : s.program.bounds = []) (hcount : s.rowsAdded = 0)
    (hpool : ∀ c ∈ s.pool, c.added = false) : Ledger ⟨s.inputDim, s.program.vars, s.pool⟩ [] s := by
  have hpool' : ∀ i : Nat,
      s.pool[i]? = (s.pool[i]?).map fun c => { c with added := decide (i ∈ []) } := by
    intro i
    cases hi : s.pool[i]? with
    | none => rfl
    | some c =>
      have hc := hpool c (List.mem_of_getElem? hi)
      simp [← hc]
  constructor
  case bears =>
    rw [hbounds]
    exact .nil
  case rows_nodup =>
    rw [hbounds]
    exact List.nodup_nil
  case pool_eq => exact hpool'
  case log_lt =>
    intro i hi
    cases hi
  case nodup => exact List.nodup_nil
  case count => exact hcount
  all_goals rfl

end Ledger

/-- A session that is being begun: `count` variables have been created, nothing is bound, and apart
    from engine and program all is as before. -/
structure Begun (s₀ : Session E K n) (count : Nat) (s : Session E K n) : Prop where
  dim_eq : s.inputDim = s₀.inputDim
  count_eq : s.rowsAdded = s₀.rowsAdded
  pool_eq : s.pool = s₀.pool
  bounds_eq : s.program.bounds = []
  length_vars : s.program.vars.length = count

/-- A session that was begun has an empty ledger. -/
theorem Begun.ledger {s₀ s : Session E K n} {count : Nat} (h : Begun s₀ count s)
    (hcount : s₀.rowsAdded = 0) (hpool : ∀ c ∈ s₀.pool, c.added = false) :
    Ledger ⟨s₀.inputDim, s.program.vars, s₀.pool⟩ [] s := by
  rw [← h.dim_eq, ← h.pool_eq]
  exact .empty h.bounds_eq (h.count_eq.trans hcount) (h.pool_eq ▸ hpool)

end

/-! ## Telling -/

section

variable {E K : Type} [Engine E K] {n : Nat}

/-- A command that was told was taken by the engine and by the program. -/
theorem tell_ok_iff {c : Command K} {s s' : Session E K n} :
    tell c s = .ok () s' ↔ ∃ engine program, Engine.receive s.engine c = (.ok (), engine) ∧
      s.program.apply c = .ok program ∧ s' = { s with engine, program } := by
  unfold tell
  rcases hr : Engine.receive s.engine c with ⟨answer, engine⟩
  cases answer with
  | error e =>
    constructor
    · intro h
      cases h
    · rintro ⟨engine', program, h, -⟩
      cases h
  | ok u =>
    cases hp : s.program.apply c with
    | error e =>
      constructor
      · intro h
        cases h
      · rintro ⟨engine', program, -, h, -⟩
        cases h
    | ok program =>
      constructor
      · intro h
        cases h
        exact ⟨engine, program, rfl, rfl, rfl⟩
      · rintro ⟨engine', program', h, h', rfl⟩
        cases h
        cases h'
        rfl

/-- Commands told one after the other do to the program what they do. -/
theorem tellAll_ok {cs : List (Command K)} {s s' : Session E K n}
    (h : cs.forM tell s = .ok ⟨⟩ s') :
    ∃ engine program, s.program.applyAll cs = .ok program ∧ s' = { s with engine, program } := by
  induction cs generalizing s with
  | nil =>
    obtain ⟨-, rfl⟩ := Step.pure_ok_iff.1 h
    exact ⟨s.engine, s.program, rfl, rfl⟩
  | cons c cs ih =>
    obtain ⟨⟨⟩, t, hc, hrest⟩ := Step.bind_ok_iff.1 h
    obtain ⟨engine, program, -, happly, rfl⟩ := tell_ok_iff.1 hc
    obtain ⟨engine', program', hall, rfl⟩ := ih hrest
    refine ⟨engine', program', ?_, rfl⟩
    rw [Program.applyAll_cons, happly]
    exact hall

/-- An engine that refuses nothing takes every list of commands that the program takes. -/
theorem tellAll_of_accepts (ha : ∀ (e : E) (c : Command K), (Engine.receive e c).1 = .ok ())
    {cs : List (Command K)} {s : Session E K n} {program : Program K}
    (h : s.program.applyAll cs = .ok program) :
    ∃ engine, cs.forM tell s = .ok ⟨⟩ { s with engine, program } := by
  induction cs generalizing s with
  | nil =>
    cases h
    exact ⟨s.engine, rfl⟩
  | cons c cs ih =>
    rw [Program.applyAll_cons] at h
    obtain ⟨q, hq, hrest⟩ := Outcome.bind_ok_iff.1 h
    have htell : tell c s =
        .ok () { s with engine := (Engine.receive s.engine c).2, program := q } :=
      tell_ok_iff.2 ⟨_, q, Prod.ext (ha s.engine c) rfl, hq, rfl⟩
    obtain ⟨engine, hall⟩ := ih (s := { s with
      engine := (Engine.receive s.engine c).2, program := q }) hrest
    refine ⟨engine, ?_⟩
    show (tell c >>= fun _ => cs.forM tell) s = _
    rw [Step.bind_ok htell]
    exact hall

/-- What an engine keeps whatever it is told, it keeps when it is told a command. -/
theorem tell_keeps {I : E → Prop} (hI : ∀ (e : E) (c : Command K), I e → I (Engine.receive e c).2)
    {c : Command K} {s s' : Session E K n} (h : tell c s = .ok () s') (hs : I s.engine) :
    I s'.engine := by
  obtain ⟨engine, program, hreceive, -, rfl⟩ := tell_ok_iff.1 h
  have hkept := hI s.engine c hs
  rw [hreceive] at hkept
  exact hkept

/-- A command that was told changes engine and program only. -/
theorem Begun.tell {s₀ s t : Session E K n} {count count' : Nat} (h : Begun s₀ count s)
    {c : Command K} (htell : Session.tell c s = .ok () t)
    (happly : ∀ p : Program K, s.program.apply c = .ok p →
      p.bounds = [] ∧ p.vars.length = count') : Begun s₀ count' t := by
  obtain ⟨engine, p, -, hp, rfl⟩ := tell_ok_iff.1 htell
  obtain ⟨hbounds, hvars⟩ := happly p hp
  exact ⟨h.dim_eq, h.count_eq, h.pool_eq, hbounds, hvars⟩

/-- Changing a variable keeps all others and everything else. -/
theorem Begun.tell_change {s₀ s t : Session E K n} {count : Nat} (h : Begun s₀ count s)
    {c : Command K} {v : Int} {f : Variable K → Variable K}
    (hc : s.program.apply c = Program.modifyAt s.program.vars v f >>= fun vars =>
      .ok { s.program with vars }) (htell : Session.tell c s = .ok () t) : Begun s₀ count t := by
  refine h.tell htell fun p hp => ?_
  rw [hc] at hp
  obtain ⟨vars, hvars, hp⟩ := Outcome.bind_ok_iff.1 hp
  cases hp
  unfold Program.modifyAt at hvars
  cases hk : position? s.program.vars.length v with
  | none =>
    rw [hk] at hvars
    cases hvars
  | some k =>
    rw [hk] at hvars
    cases hvars
    exact ⟨h.bounds_eq, by rw [List.length_modify, h.length_vars]⟩

end

variable {E K : Type} [Scalar K] [Engine E K] {n : Nat}

/-- **Beginning** leaves a program with a variable for every number below `n` and without bounds. -/
theorem begun_of_begin {origin : List K} {bound min max : K} {integrality : Bool}
    {s s' : Session E K n} (h : Session.begin origin bound min max integrality s = .ok () s') :
    Begun s n s' := by
  unfold Session.begin at h
  obtain ⟨⟨⟩, s₁, hbegin, h⟩ := Step.bind_ok_iff.1 h
  obtain ⟨⟨⟩, s₂, hvars, hlimits⟩ := Step.bind_ok_iff.1 h
  have h₁ : Begun s 0 s₁ := by
    obtain ⟨engine, p, -, hp, rfl⟩ := tell_ok_iff.1 hbegin
    cases hp
    exact ⟨rfl, rfl, rfl, rfl, rfl⟩
  have h₂ : Begun s (List.range n).length s₂ := by
    refine Step.forM_inv (I := fun done t => Begun s done.length t) h₁ ?_ hvars
    intro done i t t' _ ht htell
    refine ht.tell htell fun p hp => ?_
    cases hp
    exact ⟨ht.bounds_eq, by rw [List.length_append, List.length_append, ht.length_vars]; rfl⟩
  rw [List.length_range] at h₂
  refine Step.forM_inv (I := fun _ t => Begun s n t) h₂ ?_ hlimits
  intro done i t t' _ ht hdeclare
  unfold declare at hdeclare
  obtain ⟨⟨⟩, t₁, hlimit, hdeclare⟩ := Step.bind_ok_iff.1 hdeclare
  have ht₁ : Begun s n t₁ := ht.tell_change rfl hlimit
  split at hdeclare
  · exact ht₁.tell_change rfl hdeclare
  · exact (Step.pure_ok_iff.1 hdeclare).2 ▸ ht₁

/-! ### Rows -/

/-- Filling a row is telling a list of commands. -/
theorem fillRow_eq (name : String) (t : Affine K n) (s : Session E K n) :
    fillRow name t s = ((s.program.rowCommands name t.rowEntries).forM tell >>= fun _ =>
      pure (Int.ofNat s.program.rows.length)) s := by
  unfold Program.rowCommands Affine.rowEntries
  rw [List.forM_eq_forM, List.forM_cons, List.forM_map, List.forM_map, bind_assoc]
  rfl

/-- A row that was filled has been added with the coefficients of the term. -/
theorem fillRow_ok {name : String} {t : Affine K n} {s s' : Session E K n} {id : Int}
    (h : fillRow name t s = .ok id s') :
    id = Int.ofNat s.program.rows.length ∧
      ∃ engine, s' = { s with engine, program := s.program.withRow name t.rowEntries } := by
  rw [fillRow_eq] at h
  obtain ⟨⟨⟩, s₁, htell, hpure⟩ := Step.bind_ok_iff.1 h
  obtain ⟨rfl, rfl⟩ := Step.pure_ok_iff.1 hpure
  obtain ⟨engine, program, hall, rfl⟩ := tellAll_ok htell
  rw [Program.applyAll_rowCommands] at hall
  cases hall
  exact ⟨rfl, engine, rfl⟩

/-- What an engine keeps whatever it is told, it keeps when a row is filled. -/
theorem fillRow_keeps {I : E → Prop}
    (hI : ∀ (e : E) (c : Command K), I e → I (Engine.receive e c).2) {name : String}
    {t : Affine K n} {s s' : Session E K n} {id : Int} (h : fillRow name t s = .ok id s')
    (hs : I s.engine) : I s'.engine := by
  rw [fillRow_eq] at h
  obtain ⟨⟨⟩, s₁, htell, hpure⟩ := Step.bind_ok_iff.1 h
  obtain ⟨-, rfl⟩ := Step.pure_ok_iff.1 hpure
  exact Step.forM_inv (I := fun _ u => I u.engine) hs
    (fun _ _ _ _ _ hu htell => tell_keeps hI htell hu) htell

theorem fillRow_of_accepts (ha : ∀ (e : E) (c : Command K), (Engine.receive e c).1 = .ok ())
    (name : String) (t : Affine K n) (s : Session E K n) :
    ∃ id s', fillRow name t s = .ok id s' := by
  rw [fillRow_eq]
  obtain ⟨engine, h⟩ := tellAll_of_accepts ha (Program.applyAll_rowCommands s.program name t)
  exact ⟨_, _, Step.bind_ok h⟩

/-! ## Exporting one constraint -/

/-- The session after a constraint was exported. -/
def exported (s : Session E K n) (i : Nat) (engine : E) (c : Constraint K n) (sense : Sense) :
    Session E K n where
  program :=
    let p := s.program.withRow ("c" ++ Number.digitsOf s.rowsAdded) c.term.rowEntries
    { p with bounds :=
        p.bounds ++ [⟨Int.ofNat s.program.rows.length, sense, -c.term.intercept⟩] }
  engine := engine
  inputDim := s.inputDim
  rowsAdded := s.rowsAdded + 1
  pool := s.pool.modify i fun c => { c with added := true }

/-- An export that succeeded filled a row, bounded it, and flagged the constraint. -/
theorem exportOne_parts {i : Nat} {id : Int} {s s' : Session E K n}
    (h : Session.exportOne i s = .ok id s') :
    ∃ sense s₂ s₃, sense? ((s.pool[i]?).getD default).relation = some sense ∧
      fillRow ("c" ++ Number.digitsOf s.rowsAdded) ((s.pool[i]?).getD default).term s = .ok id s₂ ∧
      tell (.bind id sense (-((s.pool[i]?).getD default).term.intercept)) s₂ = .ok () s₃ ∧
      s' = { s₃ with
        rowsAdded := s₃.rowsAdded + 1
        pool := s₃.pool.modify i fun c => { c with added := true } } := by
  unfold Session.exportOne at h
  rw [Step.get_bind] at h
  obtain ⟨row, s₂, hfill, hbound⟩ := Step.bind_ok_iff.1 h
  cases hsense : sense? ((s.pool[i]?).getD default).relation with
  | none =>
    simp only [hsense] at hbound
    cases hbound
  | some sense =>
    simp only [hsense] at hbound
    obtain ⟨⟨⟩, s₃, htell, hflag⟩ := Step.bind_ok_iff.1 hbound
    obtain ⟨⟨⟩, s₄, hmodify, hpure⟩ := Step.bind_ok_iff.1 hflag
    cases hmodify
    obtain ⟨rfl, rfl⟩ := Step.pure_ok_iff.1 hpure
    exact ⟨sense, s₂, s₃, rfl, hfill, htell, rfl⟩

/-- What an export that succeeded did. -/
theorem exportOne_ok {i : Nat} {id : Int} {s s' : Session E K n}
    (h : Session.exportOne i s = .ok id s') :
    ∃ engine sense, sense? ((s.pool[i]?).getD default).relation = some sense ∧
      s' = s.exported i engine ((s.pool[i]?).getD default) sense := by
  obtain ⟨sense, s₂, s₃, hsense, hfill, htell, rfl⟩ := exportOne_parts h
  obtain ⟨rfl, engine, rfl⟩ := fillRow_ok hfill
  obtain ⟨engine', program, -, happly, rfl⟩ := tell_ok_iff.1 htell
  cases happly
  exact ⟨engine', sense, hsense, rfl⟩

/-- A constraint that is exported leaves the bounds there are in place. -/
theorem prefix_of_exportOne {i : Nat} {id : Int} {s s' : Session E K n}
    (hok : Session.exportOne i s = .ok id s') : s.program.bounds <+: s'.program.bounds := by
  obtain ⟨engine, sense, -, rfl⟩ := exportOne_ok hok
  exact List.prefix_append _ _

/-- What an engine keeps whatever it is told, it keeps when a constraint is exported. -/
theorem exportOne_keeps {I : E → Prop}
    (hI : ∀ (e : E) (c : Command K), I e → I (Engine.receive e c).2) {i : Nat} {id : Int}
    {s s' : Session E K n} (h : Session.exportOne i s = .ok id s') (hs : I s.engine) :
    I s'.engine := by
  obtain ⟨sense, s₂, s₃, -, hfill, htell, rfl⟩ := exportOne_parts h
  have hkept : I s₃.engine := tell_keeps hI htell (fillRow_keeps hI hfill hs)
  exact hkept

/-- A constraint with a known relation is exported to an engine that refuses nothing. -/
theorem exportOne_of_accepts (ha : ∀ (e : E) (c : Command K), (Engine.receive e c).1 = .ok ())
    {i : Nat} {s : Session E K n} {sense : Sense}
    (h : sense? ((s.pool[i]?).getD default).relation = some sense) :
    ∃ id s', Session.exportOne i s = .ok id s' := by
  obtain ⟨id, s₂, hfill⟩ := fillRow_of_accepts ha ("c" ++ Number.digitsOf s.rowsAdded)
    ((s.pool[i]?).getD default).term s
  have htell := tell_ok_iff.2 ⟨_, _, Prod.ext (ha s₂.engine
    (.bind id sense (-((s.pool[i]?).getD default).term.intercept))) rfl, rfl, rfl⟩
  have hrun : Session.exportOne i s = (do
      tell (.bind id sense (-((s.pool[i]?).getD default).term.intercept))
      modify fun s => { s with
        rowsAdded := s.rowsAdded + 1
        pool := s.pool.modify i fun c => { c with added := true } }
      return id : Step (Session E K n) Int) s₂ := by
    unfold Session.exportOne
    rw [Step.get_bind, Step.bind_ok hfill]
    simp only [h]
  rw [hrun, Step.bind_ok htell]
  exact ⟨_, _, rfl⟩

/-- Promoting a constraint that is not flagged, below the limit, is exporting it. -/
theorem promote_eq {i counter : Nat} {most : K} {s : Session E K n} (hnot : s.isAdded i = false)
    (hfull : ¬ most ≤ (Scalar.ofNat counter : K)) :
    Session.promote i (some most) (s, counter) =
      match Session.exportOne i s with
      | .ok _ s => .ok true (s, counter + 1)
      | .error e s => .error e (s, counter + 1) := by
  have hlimit : ((some most).any fun m => decide (m ≤ (Scalar.ofNat counter : K))) = false :=
    decide_eq_false hfull
  cases hone : Session.exportOne i s <;>
    simp only [Session.promote, hnot, hlimit, hone, Bool.false_eq_true, if_false,
      Option.isSome_some, if_true]

/-! ## Exporting several -/

/-- What is not in a ledger, nor the entry that comes next, is not in it after that either. -/
theorem not_logged_after {log is : List Nat} {i : Nat} (hnew : ∀ j ∈ is, j ∉ log) (hi : i ∉ is) :
    ∀ j ∈ is, j ∉ log ++ [i] := by
  intro j hj hmem
  rcases List.mem_append.1 hmem with hmem | hmem
  · exact hnew j hj hmem
  · rw [List.mem_singleton.1 hmem] at hj
    exact hi hj

/-- The members of a list that are not in the ledger, each where it first occurs. -/
def pending (log is : List Nat) : List Nat := (is.filter fun i => !decide (i ∈ log)).eraseDups

theorem pending_of_mem {log : List Nat} {i : Nat} (hi : i ∈ log) (is : List Nat) :
    pending log (i :: is) = pending log is := by
  unfold pending
  rw [List.filter_cons_of_neg (by simp [hi])]

theorem pending_of_notMem {log : List Nat} {i : Nat} (hi : i ∉ log) (is : List Nat) :
    pending log (i :: is) = i :: pending (log ++ [i]) is := by
  unfold pending
  rw [List.filter_cons_of_pos (by simp [hi]), List.eraseDups_cons, List.filter_filter]
  refine congrArg (fun js => i :: List.eraseDups js) (List.filter_congr fun j _ => ?_)
  by_cases hj : j = i <;> simp [hj]

/-- Of new constraints, none of them twice, all are pending. -/
theorem pending_of_new {log is : List Nat} (hnew : ∀ i ∈ is, i ∉ log) (hnodup : is.Nodup) :
    pending log is = is := by
  induction is generalizing log with
  | nil => rfl
  | cons i is ih =>
    rw [List.forall_mem_cons] at hnew
    rw [List.nodup_cons] at hnodup
    rw [pending_of_notMem hnew.1, ih (not_logged_after hnew.2 hnodup.1) hnodup.2]

/-- The constraints of a list, exported one after the other. -/
inductive Exports : List Nat → Session E K n → Session E K n → Prop
  | nil (s : Session E K n) : Exports [] s s
  | cons {i : Nat} {is : List Nat} {id : Int} {s t u : Session E K n}
      (h : Session.exportOne i s = .ok id t) (hrest : Exports is t u) : Exports (i :: is) s u

namespace Exports

variable {is : List Nat} {s s' : Session E K n}

/-- Exports keep the bounds there are. -/
theorem prefix_bounds (h : Exports is s s') : s.program.bounds <+: s'.program.bounds := by
  induction h with
  | nil s => exact List.prefix_refl _
  | cons hone _ ih => exact (prefix_of_exportOne hone).trans ih

/-- What an engine keeps whatever it is told, it keeps through exports. -/
theorem keeps {I : E → Prop} (hI : ∀ (e : E) (c : Command K), I e → I (Engine.receive e c).2)
    (h : Exports is s s') (hs : I s.engine) : I s'.engine := by
  induction h with
  | nil s => exact hs
  | cons hone _ ih => exact ih (exportOne_keeps hI hone hs)

end Exports

namespace Ledger

variable {g : Ground K n} {log : List Nat} {s s' : Session E K n}

/-- **One export** extends the ledger by one entry. -/
theorem exportOne (h : Ledger g log s) {i : Nat} (hi : i < g.pool.length) (hni : i ∉ log)
    {id : Int} (hok : Session.exportOne i s = .ok id s') : Ledger g (log ++ [i]) s' := by
  obtain ⟨engine, sense, hsense, rfl⟩ := exportOne_ok hok
  obtain ⟨hterm, hrel⟩ := h.constraint_eq i
  rw [hrel] at hsense
  constructor
  case dim_eq => exact h.dim_eq
  case vars_eq => exact h.vars_eq
  case bears =>
    have hold : ∀ j b, s.program.Bears (g.constraint j) b →
        (s.exported i engine ((s.pool[i]?).getD default) sense).program.Bears
          (g.constraint j) b := fun _ _ hb => hb.mono (List.prefix_append _ _)
    have hlast : (s.exported i engine ((s.pool[i]?).getD default) sense).program.Bears
        (g.constraint i) ⟨Int.ofNat s.program.rows.length, sense,
          -((s.pool[i]?).getD default).term.intercept⟩ :=
      ⟨⟨_, _, rfl, List.getElem?_concat_length, congrArg Affine.rowEntries hterm⟩, hsense,
        congrArg (fun t : Affine K n => -t.intercept) hterm⟩
    exact List.rel_append (h.bears.imp hold) (.cons hlast .nil)
  case rows_nodup =>
    show ((s.program.bounds ++ [_]).map RowBound.row).Nodup
    rw [List.map_append, List.map_singleton]
    refine List.nodup_append.2 ⟨h.rows_nodup, List.nodup_singleton _, fun a ha b hb hab => ?_⟩
    -- every row bound before has a smaller number
    obtain ⟨b', hb', rfl⟩ := List.mem_map.1 ha
    obtain ⟨j, -, hbears⟩ := h.exists_entry hb'
    obtain ⟨k, hk, hrow⟩ := hbears.row_lt
    rw [hrow, List.mem_singleton.1 hb] at hab
    have hab : k = s.program.rows.length := Int.ofNat.inj hab
    omega
  case pool_eq =>
    intro j
    show (s.pool.modify i _)[j]? = _
    rw [List.getElem?_modify, h.pool_eq j]
    by_cases hj : i = j
    · subst hj
      cases g.pool[i]? <;> simp
    · have hji : ¬ j = i := fun h => hj h.symm
      cases g.pool[j]? <;> simp [hj, hji]
  case log_lt =>
    intro j hj
    rcases List.mem_append.1 hj with hj | hj
    · exact h.log_lt j hj
    · rw [List.mem_singleton.1 hj]
      exact hi
  case nodup =>
    exact List.nodup_append.2 ⟨h.nodup, List.nodup_singleton i, fun a ha b hb hab =>
      hni (by rw [← List.mem_singleton.1 hb, ← hab]; exact ha)⟩
  case count =>
    show s.rowsAdded + 1 = _
    rw [List.length_append, h.count]
    rfl

/-- **Exports** extend the ledger by their list, if nothing in it is in the ledger or twice. -/
theorem exports (h : Ledger g log s) {is : List Nat} (his : ∀ i ∈ is, i < g.pool.length)
    (hnew : ∀ i ∈ is, i ∉ log) (hnodup : is.Nodup) (hok : Exports is s s') :
    Ledger g (log ++ is) s' := by
  induction hok generalizing log with
  | nil s => rwa [List.append_nil]
  | cons hone _ ih =>
    rw [List.forall_mem_cons] at his hnew
    rw [List.nodup_cons] at hnodup
    rw [List.append_cons]
    exact ih (h.exportOne his.1 hnew.1 hone) his.2 (not_logged_after hnew.2 hnodup.1) hnodup.2

/-- **A list that is exported** extends the ledger by what was pending of it, and the answer is how
    much that was. -/
theorem exportAll_ok (h : Ledger g log s) {is : List Nat} (his : ∀ i ∈ is, i < g.pool.length)
    {count : Nat} (hok : Session.exportAll is s = .ok count s') :
    Ledger g (log ++ pending log is) s' ∧ count = (pending log is).length ∧
      s.program.bounds <+: s'.program.bounds := by
  induction is generalizing log s count with
  | nil =>
    obtain ⟨rfl, rfl⟩ := Step.pure_ok_iff.1 hok
    exact ⟨(List.append_nil log).symm ▸ h, rfl, List.prefix_refl _⟩
  | cons i is ih =>
    obtain ⟨hi, his⟩ := List.forall_mem_cons.1 his
    unfold Session.exportAll at hok
    rw [Step.get_bind] at hok
    by_cases hmem : i ∈ log
    · rw [if_pos ((h.isAdded_iff i).2 hmem)] at hok
      rw [pending_of_mem hmem]
      exact ih h his hok
    · rw [if_neg fun hadded => hmem ((h.isAdded_iff i).1 hadded)] at hok
      obtain ⟨id, u, hone, hok⟩ := Step.bind_ok_iff.1 hok
      obtain ⟨rest, v, hrest, hpure⟩ := Step.bind_ok_iff.1 hok
      obtain ⟨rfl, rfl⟩ := Step.pure_ok_iff.1 hpure
      obtain ⟨h', hcount, hbounds⟩ := ih (h.exportOne hi hmem hone) his hrest
      rw [pending_of_notMem hmem, List.append_cons, hcount]
      exact ⟨h', rfl, (prefix_of_exportOne hone).trans hbounds⟩

/-- A list of new constraints, none of them twice, extends the ledger by itself. -/
theorem exportAll_new (h : Ledger g log s) {is : List Nat} (his : ∀ i ∈ is, i < g.pool.length)
    (hnew : ∀ i ∈ is, i ∉ log) (hnodup : is.Nodup) {count : Nat}
    (hok : Session.exportAll is s = .ok count s') : Ledger g (log ++ is) s' := by
  obtain ⟨h', -⟩ := h.exportAll_ok his hok
  rwa [pending_of_new hnew hnodup] at h'

/-- A whole list is exported to an engine that refuses nothing. -/
theorem exportAll_of_accepts (h : Ledger g log s)
    (ha : ∀ (e : E) (c : Command K), (Engine.receive e c).1 = .ok ())
    (hf : ∀ c ∈ g.pool, c.Fresh) {is : List Nat} (his : ∀ i ∈ is, i < g.pool.length) :
    ∃ count s', Session.exportAll is s = .ok count s' := by
  induction is generalizing log s with
  | nil => exact ⟨0, s, rfl⟩
  | cons i is ih =>
    rw [List.forall_mem_cons] at his
    unfold Session.exportAll
    rw [Step.get_bind]
    by_cases hi : i ∈ log
    · rw [if_pos ((h.isAdded_iff i).2 hi)]
      exact ih h his.2
    · rw [if_neg fun hadded => hi ((h.isAdded_iff i).1 hadded)]
      obtain ⟨sense, hsense⟩ := h.sense_of_fresh hf his.1
      obtain ⟨id, u, hone⟩ := exportOne_of_accepts ha hsense
      obtain ⟨count, u', hrest⟩ := ih (h.exportOne his.1 hi hone) his.2
      rw [Step.bind_ok hone, Step.bind_ok hrest]
      exact ⟨_, _, rfl⟩

end Ledger

/-! ## The objective -/

/-- An objective that was set is a row of its own, which the program names as its objective. -/
theorem setObjective_ok {o : Objective K n} {s s' : Session E K n}
    (h : Session.setObjective o s = .ok () s') :
    ∃ engine, s' = { s with
      engine
      program := { s.program.withRow "objective" o.term.rowEntries with
        objective := some (Int.ofNat s.program.rows.length, o.goal) } } := by
  unfold Session.setObjective at h
  obtain ⟨id, t, hfill, htell⟩ := Step.bind_ok_iff.1 h
  obtain ⟨rfl, engine, rfl⟩ := fillRow_ok hfill
  obtain ⟨engine', program, -, happly, rfl⟩ := tell_ok_iff.1 htell
  cases happly
  exact ⟨engine', rfl⟩

/-- Setting an objective leaves the ledger as it is. -/
theorem Ledger.setObjective {g : Ground K n} {log : List Nat} {s s' : Session E K n}
    (h : Ledger g log s) {o : Objective K n} (hok : Session.setObjective o s = .ok () s') :
    Ledger g log s' := by
  obtain ⟨engine, rfl⟩ := setObjective_ok hok
  exact h.congr rfl rfl (List.prefix_append _ _) rfl rfl rfl

theorem setObjective_of_accepts (ha : ∀ (e : E) (c : Command K), (Engine.receive e c).1 = .ok ())
    (o : Objective K n) (s : Session E K n) : ∃ s', Session.setObjective o s = .ok () s' := by
  obtain ⟨id, t, hfill⟩ := fillRow_of_accepts ha "objective" o.term s
  have htell := tell_ok_iff.2 ⟨_, _, Prod.ext (ha t.engine (.objective id o.goal)) rfl, rfl, rfl⟩
  unfold Session.setObjective
  rw [Step.bind_ok hfill]
  exact ⟨_, htell⟩

end Session

end Perturb
