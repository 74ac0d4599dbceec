/-
  What a session has exported after any requests.

  A session is asked to export a whole list of constraints or to promote a single one, in any order
  and as often as one likes.  A request may fail halfway, because the relation of a constraint is
  unknown or because the engine refuses, and the session is asked again nevertheless.

  1. **Failing (`exportOne_error`)** — an export that fails leaves rows behind, but none that is
     bound: bounds, flags and count are as they were (`Kept`), and so is the ledger.

  2. **Lists** — a list that is exported extends the ledger by what was pending of it
     (`Ledger.exportAll_ok`).  One that is not extends it by what was pending of the part before the
     constraint at which it stopped (`Ledger.exportAll_error`).

  3. **The crux (`Ledger.request`)** — hence every request, whatever comes of it, takes a ledger to
     a longer one, and `Request.Effect` says in five cases which constraints are new and what is
     answered.  The run is an induction on it (`Ledger.requests`).

  The theorem, at fractions, is `requests_export_once`.
-/
import Perturb.Proofs.Program.Export

namespace Perturb

/-- A list that is a prefix stays one if the element right behind it is changed. -/
theorem prefix_modify {α : Type} {xs ys : List α} (h : xs <+: ys) (f : α → α) :
    xs <+: ys.modify xs.length f := by
  rw [List.prefix_iff_getElem?] at h ⊢
  intro i hi
  have hne : xs.length ≠ i := by omega
  rw [List.getElem?_modify, h i hi]
  exact congrArg some (if_neg hne)

namespace Session

variable {E K : Type} {n : Nat}

/-! ## Failing -/

/-- Apart from the engine and from rows that are not bound, a session is as before. -/
structure Kept (s t : Session E K n) : Prop where
  dim_eq : t.inputDim = s.inputDim
  vars_eq : t.program.vars = s.program.vars
  rows_prefix : s.program.rows <+: t.program.rows
  bounds_eq : t.program.bounds = s.program.bounds
  count_eq : t.rowsAdded = s.rowsAdded
  pool_eq : t.pool = s.pool

theorem Kept.refl (s : Session E K n) : Kept s s := ⟨rfl, rfl, List.prefix_refl _, rfl, rfl, rfl⟩

/-- Whatever is kept leaves the ledger as it is. -/
theorem Ledger.kept [Scalar K] {g : Ground K n} {log : List Nat} {s t : Session E K n}
    (h : Ledger g log s) (hkept : Kept s t) : Ledger g log t :=
  h.congr hkept.dim_eq hkept.vars_eq hkept.rows_prefix hkept.bounds_eq hkept.count_eq hkept.pool_eq

section

variable [Engine E K]

/-- A command that touches neither variables nor bounds nor earlier rows keeps a session, whether or
    not it is taken. -/
theorem Kept.tell {s t : Session E K n} (h : Kept s t) {c : Command K}
    (hc : ∀ p, t.program.apply c = .ok p → p.vars = t.program.vars ∧
      s.program.rows <+: p.rows ∧ p.bounds = t.program.bounds) :
    Kept s (Step.left (Session.tell c t)) := by
  unfold Session.tell
  rcases Engine.receive t.engine c with ⟨answer, engine⟩
  have hrefused : Kept s { t with engine } :=
    ⟨h.dim_eq, h.vars_eq, h.rows_prefix, h.bounds_eq, h.count_eq, h.pool_eq⟩
  cases answer with
  | error e => exact hrefused
  | ok u =>
    cases hp : t.program.apply c with
    | error e => exact hrefused
    | ok p =>
      obtain ⟨hvars, hrows, hbounds⟩ := hc p hp
      exact ⟨h.dim_eq, hvars.trans h.vars_eq, hrows, hbounds.trans h.bounds_eq, h.count_eq,
        h.pool_eq⟩

/-- A command that was not taken has changed the engine at most. -/
theorem tell_error {c : Command K} {s t : Session E K n} {e : Fault}
    (h : Session.tell c s = .error e t) : ∃ engine, t = { s with engine } := by
  unfold Session.tell at h
  rcases hr : Engine.receive s.engine c with ⟨answer, engine⟩
  rw [hr] at h
  cases answer with
  | error e =>
    cases h
    exact ⟨engine, rfl⟩
  | ok u =>
    cases hp : s.program.apply c with
    | error e =>
      simp only [hp] at h
      cases h
      exact ⟨engine, rfl⟩
    | ok p =>
      simp only [hp] at h
      cases h

end

variable [Scalar K] [Engine E K]

/-- A row that is filled, or that is left half-filled, disturbs nothing. -/
theorem kept_fillRow (name : String) (t : Affine K n) (s : Session E K n) :
    Kept s (Step.left (fillRow name t s)) := by
  rw [fillRow_eq]
  refine Step.left_bind (Step.left_forM (Kept.refl s) ?_) fun _ u hu => hu
  intro c hc u hu
  unfold Program.rowCommands at hc
  rcases List.mem_cons.1 hc with rfl | hc
  · refine hu.tell fun p hp => ?_
    cases hp
    exact ⟨rfl, hu.rows_prefix.trans (List.prefix_append _ _), rfl⟩
  · obtain ⟨⟨i, a⟩, -, rfl⟩ := List.mem_map.1 hc
    refine hu.tell fun p hp => ?_
    obtain ⟨rows, hrows, hp⟩ := Outcome.bind_ok_iff.1 hp
    cases hp
    refine ⟨rfl, ?_, rfl⟩
    -- the row that is filled is the first one that was not there before
    unfold Program.modifyAt at hrows
    split at hrows
    · rename_i k hk
      cases hrows
      obtain ⟨-, rfl⟩ : s.program.rows.length < u.program.rows.length ∧
          s.program.rows.length = k := by simpa [position?] using hk
      exact prefix_modify hu.rows_prefix _
    · cases hrows

/-- **An export that fails** leaves the ledger of every session as it is. -/
theorem exportOne_error {i : Nat} {e : Fault} {s t : Session E K n}
    (h : Session.exportOne i s = .error e t) : Kept s t := by
  unfold Session.exportOne at h
  rw [Step.get_bind] at h
  have hfilled := kept_fillRow ("c" ++ Number.digitsOf s.rowsAdded)
    ((s.pool[i]?).getD default).term s
  rcases Step.bind_error_iff.1 h with h | ⟨id, u, hfill, h⟩
  · rw [h] at hfilled
    exact hfilled
  rw [hfill] at hfilled
  have hfilled : Kept s u := hfilled
  cases hsense : sense? ((s.pool[i]?).getD default).relation with
  | none =>
    simp only [hsense] at h
    cases h
    exact hfilled
  | some sense =>
    simp only [hsense] at h
    rcases Step.bind_error_iff.1 h with h | ⟨⟨⟩, v, -, h⟩
    · obtain ⟨engine, rfl⟩ := tell_error h
      exact ⟨hfilled.dim_eq, hfilled.vars_eq, hfilled.rows_prefix, hfilled.bounds_eq,
        hfilled.count_eq, hfilled.pool_eq⟩
    · -- a flag can always be set
      cases h

/-- With an engine that refuses nothing only an unknown relation makes an export fail. -/
theorem exportOne_error_of_accepts
    (ha : ∀ (e : E) (c : Command K), (Engine.receive e c).1 = .ok ()) {i : Nat} {e : Fault}
    {s t : Session E K n} (h : Session.exportOne i s = .error e t) :
    sense? ((s.pool[i]?).getD default).relation = none ∧ e = .missingKey := by
  cases hsense : sense? ((s.pool[i]?).getD default).relation with
  | some sense =>
    obtain ⟨id, s', hok⟩ := exportOne_of_accepts ha hsense
    rw [hok] at h
    cases h
  | none =>
    unfold Session.exportOne at h
    rw [Step.get_bind] at h
    obtain ⟨id, u, hfill⟩ := fillRow_of_accepts ha ("c" ++ Number.digitsOf s.rowsAdded)
      ((s.pool[i]?).getD default).term s
    rw [Step.bind_ok hfill] at h
    simp only [hsense] at h
    cases h
    exact ⟨rfl, rfl⟩

/-! ## Lists -/

namespace Ledger

variable {g : Ground K n} {log : List Nat} {s t : Session E K n}

/-- **A list that is not exported** extends the ledger by what was pending of the part before the
    constraint at which it stopped; this constraint is not in the ledger, and exporting it fails. -/
theorem exportAll_error (h : Ledger g log s) {is : List Nat} (his : ∀ i ∈ is, i < g.pool.length)
    {e : Fault} (herr : Session.exportAll is s = .error e t) :
    ∃ before i after, is = before ++ i :: after ∧ i ∉ log ∧ i ∉ before ∧
      Ledger g (log ++ pending log before) t ∧ s.program.bounds <+: t.program.bounds ∧
      ∃ u, Ledger g (log ++ pending log before) u ∧ Session.exportOne i u = .error e t := by
  induction is generalizing log s with
  | nil => cases herr
  | cons i is ih =>
    obtain ⟨hi, his⟩ := List.forall_mem_cons.1 his
    unfold Session.exportAll at herr
    rw [Step.get_bind] at herr
    by_cases hmem : i ∈ log
    · rw [if_pos ((h.isAdded_iff i).2 hmem)] at herr
      obtain ⟨before, j, after, rfl, hj, hbefore, h', hbounds, hstop⟩ := ih h his herr
      have hji : j ≠ i := fun hji => hj (hji ▸ hmem)
      refine ⟨i :: before, j, after, rfl, hj, by simp [hji, hbefore], ?_⟩
      rw [pending_of_mem hmem]
      exact ⟨h', hbounds, hstop⟩
    · rw [if_neg fun hadded => hmem ((h.isAdded_iff i).1 hadded)] at herr
      rcases Step.bind_error_iff.1 herr with hone | ⟨id, u, hone, herr⟩
      · have hkept := exportOne_error hone
        have hsame : log ++ pending log [] = log := List.append_nil log
        refine ⟨[], i, is, rfl, hmem, List.not_mem_nil, ?_⟩
        rw [hsame]
        exact ⟨h.kept hkept, hkept.bounds_eq ▸ List.prefix_refl _, s, h, hone⟩
      · rcases Step.bind_error_iff.1 herr with hrest | ⟨count, v, -, hpure⟩
        · obtain ⟨before, j, after, rfl, hj, hbefore, h', hbounds, hstop⟩ :=
            ih (h.exportOne hi hmem hone) his hrest
          rw [List.mem_append, List.mem_singleton, not_or] at hj
          refine ⟨i :: before, j, after, rfl, hj.1, by simp [hj.2, hbefore], ?_⟩
          rw [pending_of_notMem hmem, List.append_cons]
          exact ⟨h', (prefix_of_exportOne hone).trans hbounds, hstop⟩
        · cases hpure

end Ledger

/-! ## Requests -/

/-- What a session can be asked to export: a whole list, or one constraint within a limit that a
    counter may have reached. -/
inductive Request (K : Type) where
  | all (is : List Nat)
  | promote (i : Nat) (limit : Option K) (counter : Nat)

namespace Request

/-- The constraints a request names. -/
def named : Request K → List Nat
  | .all is => is
  | .promote i _ _ => [i]

/-- Asks a session.  A list is answered by a number, a single constraint by whether it was
    exported. -/
def run : Request K → Step (Session E K n) (Nat ⊕ Bool)
  | .all is => do
    let count ← Session.exportAll is
    return .inl count
  | .promote i limit counter => fun s =>
    match Session.promote i limit (s, counter) with
    | .ok b (t, _) => .ok (.inr b) t
    | .error e (t, _) => .error e t

/-- The session after a request, whether or not it failed. -/
def after (s : Session E K n) (r : Request K) : Session E K n := Step.left (r.run s)

/-- Whether a limit is given which a counter has reached. -/
def Full (limit : Option K) (counter : Nat) : Prop := ∃ most ∈ limit, most ≤ Scalar.ofNat counter

theorem any_iff_full {limit : Option K} {counter : Nat} :
    (limit.any fun m => decide (m ≤ Scalar.ofNat counter)) = true ↔ Full limit counter := by
  cases limit <;> simp [Full]

/-- What a request comes to, given the ledger before it: its answer, and the constraints that are
    new in the ledger.  A constraint can be refused with a fault as `refuses` says. -/
inductive Effect (refuses : Nat → Fault → Prop) (log : List Nat) :
    Request K → Outcome (Nat ⊕ Bool) → List Nat → Prop
  /-- A list is exported but for what was exported before. -/
  | exported (is : List Nat) :
      Effect refuses log (.all is) (.ok (.inl (pending log is).length)) (pending log is)
  /-- A list is exported up to a constraint that is refused. -/
  | stopped {before after : List Nat} {i : Nat} {e : Fault} (hi : i ∉ log) (hbefore : i ∉ before)
      (he : refuses i e) :
      Effect refuses log (.all (before ++ i :: after)) (.error e) (pending log before)
  /-- A constraint was exported before, or the limit is reached. -/
  | passed {i counter : Nat} {limit : Option K}
      (h : i ∈ log ∨ Full limit counter) :
      Effect refuses log (.promote i limit counter) (.ok (.inr false)) []
  /-- A constraint is exported. -/
  | promoted {i counter : Nat} {limit : Option K} (hi : i ∉ log)
      (hlimit : ¬ Full limit counter) :
      Effect refuses log (.promote i limit counter) (.ok (.inr true)) [i]
  /-- A constraint is refused. -/
  | refused {i counter : Nat} {limit : Option K} {e : Fault} (hi : i ∉ log)
      (hlimit : ¬ Full limit counter) (he : refuses i e) :
      Effect refuses log (.promote i limit counter) (.error e) []

end Request

/-- What can be the matter with a constraint that is refused: if the engine takes every command, its
    relation is unknown. -/
def Refuses (E : Type) [Engine E K] (pool : List (Constraint K n)) (i : Nat) (e : Fault) : Prop :=
  (∀ (engine : E) (c : Command K), (Engine.receive engine c).1 = .ok ()) →
    sense? ((pool[i]?).getD default).relation = none ∧ e = .missingKey

namespace Ledger

variable {g : Ground K n} {log : List Nat} {s t : Session E K n}

/-- An export that fails refuses its constraint. -/
theorem refuses (h : Ledger g log s) {i : Nat} {e : Fault}
    (herr : Session.exportOne i s = .error e t) : Refuses E g.pool i e := by
  intro ha
  have hrelation := (h.constraint_eq i).2
  unfold Ground.constraint at hrelation
  rw [← hrelation]
  exact exportOne_error_of_accepts ha herr

/-- **Every request**, whatever comes of it, takes a ledger to a longer one. -/
theorem request (h : Ledger g log s) {r : Request K} (hr : ∀ i ∈ r.named, i < g.pool.length) :
    ∃ new, r.Effect (Refuses E g.pool) log (Step.answer (r.run s)) new ∧
      Ledger g (log ++ new) (r.after s) ∧
      s.program.bounds <+: (r.after s).program.bounds := by
  unfold Request.after
  cases r with
  | all is =>
    cases hall : Session.exportAll is s with
    | ok count t =>
      obtain ⟨h', rfl, hbounds⟩ := h.exportAll_ok hr hall
      have hrun : (Request.all is : Request K).run s = .ok (.inl (pending log is).length) t :=
        Step.bind_ok hall
      rw [hrun]
      exact ⟨_, .exported is, h', hbounds⟩
    | error e t =>
      obtain ⟨before, i, after, rfl, hi, hbefore, h', hbounds, u, hu, hstop⟩ :=
        h.exportAll_error hr hall
      have hrun : (Request.all (before ++ i :: after) : Request K).run s = .error e t :=
        Step.bind_error hall
      rw [hrun]
      exact ⟨_, .stopped hi hbefore (hu.refuses hstop), h', hbounds⟩
  | promote i limit counter =>
    have hi : i < g.pool.length := hr i (List.mem_singleton_self i)
    have hsame : Ledger g (log ++ []) s := (List.append_nil log).symm ▸ h
    by_cases hmem : i ∈ log
    · have hrun : (Request.promote i limit counter).run s = .ok (.inr false) s := by
        unfold Request.run Session.promote
        simp only [(h.isAdded_iff i).2 hmem, if_true]
      rw [hrun]
      exact ⟨[], .passed (Or.inl hmem), hsame, List.prefix_refl _⟩
    by_cases hlimit : Request.Full limit counter
    · have hrun : (Request.promote i limit counter).run s = .ok (.inr false) s := by
        unfold Request.run Session.promote
        simp only [h.isAdded_of_notMem hmem, Request.any_iff_full.2 hlimit, Bool.false_eq_true,
          if_false, if_true]
      rw [hrun]
      exact ⟨[], .passed (Or.inr hlimit), hsame, List.prefix_refl _⟩
    have hfull : (limit.any fun m => decide (m ≤ Scalar.ofNat counter)) = false :=
      Bool.eq_false_iff.2 fun hany => hlimit (Request.any_iff_full.1 hany)
    cases hone : Session.exportOne i s with
    | ok id t =>
      have hrun : (Request.promote i limit counter).run s = .ok (.inr true) t := by
        unfold Request.run Session.promote
        simp only [h.isAdded_of_notMem hmem, hfull, hone, Bool.false_eq_true, if_false]
      rw [hrun]
      exact ⟨[i], .promoted hmem hlimit, h.exportOne hi hmem hone, prefix_of_exportOne hone⟩
    | error e t =>
      have hkept := exportOne_error hone
      have hrun : (Request.promote i limit counter).run s = .error e t := by
        unfold Request.run Session.promote
        simp only [h.isAdded_of_notMem hmem, hfull, hone, Bool.false_eq_true, if_false]
      rw [hrun]
      exact ⟨[], .refused hmem hlimit (h.refuses hone), hsame.kept hkept,
        hkept.bounds_eq ▸ List.prefix_refl _⟩

/-- **Requests one after the other** take a ledger to a longer one. -/
theorem requests (h : Ledger g log s) {rs : List (Request K)}
    (hrs : ∀ r ∈ rs, ∀ i ∈ r.named, i < g.pool.length) :
    ∃ new, Ledger g (log ++ new) (rs.foldl (fun s r => r.after s) s) := by
  induction rs generalizing log s with
  | nil => exact ⟨[], (List.append_nil log).symm ▸ h⟩
  | cons r rs ih =>
    obtain ⟨hr, hrs⟩ := List.forall_mem_cons.1 hrs
    obtain ⟨new, -, h', -⟩ := h.request hr
    obtain ⟨more, h''⟩ := ih h' hrs
    exact ⟨new ++ more, (List.append_assoc log new more) ▸ h''⟩

end Ledger

/-! ## Exporting once -/

section

variable {E : Type} {n : Nat}

/-- What a session shows of its exports: those in `log`, in this order. -/
structure Accounted (pool : List (Constraint Rat n)) (log : List Nat) (s : Session E Rat n) :
    Prop where
  /-- One by one, the bound rows are those of the exported constraints. -/
  bears : List.Forall₂ (fun i b => ∃ c, pool[i]? = some c ∧ s.program.Bears c b) log
    s.program.bounds
  /-- No constraint has two bound rows. -/
  once : log.Nodup
  /-- No row is bound twice. -/
  rows_once : (s.program.bounds.map (·.row)).Nodup
  /-- Flagged is what has a bound row. -/
  flagged : ∀ i, s.isAdded i = true ↔ i ∈ log
  /-- The count is the number of bound rows. -/
  counted : s.rowsAdded = s.program.bounds.length
  /-- Flags aside, constraints are as they were. -/
  unchanged : ∀ i : Nat, (s.pool[i]?).map (fun c => (c.term, c.relation)) =
    (pool[i]?).map fun c => (c.term, c.relation)
  /-- A point meets the bound rows exactly if it satisfies every flagged constraint with equality
      allowed. -/
  met_iff : ∀ v : Vector Rat n, (∀ r ∈ s.program.boundRows, r.Met v.toList) ↔
    ∀ i c, pool[i]? = some c → s.isAdded i = true → c.weakened.Holds v

/-- A ledger accounts for what a session shows. -/
theorem Ledger.accounted {g : Ground Rat n} {log : List Nat} {s : Session E Rat n}
    (h : Ledger g log s) : Accounted g.pool log s where
  bears := by
    refine List.forall₂_iff_get.2 ⟨h.bears.length_eq, fun k hk hk' => ?_⟩
    have hlt : log.get ⟨k, hk⟩ < g.pool.length := h.log_lt _ (List.get_mem log ⟨k, hk⟩)
    have hbears := h.bears.get hk hk'
    rw [Ground.constraint_of_getElem? (List.getElem?_eq_getElem hlt)] at hbears
    exact ⟨_, List.getElem?_eq_getElem hlt, hbears⟩
  once := h.nodup
  rows_once := h.rows_nodup
  flagged := h.isAdded_iff
  counted := h.count.trans h.length_bounds.symm
  unchanged i := by
    rw [h.pool_eq i, Option.map_map]
    rfl
  met_iff v := by
    rw [h.rows_met_iff v]
    constructor
    · intro hall i c hc hadded
      rw [← Ground.constraint_of_getElem? hc]
      exact hall i ((h.isAdded_iff i).1 hadded)
    · intro hall i hi
      have hc := List.getElem?_eq_getElem (h.log_lt i hi)
      rw [Ground.constraint_of_getElem? hc]
      exact hall i _ hc ((h.isAdded_iff i).2 hi)

variable [Engine E Rat]

/-- **Constraints are exported once, and faithfully.**  Take a session that was just begun over any
    constraints that are not flagged, relations of which may be unknown, on an engine that may
    refuse; and ask it whatever one likes, going on after requests that fail.

    Before and after every request the bound rows are those of some constraints, none of them twice;
    exactly these are flagged, the count is their number, and a point meets the bound rows exactly
    if it satisfies the flagged constraints with equality allowed.  A request adds to them what
    `Request.Effect` says and answers accordingly: of a list the constraints not exported yet, or,
    if it fails, those of them that precede the one that was refused; of a single constraint that
    one, exactly if the answer is yes. -/
theorem requests_export_once {pool : List (Constraint Rat n)}
    (hpool : ∀ c ∈ pool, c.added = false) {engine : E} {dim : Nat} {origin : List Rat}
    {bound min max : Rat} {integrality : Bool} {s : Session E Rat n}
    (hbegin : Session.begin origin bound min max integrality (Session.fresh engine dim pool) =
      .ok () s) {rs : List (Request Rat)} (hrs : ∀ q ∈ rs, ∀ i ∈ q.named, i < pool.length)
    {r : Request Rat} (hr : ∀ i ∈ r.named, i < pool.length) {t : Session E Rat n}
    (ht : t = rs.foldl (fun s q => q.after s) s) :
    ∃ log new, r.Effect (Refuses E pool) log (Step.answer (r.run t)) new ∧
      Accounted pool log t ∧ Accounted pool (log ++ new) (r.after t) ∧
      t.program.bounds <+: (r.after t).program.bounds := by
  have hledger := ledger_of_begin rfl hpool hbegin
  obtain ⟨log, hlog⟩ := hledger.requests hrs
  rw [← ht] at hlog
  obtain ⟨new, heffect, hnew, hbounds⟩ := hlog.request hr
  exact ⟨_, new, heffect, Ledger.accounted (g := ⟨_, _, pool⟩) hlog,
    Ledger.accounted (g := ⟨_, _, pool⟩) hnew, hbounds⟩

/-! ### Three constraints to look at -/

namespace Mixed

/-- `x < 1`, a constraint of a relation nobody knows, and `x ≥ 0`. -/
def pool : List (Constraint Rat 1) :=
  [.of ((Affine.var 0).addScalar (-1)) .lt, .of (Affine.var 0) (.other "NE"),
    .of (Affine.var 0) .ge]

/-- A session that was just begun over them. -/
def session : Session (Script Rat) Rat 1 :=
  Step.left (Session.begin [0] 1 0 1 false (Session.fresh (Script.of []) 1 pool))

/-- The last constraint within a limit of one, and the first one beyond it. -/
def asked : List (Request Rat) := [.promote 2 (some 1) 0, .promote 0 (some 1) 1]

/-- A list with a constraint twice, and with the one that cannot be exported. -/
def list : Request Rat := .all [2, 0, 0, 1, 2]

end Mixed

/-- The list fails at the constraint of an unknown relation, with the two others exported. -/
theorem requests_export_once_mixed :
    ∃ (t u : Session (Script Rat) Rat 1) (log new : List Nat),
      t = Mixed.asked.foldl (fun s q => q.after s) Mixed.session ∧
      u = Mixed.list.after t ∧
      Mixed.list.Effect (Refuses (Script Rat) Mixed.pool) log
        (.error .missingKey) new ∧
      Accounted Mixed.pool log t ∧ Accounted Mixed.pool (log ++ new) u ∧
      u.rowsAdded = 2 ∧ u.pool.map (·.added) = [true, false, true] := by
  have hbegin : Session.begin [0] 1 0 1 false (Session.fresh (Script.of []) 1 Mixed.pool) =
      .ok () Mixed.session := rfl
  have hasked : ∀ q ∈ Mixed.asked, ∀ i ∈ q.named, i < Mixed.pool.length := by decide
  have hlist : ∀ i ∈ Mixed.list.named, i < Mixed.pool.length := by decide
  obtain ⟨log, new, heffect, hbefore, hafter, -⟩ :=
    requests_export_once (by decide) hbegin hasked hlist rfl
  exact ⟨_, _, log, new, rfl, rfl, heffect, hbefore, hafter, rfl, rfl⟩

end

end Session

end Perturb
