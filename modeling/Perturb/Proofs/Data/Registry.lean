/-
  Registries that share a table.

  Registries may be opened on one folder under one name any number of times, before and after
  records were made through others, and none of them knows of the others.  The table is created by
  whoever comes first and appended to by all.

  1. **Tables** — creating a table or appending to it is a matter of that table only
     (`Folder.table?_ensure`, `Folder.table?_append`).

  2. **Calls** — a `Cabinet` is a folder with the registries opened on it; a `Call` opens one more,
     or makes a record through one of them.  `Call.reply` says what a call answers, and it knows
     neither folder nor records: only which registries are open.

  3. **The crux** (`Cabinet.Consistent`) — one list of records, each with the registry it was made
     through, accounts for everything: the table is the header and the rows of all of them, and the
     records of a registry are those of them that were made through it.  A call keeps it
     (`Consistent.perform`), because what it appends to the list it appends to the table and to one
     registry; so does a run (`Consistent.run`).

  What a table says as text is a question of its rows (`Table.read_render`).
-/
import Perturb.Proofs.Data.Label
import Perturb.Proofs.Text.Table

namespace Perturb

/-! ## Tables -/

namespace Folder

variable {K : Type} (f : Folder K) {file : String}

/-- The first table of a folder has its name, and the others are those behind it. -/
theorem table?_cons (name other : String) (rows : List (List (Cell K))) :
    table? ((name, rows) :: f) other = if other = name then some rows else f.table? other := by
  unfold table?
  rw [List.lookup_cons]
  by_cases h : other = name
  · rw [if_pos h, beq_iff_eq.2 h]
  · rw [if_neg h, beq_eq_false_iff_ne.2 h]

/-- Appending a row changes one table, if it exists. -/
theorem table?_append (row : List (Cell K)) (other : String) :
    (f.append file row).table? other =
      if other = file then (f.table? other).map (· ++ [row]) else f.table? other := by
  induction f with
  | nil => exact (ite_self _).symm
  | cons e f ih =>
    obtain ⟨name, rows⟩ := e
    have hcons : append ((name, rows) :: f) file row =
        (name, if name = file then rows ++ [row] else rows) :: append f file row := by
      unfold append
      rw [List.map_cons]
      dsimp only
      split <;> rfl
    rw [hcons, table?_cons, table?_cons, ih]
    by_cases hname : other = name
    · subst hname
      rw [if_pos rfl, if_pos rfl]
      split <;> rfl
    · rw [if_neg hname, if_neg hname]

/-- A table that has to exist is there as it was, or with the header only. -/
theorem table?_ensure : (f.ensure file).table? file =
    some ((f.table? file).getD [SynthRecord.fieldNames.map .text]) := by
  unfold ensure
  cases hfile : f.table? file with
  | some rows => exact hfile
  | none =>
    unfold table? at hfile ⊢
    rw [List.lookup_append, hfile, List.lookup_cons_self]
    rfl

/-- No other table is created or changed. -/
theorem table?_ensure_ne {other : String} (h : other ≠ file) :
    (f.ensure file).table? other = f.table? other := by
  unfold ensure
  cases f.table? file with
  | some rows => rfl
  | none =>
    have hne : (other == file) = false := beq_eq_false_iff_ne.2 h
    unfold table?
    rw [List.lookup_append, List.lookup_cons, hne, List.lookup_nil, Option.or_none]

end Folder

namespace Registry

variable {K : Type}

/-! ## Calls -/

/-- A folder and the registries opened on it, in order. -/
structure Cabinet (K : Type) where
  folder : Folder K
  registries : List (Registry K)

/-- One more registry is opened, or the registry opened at a place records a counterexample. -/
inductive Call (K : Type) where
  | opening (datasetName : String)
  | recording (place : Nat) (index : Int) (orig synth : Labelled K)

/-- What a call answers: nothing for an opening, the record that was made, why there is none, or
    that no registry was opened at the place. -/
inductive Reply (K : Type) where
  | opened
  | recorded (place : Nat) (entry : SynthRecord K)
  | refused (e : Fault)
  | absent

/-- The record an answer speaks of, with the place of the registry it was made through. -/
def Reply.made : Reply K → List (Nat × SynthRecord K)
  | .recorded place entry => [(place, entry)]
  | _ => []

/-- The dataset name of the registry a call opens. -/
def Call.opens : Call K → List String
  | .opening datasetName => [datasetName]
  | .recording .. => []

variable [Scalar K]

/-- What a call does to the cabinet of a name. -/
def Call.perform (name : String) (b : Cabinet K) : Call K → Reply K × Cabinet K
  | .opening datasetName =>
    let (r, folder) := openIn b.folder name datasetName
    (.opened, ⟨folder, b.registries ++ [r]⟩)
  | .recording place index orig synth =>
    match b.registries[place]? with
    | none => (.absent, b)
    | some r =>
      match r.record b.folder index orig synth with
      | .ok (entry, r, folder) => (.recorded place entry, ⟨folder, b.registries.set place r⟩)
      | .error e => (.refused e, b)

/-- One call after the other. -/
def run (name : String) (b : Cabinet K) : List (Call K) → List (Reply K) × Cabinet K
  | [] => ([], b)
  | c :: calls =>
    let (reply, b) := c.perform name b
    let (replies, b) := run name b calls
    (reply :: replies, b)

theorem Call.perform_opening (name datasetName : String) (b : Cabinet K) :
    (Call.opening datasetName).perform name b =
      (.opened, ⟨b.folder.ensure (name ++ ".csv"),
        b.registries ++ [⟨name, datasetName, some (name ++ ".csv"), []⟩]⟩) := rfl

/-- What a call answers if registries for the named datasets are open. -/
def Call.reply (names : List String) : Call K → Reply K
  | .opening _ => .opened
  | .recording place index orig synth =>
    match names[place]? with
    | none => .absent
    | some datasetName =>
      match SynthRecord.of datasetName index orig synth with
      | .ok entry => .recorded place entry
      | .error e => .refused e

/-- Inputs of one length, not empty, are recorded by every registry that is open. -/
theorem Call.reply_recorded {names : List String} {place : Nat} (hplace : place < names.length)
    (index : Int) {orig synth : Labelled K} (hne : orig.datum ≠ [])
    (hlen : orig.datum.length = synth.datum.length) :
    ∃ entry, (Call.recording place index orig synth).reply names = .recorded place entry := by
  obtain ⟨linf, hlinf⟩ := Distance.linf_succeeds hne hlen
  obtain ⟨l1, hl1⟩ := Distance.l1_succeeds hlen
  unfold Call.reply SynthRecord.of
  simp only [List.getElem?_eq_getElem hplace, hlinf, hl1, Outcome.ok_bind]
  exact ⟨_, rfl⟩

/-- A record call with the registries of `names` open leaves everything as it was, or it adds one
    record to the registry it names. -/
theorem Call.recording_cases {names : List String} {b : Cabinet K}
    (hopened : b.registries.map (·.datasetName) = names) (name : String) (place : Nat) (index : Int)
    (orig synth : Labelled K) :
    let c := Call.recording place index orig synth
    (c.perform name b = (c.reply names, b) ∧ (c.reply names).made = []) ∨
      ∃ r entry, b.registries[place]? = some r ∧ c.reply names = .recorded place entry ∧
        c.perform name b = (.recorded place entry,
          ⟨(r.add b.folder entry).2, b.registries.set place (r.add b.folder entry).1⟩) := by
  intro c
  have hopen : names[place]? = (b.registries[place]?).map (·.datasetName) := by
    rw [← hopened, List.getElem?_map]
  cases hr : b.registries[place]? with
  | none =>
    have hreply : c.reply names = .absent := by
      simp only [c, Call.reply, hopen, hr, Option.map_none]
    rw [hreply]
    exact Or.inl ⟨by simp only [c, Call.perform, hr], rfl⟩
  | some r =>
    have hrecord : r.record b.folder index orig synth =
        SynthRecord.of r.datasetName index orig synth >>= fun entry =>
          .ok (entry, r.add b.folder entry) := rfl
    cases hentry : SynthRecord.of r.datasetName index orig synth with
    | error e =>
      have hreply : c.reply names = .refused e := by
        simp only [c, Call.reply, hopen, hr, Option.map_some, hentry]
      have hrefused : r.record b.folder index orig synth = .error e := by
        rw [hrecord, hentry]
        rfl
      rw [hreply]
      exact Or.inl ⟨by simp only [c, Call.perform, hr, hrefused], rfl⟩
    | ok entry =>
      rw [hentry, Outcome.ok_bind] at hrecord
      exact Or.inr ⟨r, entry, rfl,
        by simp only [c, Call.reply, hopen, hr, Option.map_some, hentry],
        by simp only [c, Call.perform, hr, hrecord]⟩

/-! ## The invariant -/

/-- What is left on a folder and in the registries open for the datasets `names`, after the records
    `made` through them. -/
structure Cabinet.Consistent (name : String) (folder : Folder K) (names : List String)
    (made : List (Nat × SynthRecord K)) (b : Cabinet K) : Prop where
  opened : b.registries.map (·.datasetName) = names
  shared : ∀ r ∈ b.registries, r.name = name ∧ r.file = some (name ++ ".csv")
  missing : names = [] → b.folder.table? (name ++ ".csv") = none
  table : names ≠ [] → b.folder.table? (name ++ ".csv") =
    some (SynthRecord.fieldNames.map .text :: made.map fun m => m.2.cells)
  others : ∀ other, other ≠ name ++ ".csv" → b.folder.table? other = folder.table? other
  places : ∀ m ∈ made, m.1 < names.length
  records : ∀ place r, b.registries[place]? = some r →
    r.records = (made.filter (·.1 = place)).map (·.2)

namespace Cabinet.Consistent

variable {name : String} {folder : Folder K} {names : List String}
  {made : List (Nat × SynthRecord K)} {b : Cabinet K}

omit [Scalar K] in
/-- It holds where nothing was opened yet, if the table does not exist. -/
theorem start (hnew : folder.table? (name ++ ".csv") = none) :
    Consistent name folder [] [] ⟨folder, []⟩ where
  opened := rfl
  shared _ hr := absurd hr List.not_mem_nil
  missing _ := hnew
  table hne := absurd rfl hne
  others _ _ := rfl
  places _ hm := absurd hm List.not_mem_nil
  records _ _ hr := by cases hr

omit [Scalar K] in
theorem length_eq (h : Consistent name folder names made b) :
    b.registries.length = names.length := by
  rw [← h.opened, List.length_map]

/-- An opening keeps it: the table is created if no registry was open, and is not touched otherwise. -/
theorem opening (h : Consistent name folder names made b) (datasetName : String) :
    Consistent name folder (names ++ [datasetName]) made
      ((Call.opening datasetName).perform name b).2 := by
  rw [Call.perform_opening]
  constructor
  case opened =>
    rw [List.map_append, h.opened]
    rfl
  case shared => exact List.forall_mem_append.2 ⟨h.shared, List.forall_mem_singleton.2 ⟨rfl, rfl⟩⟩
  case missing =>
    intro hnil
    exact absurd hnil (List.append_ne_nil_of_right_ne_nil _ (List.cons_ne_nil _ _))
  case table =>
    intro _
    rw [Folder.table?_ensure]
    cases hnames : names with
    | nil =>
      have hmade : made = [] := List.eq_nil_iff_forall_not_mem.2 fun m hm => by
        have hplace := h.places m hm
        rw [hnames] at hplace
        exact absurd hplace (Nat.not_lt_zero _)
      rw [h.missing hnames, hmade]
      rfl
    | cons first rest =>
      rw [h.table (hnames ▸ List.cons_ne_nil first rest)]
      rfl
  case others =>
    intro other hother
    exact (Folder.table?_ensure_ne _ hother).trans (h.others other hother)
  case places =>
    intro m hm
    rw [List.length_append]
    exact (h.places m hm).trans_le (Nat.le_add_right _ _)
  case records =>
    intro place r hr
    by_cases hlt : place < b.registries.length
    · rw [List.getElem?_append_left hlt] at hr
      exact h.records place r hr
    · -- the new registry has no records, and none was made through it
      have hplace : place = b.registries.length := by
        have hbound := (List.getElem?_eq_some_iff.1 hr).1
        rw [List.length_append, List.length_singleton] at hbound
        omega
      rw [hplace, List.getElem?_concat_length] at hr
      cases hr
      have hnone : made.filter (·.1 = place) = [] := List.filter_eq_nil_iff.2 fun m hm => by
        have hbefore := h.places m hm
        rw [← h.length_eq, ← hplace] at hbefore
        exact fun heq => absurd (of_decide_eq_true heq) (Nat.ne_of_lt hbefore)
      rw [hnone]
      rfl

omit [Scalar K] in
/-- A record keeps it: its row is appended to the table, and itself to one registry. -/
theorem entered (h : Consistent name folder names made b) {place : Nat} {r : Registry K}
    (hr : b.registries[place]? = some r) (entry : SynthRecord K) :
    Consistent name folder names (made ++ [(place, entry)])
      ⟨(r.add b.folder entry).2, b.registries.set place (r.add b.folder entry).1⟩ := by
  obtain ⟨hname, hfile⟩ := h.shared r (List.mem_of_getElem? hr)
  have hadd : r.add b.folder entry = ({ r with records := r.records ++ [entry] },
      b.folder.append (name ++ ".csv") entry.cells) := by
    unfold Registry.add
    rw [hfile]
  obtain ⟨hplace, hget⟩ := List.getElem?_eq_some_iff.1 hr
  have hlt : place < names.length := h.length_eq ▸ hplace
  rw [hadd]
  constructor
  case opened =>
    have hkept : b.registries.map (·.datasetName) =
        (b.registries.map (·.datasetName)).set place r.datasetName := by
      rw [← List.map_set, ← hget, List.set_getElem_self]
    rw [List.map_set, ← h.opened]
    exact hkept.symm
  case shared =>
    intro r' hr'
    rcases List.mem_or_eq_of_mem_set hr' with hr' | rfl
    · exact h.shared r' hr'
    · exact ⟨hname, hfile⟩
  case missing =>
    intro hnil
    rw [hnil] at hlt
    exact absurd hlt (Nat.not_lt_zero _)
  case table =>
    intro hne
    rw [Folder.table?_append, if_pos rfl, h.table hne, List.map_append]
    rfl
  case others =>
    intro other hother
    rw [Folder.table?_append, if_neg hother]
    exact h.others other hother
  case places => exact List.forall_mem_append.2 ⟨h.places, List.forall_mem_singleton.2 hlt⟩
  case records =>
    intro place' r' hr'
    rw [List.filter_append, List.map_append]
    by_cases hsame : place = place'
    · subst hsame
      rw [List.getElem?_set_self hplace] at hr'
      cases hr'
      rw [List.filter_singleton, ← h.records place r hr, decide_eq_true rfl]
      rfl
    · rw [List.getElem?_set_ne hsame] at hr'
      rw [h.records place' r' hr', List.filter_singleton, decide_eq_false hsame]
      exact (List.append_nil _).symm

/-- One call answers by what is open, and keeps the invariant with what it opened and recorded. -/
theorem perform (h : Consistent name folder names made b) (c : Call K) :
    (c.perform name b).1 = c.reply names ∧
      Consistent name folder (names ++ c.opens) (made ++ (c.reply names).made)
        (c.perform name b).2 := by
  cases c with
  | opening datasetName =>
    refine ⟨rfl, ?_⟩
    show Consistent name folder (names ++ [datasetName]) (made ++ []) _
    rw [List.append_nil]
    exact h.opening datasetName
  | recording place index orig synth =>
    show _ ∧ Consistent name folder (names ++ []) _ _
    rw [List.append_nil]
    rcases Call.recording_cases h.opened name place index orig synth with
      ⟨hperform, hmade⟩ | ⟨r, entry, hr, hreply, hperform⟩
    · rw [hperform, hmade, List.append_nil]
      exact ⟨rfl, h⟩
    · rw [hperform, hreply]
      exact ⟨rfl, h.entered hr entry⟩

/-- Every call of a run answers by what was opened before it, and the run keeps the invariant. -/
theorem run (h : Consistent name folder names made b) (calls : List (Call K)) :
    ((run name b calls).1.length = calls.length ∧ ∀ (i : Nat) (c : Call K), calls[i]? = some c →
      (run name b calls).1[i]? = some (c.reply (names ++ (calls.take i).flatMap Call.opens))) ∧
      Consistent name folder (names ++ calls.flatMap Call.opens)
        (made ++ (run name b calls).1.flatMap Reply.made) (run name b calls).2 := by
  induction calls generalizing names made b with
  | nil =>
    refine ⟨⟨rfl, fun i c hc => absurd hc (by simp)⟩, ?_⟩
    show Consistent name folder (names ++ []) (made ++ []) b
    rw [List.append_nil, List.append_nil]
    exact h
  | cons c calls ih =>
    obtain ⟨hreply, hnext⟩ := h.perform c
    obtain ⟨⟨hlen, hreplies⟩, hlast⟩ := ih hnext
    have hrun : Registry.run name b (c :: calls) =
        (c.reply names :: (Registry.run name (c.perform name b).2 calls).1,
          (Registry.run name (c.perform name b).2 calls).2) := by
      rw [← hreply]
      rfl
    rw [hrun, List.flatMap_cons, List.flatMap_cons, ← List.append_assoc, ← List.append_assoc]
    refine ⟨⟨congrArg Nat.succ hlen, fun i c' hc' => ?_⟩, hlast⟩
    cases i with
    | zero =>
      cases hc'
      rw [List.take_zero, List.flatMap_nil, List.append_nil]
      rfl
    | succ i =>
      rw [List.take_succ_cons, List.flatMap_cons, ← List.append_assoc]
      exact hreplies i c' hc'

end Cabinet.Consistent

/-- **Registries share a table without losing a row.**  On a folder without the table of a name, for
    any calls that open registries under that name or make records through those that are open:

    * a call answers by its own data and the registry it names, which is open if it was opened
      before, and a counterexample of one length with its item, which is not empty, is recorded;
    * with the first opening the table is there, and it consists of the header and the rows of the
      records that were made, by whichever registry, in the order of the calls; the registries have
      the records that were made through them, in that order;
    * read as text, the table gives the names of the fields and then, record by record, the texts of
      the values. -/
theorem share_table {folder : Folder K} {name : String}
    (hnew : folder.table? (name ++ ".csv") = none) (calls : List (Call K)) :
    ∃ replies b, Registry.run name ⟨folder, []⟩ calls = (replies, b) ∧
      (replies.length = calls.length ∧ ∀ (i : Nat) (c : Call K), calls[i]? = some c →
        replies[i]? = some (c.reply ((calls.take i).flatMap Call.opens))) ∧
      (∀ (names : List String) (place : Nat) (index : Int) (orig synth : Labelled K),
        place < names.length → orig.datum ≠ [] → orig.datum.length = synth.datum.length →
          ∃ entry, (Call.recording place index orig synth).reply names = .recorded place entry) ∧
      b.Consistent name folder (calls.flatMap Call.opens) (replies.flatMap Reply.made) ∧
      (calls.flatMap Call.opens ≠ [] → ∃ rows, b.folder.table? (name ++ ".csv") = some rows ∧
        Table.read (Table.render rows) = some (SynthRecord.fieldNames ::
          (replies.flatMap Reply.made).map fun m => m.2.cells.map Table.cellText)) := by
  obtain ⟨hreplies, hlast⟩ := (Cabinet.Consistent.start hnew).run calls
  refine ⟨_, _, rfl, hreplies, fun names place index orig synth hplace hne hlen =>
    Call.reply_recorded hplace index hne hlen, hlast, fun hne => ⟨_, hlast.table hne, ?_⟩⟩
  rw [Table.read_render]
  · rw [List.map_cons, List.map_map, List.map_map]
    exact congrArg some (congrArg₂ List.cons (List.map_id _) rfl)
  · intro row hrow
    rcases List.mem_cons.1 hrow with rfl | hrow
    · exact List.cons_ne_nil _ _
    · obtain ⟨m, -, rfl⟩ := List.mem_map.1 hrow
      exact List.cons_ne_nil _ _

namespace Relay

/-- An item, and a counterexample close to it. -/
def item : Labelled Rat := ⟨[1, 2], 0, 1, 3 / 4, 1 / 2⟩

def found : Labelled Rat := ⟨[1, 5 / 2], 1, 0, 2 / 3, 1 / 3⟩

/-- Two registries are opened and take turns; a third is named that was never opened. -/
def calls : List (Call Rat) :=
  [.opening "digits", .recording 0 3 item found, .opening "digits, cropped",
    .recording 1 5 item found, .recording 0 4 item found, .recording 2 6 item found]

/-- The rows stand in the order of the calls, each under the name of its dataset, and a comma in
    one of the names does not add a field. -/
theorem share_table_relay : Folder.table? ([] : Folder Rat) ("relay" ++ ".csv") = none ∧
    ∃ replies b, Registry.run "relay" ⟨[], []⟩ calls = (replies, b) ∧
      b.registries.map (fun r => r.records.map (·.datasetIndex)) = [[3, 4], [5]] ∧
      ∃ rows, b.folder.table? ("relay" ++ ".csv") = some rows ∧
        (Table.read (Table.render rows)).map (fun t => t.map fun r => r.take 2) =
          some [["dataset_name", "dataset_index"], ["digits", "3"], ["digits, cropped", "5"],
            ["digits", "4"]] := by
  have hnew : Folder.table? ([] : Folder Rat) ("relay" ++ ".csv") = none := rfl
  obtain ⟨replies, b, hrun, -, -, -, htext⟩ := share_table hnew calls
  have hreplies : (Registry.run "relay" ⟨[], []⟩ calls).1 = replies := by rw [hrun]
  have hb : (Registry.run "relay" ⟨[], []⟩ calls).2 = b := by rw [hrun]
  obtain ⟨rows, hrows, hread⟩ := htext (by decide)
  refine ⟨hnew, replies, b, hrun, ?_, rows, hrows, ?_⟩
  · rw [← hb]
    decide +kernel
  · rw [hread, ← hreplies]
    decide +kernel

end Relay

end Registry

end Perturb
