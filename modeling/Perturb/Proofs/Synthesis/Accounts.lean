/-
  The accounts of a batch.

  A batch keeps eight counters, a list of results, a registry, a listener and a table of
  differences.  They are written on five different exits and never compared.  `Accounts` says that
  they agree, for a run that was not cut short, whatever mixture of skips, faults, failures and
  finds it met.

  1. **The table of differences** — one entry for each pair of labels, with the difference that was
     found first and the number of finds (`lookup_foldl_addDiff`); the numbers add up to all finds.

  2. **Sums** — a counter of a total is a sum over the visits, and a sum over the visits of what
     only some of them have is a sum over those (`sum_getD`).

  3. **The accounts** — `run_accounts`.  All of it is read off the books: THE CRUX is that the
     results, the calls of the listener, the new records and the table are all made from the same
     list, the hits in the order in which they were visited.

  The number of items is the share of the dataset, rounded; a share below zero asks for no item at
  all (`run_asks_for_none`).
-/
import Mathlib.Data.List.Induction
import Perturb.Proofs.Synthesis.Attempt
import Perturb.Proofs.Synthesis.Visits

namespace Perturb

namespace Batch

/-! ## The table of differences -/

section

variable {K : Type}

/-- Counting a difference changes the entry of its pair, and makes one if there is none. -/
theorem lookup_addDiff (key other : Nat × Nat) (diff : List K)
    (ds : List ((Nat × Nat) × DiffInfo K)) :
    (addDiff key diff ds).lookup other =
      if other = key then some (match ds.lookup key with
        | none => ⟨diff, 1⟩
        | some info => { info with number := info.number + 1 })
      else ds.lookup other := by
  have hbeq : ∀ {k l : Nat × Nat}, k ≠ l → (k == l) = false := beq_eq_false_iff_ne.2
  induction ds with
  | nil =>
    unfold addDiff
    by_cases h : other = key
    · simp [h]
    · simp [List.lookup_cons, h, hbeq h]
  | cons entry ds ih =>
    obtain ⟨k, info⟩ := entry
    unfold addDiff
    by_cases hk : k = key
    · rw [if_pos hk, hk]
      by_cases h : other = key
      · simp [h]
      · simp [List.lookup_cons, h, hbeq h]
    · rw [if_neg hk, List.lookup_cons, ih]
      by_cases h : other = key
      · subst h
        simp [List.lookup_cons, hbeq (Ne.symm hk)]
      · simp only [if_neg h, List.lookup_cons]

/-- The pairs that have an entry are not changed, except for one that may come behind them. -/
theorem keys_addDiff (key : Nat × Nat) (diff : List K) (ds : List ((Nat × Nat) × DiffInfo K)) :
    (addDiff key diff ds).map (·.1) =
      if key ∈ ds.map (·.1) then ds.map (·.1) else ds.map (·.1) ++ [key] := by
  induction ds with
  | nil => rfl
  | cons entry ds ih =>
    obtain ⟨k, info⟩ := entry
    unfold addDiff
    by_cases hk : k = key
    · rw [if_pos hk, hk]
      simp
    · rw [if_neg hk, List.map_cons, ih]
      by_cases hmem : key ∈ ds.map (·.1)
      · simp [hmem]
      · simp [hmem, Ne.symm hk]

/-- The numbers add up to one more. -/
theorem sum_addDiff (key : Nat × Nat) (diff : List K) (ds : List ((Nat × Nat) × DiffInfo K)) :
    ((addDiff key diff ds).map (·.2.number)).sum = (ds.map (·.2.number)).sum + 1 := by
  induction ds with
  | nil => rfl
  | cons entry ds ih =>
    obtain ⟨k, info⟩ := entry
    unfold addDiff
    by_cases hk : k = key
    · rw [if_pos hk]
      simp only [List.map_cons, List.sum_cons]
      omega
    · rw [if_neg hk]
      simp only [List.map_cons, List.sum_cons, ih]
      omega

variable [Scalar K]

/-- The table of the differences of several hits. -/
def diffsOf (found : List (Hit K)) : List ((Nat × Nat) × DiffInfo K) :=
  found.foldl (fun ds h => addDiff h.key h.diff ds) []

theorem diffsOf_concat (found : List (Hit K)) (h : Hit K) :
    diffsOf (found ++ [h]) = addDiff h.key h.diff (diffsOf found) := by
  unfold diffsOf
  rw [List.foldl_append]
  rfl

/-- **The entry of a pair** has the difference that was found first, and the number of finds. -/
theorem lookup_diffsOf (found : List (Hit K)) (key : Nat × Nat) :
    (diffsOf found).lookup key = (found.find? fun h => h.key = key).map fun h =>
      ⟨h.diff, found.countP fun h => h.key = key⟩ := by
  induction found using List.reverseRecOn with
  | nil => rfl
  | append_singleton found h ih =>
    rw [diffsOf_concat, lookup_addDiff, List.find?_append, List.countP_append]
    by_cases hkey : key = h.key
    · subst hkey
      rw [if_pos rfl, ih]
      cases hfind : found.find? fun h' => h'.key = h.key with
      | none =>
        have hzero : found.countP (fun h' => h'.key = h.key) = 0 :=
          List.countP_eq_zero.2 (List.find?_eq_none.1 hfind)
        simp [hzero]
      | some first => simp
    · rw [if_neg hkey, ih]
      simp [Ne.symm hkey]

/-- No pair has two entries. -/
theorem nodup_keys_diffsOf (found : List (Hit K)) : ((diffsOf found).map (·.1)).Nodup := by
  induction found using List.reverseRecOn with
  | nil => exact List.nodup_nil
  | append_singleton found h ih =>
    rw [diffsOf_concat, keys_addDiff]
    split
    · exact ih
    · rename_i hnew
      rw [← List.concat_eq_append]
      exact ih.concat hnew

/-- The numbers add up to all finds. -/
theorem sum_diffsOf (found : List (Hit K)) :
    ((diffsOf found).map (·.2.number)).sum = found.length := by
  induction found using List.reverseRecOn with
  | nil => rfl
  | append_singleton found h ih => rw [diffsOf_concat, sum_addDiff, ih, List.length_append]; rfl

/-- A pair has an entry with a number exactly if it was found so often, and at all. -/
theorem exists_number_iff (found : List (Hit K)) (key : Nat × Nat) {k : Nat} (hk : 0 < k) :
    (∃ info, (diffsOf found).lookup key = some info ∧ info.number = k) ↔
      (found.countP fun h => h.key = key) = k := by
  rw [lookup_diffsOf]
  constructor
  · rintro ⟨info, hinfo, rfl⟩
    obtain ⟨h, -, rfl⟩ := Option.map_eq_some_iff.1 hinfo
    rfl
  · rintro rfl
    obtain ⟨h, hmem, hkey⟩ := List.countP_pos_iff.1 hk
    have hsome : (found.find? fun h => h.key = key).isSome := List.find?_isSome.2 ⟨h, hmem, hkey⟩
    obtain ⟨first, hfirst⟩ := Option.isSome_iff_exists.1 hsome
    exact ⟨_, by rw [hfirst]; rfl, rfl⟩

end

/-! ## Sums -/

/-- What some of the entries of a list have, nothing standing for those that do not have it, adds
    up to what those have that do. -/
theorem sum_getD {α β : Type} (g : α → Option β) (f : β → Int) (xs : List α) :
    (xs.map fun x => ((g x).map f).getD 0).sum = ((xs.filterMap g).map f).sum := by
  induction xs with
  | nil => rfl
  | cons x xs ih =>
    rw [List.map_cons, List.sum_cons, ih]
    cases hx : g x with
    | none =>
      rw [List.filterMap_cons_none hx]
      exact Int.zero_add _
    | some y =>
      rw [List.filterMap_cons_some hx]
      rfl

/-! ## Finds -/

namespace Visit

variable {K : Type}

/-- A hit is that of an attempt that found something. -/
theorem hit?_eq_some {v : Visit K} {h : Hit K} (hhit : v.hit? = some h) :
    h.index = v.index ∧ h.trueLabel = v.trueLabel ∧ ∃ r, v.answer = .ok (h.lab, r) ∧
      r.verdict = .found ∧ r.counterexample = some h.ce ∧ r.unrounded = some h.unrounded := by
  unfold hit? at hhit
  split at hhit
  · cases hhit
  · rename_i lab r hanswer
    split at hhit
    · rename_i ce u hverdict hce hu
      cases hhit
      exact ⟨rfl, rfl, r, hanswer, hverdict, hce, hu⟩
    · cases hhit

end Visit

/-- The hits are in the order of the visits. -/
theorem hits_sublist {K : Type} (visits : List (Visit K)) :
    ((hits visits).map Hit.index).Sublist (visits.map Visit.index) := by
  unfold hits
  induction visits with
  | nil => exact .slnil
  | cons v visits ih =>
    cases hhit : v.hit? with
    | none =>
      rw [List.filterMap_cons_none hhit]
      exact ih.cons v.index
    | some h =>
      rw [List.filterMap_cons_some hhit, List.map_cons, (Visit.hit?_eq_some hhit).1]
      exact ih.cons_cons v.index

section

variable {E S F K : Type} [Exponential K] [Engine E K] [Source S K] {plan : Plan E S F K}
  {ds : Dataset K} {f f' : F} {v : Visit K}

/-- An attempt that found something is a hit. -/
theorem Visited.isSome_hit? (h : Visited plan ds f v f') {lab : Labelled K} {r : AttemptResult K}
    (hanswer : v.answer = .ok (lab, r)) (hfound : r.verdict = .found) : v.hit?.isSome := by
  obtain ⟨datum, draws, events, -, hattempt, -⟩ := h
  rw [hanswer] at hattempt
  obtain ⟨ce, u, hce, hu, -⟩ := attempt_answers hattempt hfound
  unfold Visit.hit?
  simp only [hanswer, hfound, hce, hu, Option.isSome_some]

/-- An item is counted as found exactly if there is a hit. -/
theorem Visited.share_found (h : Visited plan ds f v f') :
    v.share.found = ((v.hit?.map fun _ => (1 : Int)).getD 0) := by
  cases hhit : v.hit? with
  | some x =>
    obtain ⟨-, -, r, hanswer, hverdict, -, -⟩ := Visit.hit?_eq_some hhit
    unfold Visit.share
    simp only [hanswer, hverdict, Option.map_some, Option.getD_some]
  | none =>
    unfold Visit.share
    split
    · rfl
    · rename_i lab r hanswer
      dsimp only
      split
      · split <;> rfl
      · rename_i hverdict
        have hsome := h.isSome_hit? hanswer hverdict
        rw [hhit] at hsome
        cases hsome
      · rfl

/-- A hit is about an item of the dataset with the true label, and the counterexample has another
    one. -/
theorem Visited.answers (h : Visited plan ds f v f') {x : Hit K} (hhit : v.hit? = some x) :
    ds.label (Int.ofNat x.index) = .ok x.trueLabel ∧
      Attempt.Answers x.lab x.trueLabel x.ce x.unrounded := by
  obtain ⟨hindex, htrue, r, hanswer, hverdict, hce, hu⟩ := Visit.hit?_eq_some hhit
  obtain ⟨datum, draws, events, hfetch, hattempt, -⟩ := h
  rw [hanswer] at hattempt
  obtain ⟨ce, u, hce', hu', hanswers⟩ := attempt_answers hattempt hverdict
  cases hce.symm.trans hce'
  cases hu.symm.trans hu'
  rw [hindex, htrue]
  exact ⟨(label_of_fetch hfetch).1, hanswers⟩

end

/-! ## Records -/

section

variable {K : Type} [Scalar K]

/-- A record has the index and the labels of what it is the record of. -/
theorem parts_of_record {name : String} {i : Int} {orig synth : Labelled K}
    {entry : SynthRecord K} (h : SynthRecord.of name i orig synth = .ok entry) :
    entry.datasetIndex = i ∧ entry.origLabel = orig.label ∧ entry.synthLabel = synth.label := by
  unfold SynthRecord.of at h
  obtain ⟨linf, -, h⟩ := Outcome.bind_ok_iff.1 h
  obtain ⟨l1, -, h⟩ := Outcome.bind_ok_iff.1 h
  cases h
  exact ⟨rfl, rfl, rfl⟩

/-- The new records of a registry that enrolled some hits, index and labels. -/
theorem map_records {name : String} {found : List (Hit K)} {new : List (SynthRecord K)}
    (h : List.Forall₂ (fun h entry =>
      SynthRecord.of name (Int.ofNat h.index) h.lab h.ce = .ok entry) found new) :
    new.map (fun e => (e.datasetIndex, e.origLabel, e.synthLabel)) =
      found.map fun h => (Int.ofNat h.index, (h.lab.label : Int), (h.ce.label : Int)) := by
  induction h with
  | nil => rfl
  | cons hone _ ih =>
    obtain ⟨hindex, horig, hsynth⟩ := parts_of_record hone
    rw [List.map_cons, List.map_cons, ih, hindex, horig, hsynth]

/-- Records that agree with what a batch reports: there is one for each result, in the same order;
    each has the item's true label and another one; and a pair of labels has an entry in the table
    of differences, with a number, exactly if it has so many records. -/
structure Entered (ds : Dataset K) (b : Batch K) (new : List (SynthRecord K)) : Prop where
  count : b.stats.found = new.length
  indices : new.map (·.datasetIndex) = b.results.map fun e => Int.ofNat e.1
  labels : ∀ e ∈ new, ds.label e.datasetIndex = .ok e.origLabel ∧ e.synthLabel ≠ e.origLabel
  differences : ∀ a b' k : Nat, 0 < k →
    ((∃ info, b.diffs.lookup (a, b') = some info ∧ info.number = k) ↔
      new.countP (fun e => e.origLabel = (a : Int) ∧ e.synthLabel = (b' : Int)) = k)

/-- Records of hits agree with what is reported of these hits. -/
theorem entered_of_records {ds : Dataset K} {b : Batch K} {name : String} {found : List (Hit K)}
    {new : List (SynthRecord K)} (hrecords : List.Forall₂ (fun h entry =>
      SynthRecord.of name (Int.ofNat h.index) h.lab h.ce = .ok entry) found new)
    (hcount : b.stats.found = found.length) (hresults : b.results = found.map Hit.result)
    (hdiffs : b.diffs = diffsOf found)
    (hanswers : ∀ h ∈ found, ds.label (Int.ofNat h.index) = .ok h.trueLabel ∧
      h.trueLabel = Int.ofNat h.lab.label ∧ h.ce.label ≠ h.lab.label) : Entered ds b new := by
  have hmap := map_records hrecords
  constructor
  case count => rw [hcount, hrecords.length_eq]
  case indices =>
    have hindices := congrArg (List.map (·.1)) hmap
    rw [List.map_map, List.map_map] at hindices
    rw [hresults, List.map_map]
    exact hindices
  case labels =>
    intro e he
    have hmem := List.mem_map_of_mem (f := fun e : SynthRecord K =>
      (e.datasetIndex, e.origLabel, e.synthLabel)) he
    rw [hmap] at hmem
    obtain ⟨h, hh, heq⟩ := List.mem_map.1 hmem
    obtain ⟨hindex, hlabels⟩ := Prod.mk.inj heq
    obtain ⟨horig, hsynth⟩ := Prod.mk.inj hlabels
    obtain ⟨hlabel, htrue, hne⟩ := hanswers h hh
    rw [← hindex, ← horig, ← hsynth]
    refine ⟨hlabel.trans (congrArg Except.ok htrue), fun hsame => hne ?_⟩
    exact Int.ofNat.inj hsame
  case differences =>
    intro a b' k hk
    have hsame : new.countP (fun e => e.origLabel = (a : Int) ∧ e.synthLabel = (b' : Int)) =
        found.countP fun h => h.key = (a, b') := by
      have hcountP := congrArg
        (List.countP fun e : Int × Int × Int => e.2.1 = (a : Int) ∧ e.2.2 = (b' : Int)) hmap
      rw [List.countP_map, List.countP_map] at hcountP
      refine hcountP.trans (List.countP_congr fun h _ => ?_)
      simp [Hit.key]
    rw [hsame, hdiffs]
    exact exists_number_iff found (a, b') hk

end

/-! ## The accounts -/

section

variable {E S F K : Type} [Exponential K] [Engine E K] [Source S K]

/-- What a batch reports of its visits agrees, if `count` items were asked for and it started with
    this registry and this listener:

    * every item is counted once, under one heading;
    * the results are the finds, in the order of the items, with the true labels;
    * listener, registry and differences know of the same finds, and of no others;
    * promotions and rounds are those of the attempts that gave a result. -/
structure Accounts (ds : Dataset K) (count : Int) (visits : List (Visit K))
    (registry : Option (Registry K)) (listener : Option (Listener K)) (b : Batch K) : Prop where
  processed : b.stats.processed = max count 0
  headings : b.stats.processed = b.stats.skippedMisclassified + b.stats.skippedLowConfidence +
    b.stats.found + b.stats.aborted + b.stats.errored
  found : b.stats.found = b.results.length
  results : b.results = (hits visits).map Hit.result
  increasing : (b.results.map (·.1)).Pairwise (· < ·)
  labels : ∀ e ∈ b.results, ds.label (Int.ofNat e.1) = .ok e.2.2
  told : Option.Rel (fun l l' => l'.heard = l.heard ++ b.results) listener b.listener
  recorded : Option.Rel (fun r r' => ∃ new, r'.records = r.records ++ new ∧ Entered ds b new)
    registry b.registry
  keys : (b.diffs.map (·.1)).Nodup
  numbers : (b.diffs.map (·.2.number)).sum = b.results.length
  promoted : b.stats.promoted =
    ((visits.filterMap Visit.result?).map fun r => Int.ofNat r.promoted).sum
  rounds : b.stats.rounds =
    ((visits.filterMap Visit.result?).map fun r => Int.ofNat (r.iterations - 1)).sum

variable {plan : Plan E S F K} {ds : Dataset K} {count : Int} {registry : Option (Registry K)}
  {folder : Folder K} {listener : Option (Listener K)} {factory factory' : F}
  {visits : List (Visit K)} {b b' : Batch K}

/-- **The accounts agree** if the books are those of visits to all the items asked for. -/
theorem accounts_of_books (hvisits : Visits plan ds factory visits factory')
    (hbooks : Books visits ((start registry folder).toldTo listener) b)
    (hindices : visits.map Visit.index = List.range visits.length)
    (hlength : visits.length = count.toNat) : Accounts ds count visits registry listener b := by
  have hresults : b.results = (hits visits).map Hit.result := hbooks.results
  have hdiffs : b.diffs = diffsOf (hits visits) := hbooks.diffs
  have hanswers : ∀ h ∈ hits visits, ds.label (Int.ofNat h.index) = .ok h.trueLabel ∧
      h.trueLabel = Int.ofNat h.lab.label ∧ h.ce.label ≠ h.lab.label := by
    intro h hh
    obtain ⟨v, hv, hhit⟩ := List.mem_filterMap.1 hh
    obtain ⟨g, g', hvisited⟩ := hvisits.exists_visited hv
    obtain ⟨hlabel, hanswers⟩ := hvisited.answers hhit
    exact ⟨hlabel, hanswers.truth, hanswers.differs⟩
  have hprocessed : b.stats.processed = visits.length := by
    have hcounter := hbooks.counter_of_one (f := Stats.processed) (fun _ _ => rfl)
      fun v _ => v.counted_share.processed
    exact hcounter.trans (Int.zero_add _)
  have hfound : b.stats.found = (hits visits).length := by
    have hcounter := hbooks.counter (f := Stats.found) (fun _ _ => rfl) fun v hv => by
      obtain ⟨g, g', hvisited⟩ := hvisits.exists_visited hv
      exact hvisited.share_found
    have hones : ((hits visits).map fun _ => (1 : Int)).sum = (hits visits).length := by simp
    rw [sum_getD] at hcounter
    exact (hcounter.trans (Int.zero_add _)).trans hones
  constructor
  case processed => omega
  case headings =>
    have hcounter := hbooks.counter_of_one Stats.headings_plus
      fun v _ => v.counted_share.headings
    exact hprocessed.trans (hcounter.trans (Int.zero_add _)).symm
  case found => rw [hfound, hresults, List.length_map]
  case results => exact hresults
  case increasing =>
    rw [hresults, List.map_map]
    exact (hindices ▸ List.pairwise_lt_range).sublist (hits_sublist visits)
  case labels =>
    intro e he
    rw [hresults] at he
    obtain ⟨h, hh, rfl⟩ := List.mem_map.1 he
    exact (hanswers h hh).1
  case told =>
    rw [hresults]
    exact rel_mono (fun h => h.heard) hbooks.listener
  case recorded =>
    refine rel_mono (fun h => ?_) hbooks.registry
    obtain ⟨new, hrecords, hnew⟩ := h.records
    exact ⟨new, hrecords, entered_of_records hnew hfound hresults hdiffs hanswers⟩
  case keys => exact hdiffs ▸ nodup_keys_diffsOf (hits visits)
  case numbers => rw [hdiffs, sum_diffsOf, hresults, List.length_map]
  case promoted =>
    have hcounter := hbooks.counter (f := Stats.promoted) (fun _ _ => rfl)
      fun v _ => v.counted_share.promoted
    rw [sum_getD] at hcounter
    exact hcounter.trans (Int.zero_add _)
  case rounds =>
    have hcounter := hbooks.counter (f := Stats.rounds) (fun _ _ => rfl)
      fun v _ => v.counted_share.rounds
    rw [sum_getD] at hcounter
    exact hcounter.trans (Int.zero_add _)

/-- **A batch that returns** has visited the share of the dataset that it was asked for, item by
    item, and its accounts agree. -/
theorem run_accounts
    (h : run plan ds ((start registry folder).toldTo listener, factory) = .ok () (b, factory')) :
    ∃ count visits,
      Scalar.nearest? (Scalar.ofNat ds.size * plan.settings.percentage) = some count ∧
      Visits plan ds factory visits factory' ∧ visits.map Visit.index = List.range count.toNat ∧
      (∀ v ∈ visits, ∀ lab r, v.answer = .ok (lab, r) → r.verdict = .found → v.hit?.isSome) ∧
      Accounts ds count visits registry listener b := by
  cases hcount : itemCount plan.settings ds with
  | error e =>
    unfold run at h
    rw [hcount] at h
    cases h
  | ok count =>
    have hnearest : Scalar.nearest? (Scalar.ofNat ds.size * plan.settings.percentage) =
        some count := by
      unfold itemCount at hcount
      dsimp only at hcount
      split at hcount
      · rename_i n hn
        cases hcount
        exact hn
      · split at hcount <;> cases hcount
    obtain ⟨visits, f', b', hvisits, hbooks, hindices, hend⟩ :=
      run_cases hcount ((start registry folder).toldTo listener) factory
    rcases hend with ⟨hlength, hok⟩ | ⟨-, e, s, -, herror⟩
    · cases h.symm.trans hok
      have hfinds : ∀ v ∈ visits, ∀ lab r, v.answer = .ok (lab, r) → r.verdict = .found →
          v.hit?.isSome := by
        intro v hv lab r hanswer hfound
        obtain ⟨g, g', hvisited⟩ := hvisits.exists_visited hv
        exact hvisited.isSome_hit? hanswer hfound
      exact ⟨count, visits, hnearest, hvisits, hlength ▸ hindices, hfinds,
        accounts_of_books hvisits hbooks.log hindices hlength⟩
    · cases h.symm.trans herror

end

/-! ### A batch to look at -/

namespace Ones

attribute [local instance] Transcendental.flat

/-- Attempts on the ramp, each with a solver of its own that answers with minus three halves; this
    is rounded to minus two, which has the other label. -/
def plan (percentage : Rat) : Plan (Script Rat) (Cyclic Rat) Nat Rat where
  net := Net.Ramp.net
  settings := { Attempt.plain with
    percentage, epsilon := 4, minValue := -5, maxValue := 5, quantized := true }
  create made := ([], .ok (.of [.answer ⟨.optimal, some [-3 / 2, 0]⟩]), made + 1)
  draws _ := .ok Attempt.Ramp.draws

/-- Three times the input one, the second time with a wrong label. -/
def ds : Dataset Rat := ⟨.held [[1], [1], [1]], [0, 1, 0], 2, "ones", none⟩

/-- A registry without records. -/
def registry : Registry Rat := .detached "registry" "ones"

/-- A listener who never objects. -/
def listener : Listener Rat := ⟨[], fun _ _ => .ok ()⟩

/-- The items found and the number of items processed, for a share of the dataset. -/
def reported (percentage : Rat) : Option (List Nat × Int) :=
  match run (plan percentage) ds ((start (some registry) []).toldTo (some listener), 0) with
  | .ok () (b, _) => some (b.results.map (·.1), b.stats.processed)
  | .error _ _ => none

theorem run_of_reported {percentage : Rat} {indices : List Nat} {processed : Int}
    (h : reported percentage = some (indices, processed)) :
    ∃ b made, run (plan percentage) ds ((start (some registry) []).toldTo (some listener), 0) =
        .ok () (b, made) ∧ b.results.map (·.1) = indices ∧ b.stats.processed = processed := by
  unfold reported at h
  split at h
  · rename_i b made hrun
    cases h
    exact ⟨b, made, hrun, rfl, rfl⟩
  · cases h

/-- The first and the third item are found. -/
theorem run_accounts_ones : ∃ b made count visits,
    run (plan 1) ds ((start (some registry) []).toldTo (some listener), 0) = .ok () (b, made) ∧
      b.results.map (·.1) = [0, 2] ∧ visits.map Visit.index = [0, 1, 2] ∧
      Accounts ds count visits (some registry) (some listener) b := by
  have hreported : reported 1 = some ([0, 2], 3) := by cbv
  obtain ⟨b, made, hrun, hresults, -⟩ := run_of_reported hreported
  obtain ⟨count, visits, hcount, -, hindices, -, haccounts⟩ := run_accounts hrun
  have hthree : Scalar.nearest? (Scalar.ofNat ds.size * (plan 1).settings.percentage) = some 3 := by
    cbv
  cases hcount.symm.trans hthree
  exact ⟨b, made, 3, visits, hrun, hresults, hindices, haccounts⟩

/-- **Asked for minus a half of three items**, a batch processes none, and not minus two. -/
theorem run_asks_for_none : ∃ b made count,
    run (plan (-1 / 2)) ds ((start (some registry) []).toldTo (some listener), 0) =
      .ok () (b, made) ∧
    Scalar.nearest? (Scalar.ofNat ds.size * (plan (-1 / 2)).settings.percentage) = some count ∧
    b.stats.processed ≠ count := by
  have hreported : reported (-1 / 2) = some ([], 0) := by cbv
  obtain ⟨b, made, hrun, -, hprocessed⟩ := run_of_reported hreported
  have hcount : Scalar.nearest? (Scalar.ofNat ds.size * (plan (-1 / 2)).settings.percentage) =
      some (-2) := by cbv
  refine ⟨b, made, -2, hrun, hcount, ?_⟩
  rw [hprocessed]
  decide

end Ones

end Batch

end Perturb
