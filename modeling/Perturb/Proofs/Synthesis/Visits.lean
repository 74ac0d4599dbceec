/-
  What a batch has visited, and what it reports of it.

  1. **Counters** — `Stats.plus` adds counters; a counter of a total is the sum of the counters
     (`Stats.foldl_plus`).

  2. **Visits** — `Visit` is an item that was fetched and what its attempt answered, `Visits` that
     several of them were made one after the other, each with the solvers the one before it left.
     A visit says what it contributes: its share of the counters, and its `Hit` if something was
     found.

  3. **Books** — `Books visits b b'` says that a batch went from `b` to `b'` by filing these visits
     and nothing else.  It is reflexive and transitive (`Books.trans`), so it is proved of one visit
     and holds of all.

  4. **Runs** — `item_cases` and `items_cases`: an item is visited and filed, or the batch halts
     there.  THE CRUX is that filing cannot fail by itself: what is found answers the question that
     was asked (`Attempt.run_answers`), so the distances of a record exist, and only the listener is
     left to raise a fault (`file_cases`).  `Halts` lists the three ways in which a batch ends
     early, and `run_cases` puts a whole run together.
-/
import Mathlib.Algebra.Order.Group.Int
import Mathlib.Data.List.Forall2
import Perturb.Proofs.Synthesis.Answer
import Perturb.Synthesis.Batch

namespace Perturb

/-! ## Counters -/

namespace Stats

/-- Counters added to counters. -/
def plus (s t : Stats) : Stats where
  processed := s.processed + t.processed
  skippedMisclassified := s.skippedMisclassified + t.skippedMisclassified
  skippedLowConfidence := s.skippedLowConfidence + t.skippedLowConfidence
  found := s.found + t.found
  aborted := s.aborted + t.aborted
  errored := s.errored + t.errored
  rounds := s.rounds + t.rounds
  promoted := s.promoted + t.promoted

/-- What is counted under one of the five headings of an item that was processed. -/
def headings (s : Stats) : Int :=
  s.skippedMisclassified + s.skippedLowConfidence + s.found + s.aborted + s.errored

theorem headings_plus (s t : Stats) : (s.plus t).headings = s.headings + t.headings := by
  unfold headings plus
  dsimp only
  omega

/-- A count that is added when counters are added is, in a total, the sum of the counts. -/
theorem foldl_plus {f : Stats → Int} (hf : ∀ s t, f (s.plus t) = f s + f t) (s : Stats)
    (ts : List Stats) : f (ts.foldl plus s) = f s + (ts.map f).sum := by
  induction ts generalizing s with
  | nil => exact (Int.add_zero _).symm
  | cons t ts ih =>
    rw [List.foldl_cons, ih, hf, List.map_cons, List.sum_cons]
    exact Int.add_assoc ..

end Stats

namespace Batch

/-! ## Visits -/

/-- A found item: its index, its true label, what the network says of it, the counterexample, and
    the point that was made from. -/
structure Hit (K : Type) where
  index : Nat
  trueLabel : Int
  lab : Labelled K
  ce : Labelled K
  unrounded : List K

namespace Hit

variable {K : Type}

/-- The labels of the item and of the counterexample. -/
def key (h : Hit K) : Nat × Nat := (h.lab.label, h.ce.label)

/-- How far the point is from the item. -/
def diff [Scalar K] (h : Hit K) : List K := List.zipWith (· - ·) h.unrounded h.lab.datum

/-- The result that is reported. -/
def result (h : Hit K) : Nat × Labelled K × Int := (h.index, h.ce, h.trueLabel)

end Hit

/-- An item that was fetched, and what its attempt answered. -/
structure Visit (K : Type) where
  index : Nat
  trueLabel : Int
  answer : Outcome (Labelled K × AttemptResult K)

namespace Visit

variable {K : Type}

/-- The result of the attempt, if there is one. -/
def result? (v : Visit K) : Option (AttemptResult K) := v.answer.toOption.map (·.2)

/-- What was found, if anything was. -/
def hit? (v : Visit K) : Option (Hit K) :=
  match v.answer with
  | .error _ => none
  | .ok (lab, r) =>
    match r.verdict, r.counterexample, r.unrounded with
    | .found, some ce, some u => some ⟨v.index, v.trueLabel, lab, ce, u⟩
    | _, _, _ => none

/-- What the visit adds to the counters.  An attempt that failed is counted as processed and as an
    error and nowhere else. -/
def share (v : Visit K) : Stats :=
  match v.answer with
  | .error _ => { Stats.zero with processed := 1, errored := 1 }
  | .ok (_, r) =>
    let counted := { Stats.zero with
      processed := 1
      rounds := Int.ofNat (r.iterations - 1)
      promoted := Int.ofNat r.promoted }
    match r.verdict with
    | .skipped =>
      if r.reason = .misclassified then { counted with skippedMisclassified := 1 }
      else { counted with skippedLowConfidence := 1 }
    | .found => { counted with found := 1 }
    | .aborted => { counted with aborted := 1 }

/-- Counters that count a visit once, under one heading: as an error if there is no result, and
    with the promotions and the rounds of the result if there is one. -/
structure Counted (v : Visit K) (s : Stats) : Prop where
  processed : s.processed = 1
  headings : s.headings = 1
  errored : s.errored = if v.answer.toOption.isNone then 1 else 0
  promoted : s.promoted = (v.result?.map fun r => Int.ofNat r.promoted).getD 0
  rounds : s.rounds = (v.result?.map fun r => Int.ofNat (r.iterations - 1)).getD 0

/-- The share of a visit counts it once. -/
theorem counted_share (v : Visit K) : v.Counted v.share := by
  obtain ⟨index, trueLabel, answer⟩ := v
  cases answer with
  | error e => exact ⟨rfl, rfl, rfl, rfl, rfl⟩
  | ok found =>
    obtain ⟨lab, r⟩ := found
    unfold share
    dsimp only
    split
    · split <;> exact ⟨rfl, rfl, rfl, rfl, rfl⟩
    · exact ⟨rfl, rfl, rfl, rfl, rfl⟩
    · exact ⟨rfl, rfl, rfl, rfl, rfl⟩

end Visit

/-- What was found on several visits. -/
def hits {K : Type} (visits : List (Visit K)) : List (Hit K) := visits.filterMap Visit.hit?

section

variable {E S F K : Type} [Exponential K] [Engine E K] [Source S K]

/-- An item was fetched and attempted, with the solvers made from `f` on, which left `f'`; and its
    answer is not a fault that would befall every other item too. -/
def Visited (plan : Plan E S F K) (ds : Dataset K) (f : F) (v : Visit K) (f' : F) : Prop :=
  ∃ datum draws events, fetch plan ds v.index = .ok (datum, v.trueLabel, draws) ∧
    attempt plan datum v.trueLabel draws f = (events, v.answer, f') ∧
    ∀ e, v.answer = .error e → e.kind ≠ .mismatch

/-- Visits that were made one after the other. -/
inductive Visits (plan : Plan E S F K) (ds : Dataset K) : F → List (Visit K) → F → Prop
  | nil {f : F} : Visits plan ds f [] f
  | cons {f f' f'' : F} {v : Visit K} {visits : List (Visit K)} (h : Visited plan ds f v f')
      (hrest : Visits plan ds f' visits f'') : Visits plan ds f (v :: visits) f''

variable {plan : Plan E S F K} {ds : Dataset K} {datum : List K} {trueLabel : Int} {draws : S}
  {f f' f'' : F} {events : List (Event K)} {lab : Labelled K} {r : AttemptResult K}
  {i : Nat} {v : Visit K}

/-- Each of several visits was made, with some solvers. -/
theorem Visits.exists_visited {visits : List (Visit K)} (h : Visits plan ds f visits f'')
    (hv : v ∈ visits) : ∃ g g', Visited plan ds g v g' := by
  induction h with
  | nil => cases hv
  | cons hone _ ih =>
    rcases List.mem_cons.1 hv with rfl | hv
    · exact ⟨_, _, hone⟩
    · exact ih hv

omit [Engine E K] [Source S K] in
/-- An item that can be fetched is one of the dataset, and its true label is the dataset's. -/
theorem label_of_fetch (h : fetch plan ds i = .ok (datum, trueLabel, draws)) :
    ds.label (Int.ofNat i) = .ok trueLabel ∧ i < ds.size := by
  unfold fetch at h
  obtain ⟨⟨d, l⟩, hitem, h⟩ := Outcome.bind_ok_iff.1 h
  obtain ⟨drawn, -, h⟩ := Outcome.bind_ok_iff.1 h
  cases h
  unfold Dataset.item at hitem
  obtain ⟨d', -, hitem⟩ := Outcome.bind_ok_iff.1 hitem
  obtain ⟨l', hlabel, hitem⟩ := Outcome.bind_ok_iff.1 hitem
  cases hitem
  refine ⟨hlabel, ?_⟩
  unfold Dataset.label at hlabel
  rw [Program.pick_ofNat] at hlabel
  cases hget : ds.labels[i]? with
  | none =>
    rw [hget] at hlabel
    cases hlabel
  | some l => exact (List.getElem?_eq_some_iff.1 hget).1

/-- An attempt that gave a result labelled its input and ran on it. -/
theorem attempt_ok (h : attempt plan datum trueLabel draws f = (events, .ok (lab, r), f')) :
    ∃ trace, Label.traced plan.net datum true = .ok (lab, trace) ∧
      (Attempt.run plan.net plan.settings lab trueLabel trace plan.create f (.ok draws)).1.result =
        .ok r := by
  unfold attempt at h
  cases hlab : Label.traced plan.net datum true with
  | error e =>
    rw [hlab] at h
    cases h
  | ok labelled =>
    obtain ⟨lab', trace⟩ := labelled
    rw [hlab] at h
    have hresult := congrArg (fun out => out.2.1) h
    obtain ⟨r', hr', hpair⟩ := Outcome.map_ok_iff.1 hresult
    cases hpair
    exact ⟨trace, rfl, hr'⟩

/-- What an attempt found answers the question that was asked. -/
theorem attempt_answers (h : attempt plan datum trueLabel draws f = (events, .ok (lab, r), f'))
    (hfound : r.verdict = .found) : ∃ ce u, r.counterexample = some ce ∧ r.unrounded = some u ∧
      Attempt.Answers lab trueLabel ce u := by
  obtain ⟨trace, hlab, hrun⟩ := attempt_ok h
  exact Attempt.run_answers hlab hrun hfound

end

/-! ## Books -/

section

variable {K : Type} [Scalar K]

/-- A registry has got one more record for each hit. -/
structure Enrolled (found : List (Hit K)) (r r' : Registry K) : Prop where
  datasetName : r'.datasetName = r.datasetName
  records : ∃ new, r'.records = r.records ++ new ∧ List.Forall₂ (fun h entry =>
    SynthRecord.of r.datasetName (Int.ofNat h.index) h.lab h.ce = .ok entry) found new

/-- A listener has heard something more. -/
structure Heard (new : List (Nat × Labelled K × Int)) (l l' : Listener K) : Prop where
  hear : l'.hear = l.hear
  heard : l'.heard = l.heard ++ new

/-- A batch went from `b` to `b'` by filing visits, and nothing else. -/
structure Books (visits : List (Visit K)) (b b' : Batch K) : Prop where
  stats : b'.stats = (visits.map Visit.share).foldl Stats.plus b.stats
  results : b'.results = b.results ++ (hits visits).map Hit.result
  diffs : b'.diffs = (hits visits).foldl (fun ds h => addDiff h.key h.diff ds) b.diffs
  registry : Option.Rel (Enrolled (hits visits)) b.registry b'.registry
  listener : Option.Rel (Heard ((hits visits).map Hit.result)) b.listener b'.listener

theorem Enrolled.refl (r : Registry K) : Enrolled [] r r :=
  ⟨rfl, [], (List.append_nil _).symm, .nil⟩

theorem Enrolled.trans {xs ys : List (Hit K)} {r s t : Registry K} (hrs : Enrolled xs r s)
    (hst : Enrolled ys s t) : Enrolled (xs ++ ys) r t := by
  obtain ⟨hname, new, hrecords, hnew⟩ := hrs
  obtain ⟨hname', new', hrecords', hnew'⟩ := hst
  rw [hname] at hnew'
  refine ⟨hname'.trans hname, new ++ new', ?_, List.rel_append hnew hnew'⟩
  rw [hrecords', hrecords, List.append_assoc]

omit [Scalar K] in
theorem Heard.refl (l : Listener K) : Heard [] l l := ⟨rfl, (List.append_nil _).symm⟩

omit [Scalar K] in
theorem Heard.trans {xs ys : List (Nat × Labelled K × Int)} {l m n : Listener K}
    (hlm : Heard xs l m) (hmn : Heard ys m n) : Heard (xs ++ ys) l n :=
  ⟨hmn.hear.trans hlm.hear, by rw [hmn.heard, hlm.heard, List.append_assoc]⟩

/-- Relations between what there may be are composed where there is something. -/
theorem rel_trans {α : Type} {R S T : α → α → Prop} (h : ∀ {x y z}, R x y → S y z → T x z)
    {a b c : Option α} (hab : Option.Rel R a b) (hbc : Option.Rel S b c) : Option.Rel T a c := by
  cases hab with
  | none =>
    cases hbc
    exact .none
  | some hxy =>
    cases hbc with
    | some hyz => exact .some (h hxy hyz)

/-- Relations between what there may be are weakened where there is something. -/
theorem rel_mono {α : Type} {R T : α → α → Prop} (h : ∀ {x y}, R x y → T x y) {a b : Option α}
    (hab : Option.Rel R a b) : Option.Rel T a b := by
  cases hab with
  | none => exact .none
  | some hxy => exact .some (h hxy)

namespace Books

variable {visits more : List (Visit K)} {b b' b'' : Batch K}

/-- Nothing was filed. -/
theorem refl (b : Batch K) : Books [] b b where
  stats := rfl
  results := (List.append_nil _).symm
  diffs := rfl
  registry := by
    cases b.registry with
    | none => exact .none
    | some r => exact .some (.refl r)
  listener := by
    cases b.listener with
    | none => exact .none
    | some l => exact .some (.refl l)

/-- What is filed one after the other is filed together. -/
theorem trans (h : Books visits b b') (h' : Books more b' b'') : Books (visits ++ more) b b'' := by
  have hhits : hits (visits ++ more) = hits visits ++ hits more := List.filterMap_append
  constructor
  case stats => rw [h'.stats, h.stats, List.map_append, List.foldl_append]
  case results => rw [h'.results, h.results, hhits, List.map_append, List.append_assoc]
  case diffs => rw [h'.diffs, h.diffs, hhits, List.foldl_append]
  case registry =>
    rw [hhits]
    exact rel_trans (fun h h' => h.trans h') h.registry h'.registry
  case listener =>
    rw [hhits, List.map_append]
    exact rel_trans (fun h h' => h.trans h') h.listener h'.listener

/-- A counter has grown by what the visits add to it. -/
theorem counter (h : Books visits b b') {f : Stats → Int} {g : Visit K → Int}
    (hf : ∀ s t, f (s.plus t) = f s + f t) (hg : ∀ v ∈ visits, f v.share = g v) :
    f b'.stats = f b.stats + (visits.map g).sum := by
  rw [h.stats, Stats.foldl_plus hf, List.map_map]
  exact congrArg (f b.stats + List.sum ·) (List.map_congr_left hg)

/-- A counter to which every visit adds one has grown by their number. -/
theorem counter_of_one (h : Books visits b b') {f : Stats → Int}
    (hf : ∀ s t, f (s.plus t) = f s + f t) (hone : ∀ v ∈ visits, f v.share = 1) :
    f b'.stats = f b.stats + visits.length := by
  rw [h.counter hf hone]
  simp

/-- Events are no part of the books. -/
theorem of_log {events : List (Event K)} (h : Books visits (b.log events) b') : Books visits b b' :=
  ⟨h.stats, h.results, h.diffs, h.registry, h.listener⟩

theorem log {events : List (Event K)} (h : Books visits b b') : Books visits b (b'.log events) :=
  ⟨h.stats, h.results, h.diffs, h.registry, h.listener⟩

/-- A visit that found nothing is filed by adding its share. -/
theorem of_share {v : Visit K} (hhit : v.hit? = none) {b : Batch K} {stats : Stats}
    (hstats : stats = b.stats.plus v.share) : Books [v] b { b with stats } := by
  have hnone : hits [v] = [] := by
    unfold hits
    rw [List.filterMap_cons_none hhit, List.filterMap_nil]
  have h := Books.refl b
  exact ⟨hstats, hnone ▸ h.results, hnone ▸ h.diffs, hnone ▸ h.registry, hnone ▸ h.listener⟩

end Books

/-! ## Filing -/

/-- A counterexample that answers the question can be recorded. -/
theorem register_ok {h : Hit K} (hanswers : Attempt.Answers h.lab h.trueLabel h.ce h.unrounded)
    (b : Batch K) : ∃ b', register h.index h.lab h.ce b = .ok () b' ∧
      b' = { b with registry := b'.registry, folder := b'.folder } ∧
      Option.Rel (Enrolled [h]) b.registry b'.registry := by
  obtain ⟨linf, hlinf⟩ := Distance.linf_succeeds hanswers.nonempty hanswers.length_ce.symm
  obtain ⟨l1, hl1⟩ := Distance.l1_succeeds hanswers.length_ce.symm
  unfold register
  cases hr : b.registry with
  | none =>
    refine ⟨b, rfl, rfl, ?_⟩
    rw [hr]
    exact .none
  | some r =>
    obtain ⟨entry, hentry⟩ : ∃ entry, SynthRecord.of r.datasetName (Int.ofNat h.index) h.lab h.ce =
        .ok entry := by
      unfold SynthRecord.of
      rw [hlinf, Outcome.ok_bind, hl1]
      exact ⟨_, rfl⟩
    have hrecord : r.record b.folder (Int.ofNat h.index) h.lab h.ce =
        .ok (entry, r.add b.folder entry) := by
      unfold Registry.record
      rw [hentry]
      rfl
    dsimp only
    rw [hrecord]
    exact ⟨_, rfl, rfl, .some ⟨rfl, [entry], rfl, .cons hentry .nil⟩⟩

omit [Scalar K] in
/-- Telling a result fails only if the listener does. -/
theorem tell_cases (result : Nat × Labelled K × Int) (b : Batch K) :
    ∃ b', b' = { b with listener := b'.listener } ∧
      Option.Rel (Heard [result]) b.listener b'.listener ∧
      (tell result b = .ok () b' ∨
        ∃ l e, b.listener = some l ∧ l.hear l.heard result = .error e ∧
          tell result b = .error e b') := by
  unfold tell
  cases hl : b.listener with
  | none =>
    refine ⟨b, rfl, ?_, Or.inl rfl⟩
    rw [hl]
    exact .none
  | some l =>
    refine ⟨{ b with listener := some { l with heard := l.heard ++ [result] } }, rfl,
      .some ⟨rfl, rfl⟩, ?_⟩
    dsimp only
    cases hhear : l.hear l.heard result with
    | ok u => exact Or.inl rfl
    | error e => exact Or.inr ⟨l, e, rfl, hhear, rfl⟩

/-- **A found item** is filed, or the listener fails when everything but the event has been
    written down. -/
theorem fileFound_cases {h : Hit K} (hanswers : Attempt.Answers h.lab h.trueLabel h.ce h.unrounded)
    (solves : Nat) (b : Batch K) :
    ∃ b' : Batch K, b'.stats = { b.stats with found := b.stats.found + 1 } ∧
      b'.results = b.results ++ [h.result] ∧ b'.diffs = addDiff h.key h.diff b.diffs ∧
      Option.Rel (Enrolled [h]) b.registry b'.registry ∧
      Option.Rel (Heard [h.result]) b.listener b'.listener ∧
      (fileFound h.index h.trueLabel h.lab h.ce h.unrounded solves b = .ok () b' ∨
        ∃ l e, b.listener = some l ∧ l.hear l.heard h.result = .error e ∧
          fileFound h.index h.trueLabel h.lab h.ce h.unrounded solves b = .error e b') := by
  obtain ⟨linf, hlinf⟩ := Distance.linf_succeeds hanswers.nonempty hanswers.length_ce.symm
  obtain ⟨b₁, hregister, heq₁, hrel⟩ := register_ok hanswers (b.countFound h.lab h.ce h.unrounded)
  obtain ⟨b₂, heq₂, hheard, htell⟩ := tell_cases h.result (b₁.addResult h.result)
  have hfiled : b₂.stats = { b.stats with found := b.stats.found + 1 } ∧
      b₂.results = b.results ++ [h.result] ∧ b₂.diffs = addDiff h.key h.diff b.diffs ∧
      Option.Rel (Enrolled [h]) b.registry b₂.registry ∧
      Option.Rel (Heard [h.result]) b.listener b₂.listener := by
    rw [heq₁] at heq₂ hheard
    rw [heq₂]
    exact ⟨rfl, rfl, rfl, hrel, hheard⟩
  obtain ⟨hstats, hresults, hdiffs, hregistry, hlistener⟩ := hfiled
  have hgoes : fileFound h.index h.trueLabel h.lab h.ce h.unrounded solves b =
      (tell h.result >>= fun _ => modify (·.log [.found h.index h.lab.label h.ce.label linf solves]))
        (b₁.addResult h.result) := by
    unfold fileFound
    rw [Step.modify_bind, Step.bind_ok hregister, Step.modify_bind, hlinf]
    rfl
  rw [hgoes]
  rcases htell with htell | ⟨l, e, hl, hhear, htell⟩
  · exact ⟨b₂.log [.found h.index h.lab.label h.ce.label linf solves], hstats, hresults, hdiffs,
      hregistry, hlistener, Or.inl (Step.bind_ok htell)⟩
  · rw [heq₁] at hl
    exact ⟨b₂, hstats, hresults, hdiffs, hregistry, hlistener,
      Or.inr ⟨l, e, hl, hhear, Step.bind_error htell⟩⟩

/-- **Filing fails only if the listener does**, if what was found answers the question. -/
theorem file_cases {v : Visit K} {lab : Labelled K} {r : AttemptResult K}
    (hanswer : v.answer = .ok (lab, r))
    (hfound : r.verdict = .found → ∃ ce u, r.counterexample = some ce ∧ r.unrounded = some u ∧
      Attempt.Answers lab v.trueLabel ce u) (b : Batch K) :
    ∃ b', Books [v] b b' ∧ (file v.index v.trueLabel lab r b = .ok () b' ∨
      ∃ h l e, v.hit? = some h ∧ b.listener = some l ∧ l.hear l.heard h.result = .error e ∧
        file v.index v.trueLabel lab r b = .error e b') := by
  unfold file
  rw [Step.modify_bind]
  cases hverdict : r.verdict with
  | skipped =>
    have hhit : v.hit? = none := by
      unfold Visit.hit?
      simp only [hanswer, hverdict]
    refine ⟨(b.tally r).countSkipped r.reason, ?_, Or.inl rfl⟩
    unfold countSkipped
    split
    · rename_i hreason
      refine Books.of_share hhit ?_
      simp [Visit.share, Stats.plus, Stats.zero, tally, hanswer, hverdict, hreason]
    · rename_i hreason
      refine Books.of_share hhit ?_
      simp [Visit.share, Stats.plus, Stats.zero, tally, hanswer, hverdict, hreason]
  | aborted =>
    have hhit : v.hit? = none := by
      unfold Visit.hit?
      simp only [hanswer, hverdict]
    refine ⟨(b.tally r).countAborted.log [.notFound v.index r.reason.text], ?_, Or.inl rfl⟩
    refine Books.log (Books.of_share hhit ?_)
    simp [Visit.share, Stats.plus, Stats.zero, tally, hanswer, hverdict]
  | found =>
    obtain ⟨ce, u, hce, hu, hanswers⟩ := hfound hverdict
    have hhit : v.hit? = some ⟨v.index, v.trueLabel, lab, ce, u⟩ := by
      unfold Visit.hit?
      simp only [hanswer, hverdict, hce, hu]
    have hone : hits [v] = [⟨v.index, v.trueLabel, lab, ce, u⟩] := by
      unfold hits
      rw [List.filterMap_cons_some hhit, List.filterMap_nil]
    obtain ⟨b', hstats, hresults, hdiffs, hregistry, hlistener, hgoes⟩ :=
      fileFound_cases (h := ⟨v.index, v.trueLabel, lab, ce, u⟩) hanswers r.iterations (b.tally r)
    have hbooks : Books [v] b b' := by
      refine ⟨?_, hone ▸ hresults, hone ▸ hdiffs, hone ▸ hregistry, hone ▸ hlistener⟩
      rw [hstats]
      simp [Visit.share, Stats.plus, Stats.zero, tally, hanswer, hverdict]
    simp only [hce, hu]
    refine ⟨b', hbooks, ?_⟩
    rcases hgoes with hok | ⟨l, e, hl, hhear, herror⟩
    · exact Or.inl hok
    · exact Or.inr ⟨_, l, e, hhit, hl, hhear, herror⟩

end

/-! ## Runs -/

section

variable {E S F K : Type} [Exponential K] [Engine E K] [Source S K] {plan : Plan E S F K}
  {ds : Dataset K} {count : Int}

/-- How a batch ends at an item before its time: the item cannot be fetched, or its draws cannot be
    set up; its attempt fails with a fault that would befall every other item too; or the listener
    fails on what was found, which has been filed by then. -/
inductive Halts (plan : Plan E S F K) (ds : Dataset K) (i : Nat) :
    Batch K × F → Fault → Batch K × F → Prop
  | unfetched {b : Batch K} {f : F} {e : Fault} (h : fetch plan ds i = .error e) :
      Halts plan ds i (b, f) e (b, f)
  | mismatch {b : Batch K} {f f' : F} {e : Fault} {datum : List K} {trueLabel : Int} {draws : S}
      {events : List (Event K)} (hfetch : fetch plan ds i = .ok (datum, trueLabel, draws))
      (h : attempt plan datum trueLabel draws f = (events, .error e, f'))
      (hkind : e.kind = .mismatch) : Halts plan ds i (b, f) e (b.log events, f')
  | unheard {b b' : Batch K} {f f' : F} {e : Fault} {v : Visit K} {h : Hit K} {l : Listener K}
      (hv : v.index = i) (hvisited : Visited plan ds f v f') (hfiled : Books [v] b b')
      (hhit : v.hit? = some h) (hl : b.listener = some l)
      (hhear : l.hear l.heard h.result = .error e) : Halts plan ds i (b, f) e (b', f')

/-- **One item** is visited and filed, or the batch halts there. -/
theorem item_cases (plan : Plan E S F K) (ds : Dataset K) (count : Int) (i : Nat) (b : Batch K)
    (f : F) :
    (∃ v f' b', v.index = i ∧ Visited plan ds f v f' ∧ Books [v] b b' ∧
      item plan ds count i (b, f) = .ok () (b', f')) ∨
    ∃ e s, Halts plan ds i (b, f) e s ∧ item plan ds count i (b, f) = .error e s := by
  unfold item
  cases hfetch : fetch plan ds i with
  | error e => exact Or.inr ⟨e, _, .unfetched hfetch, rfl⟩
  | ok fetched =>
    obtain ⟨datum, trueLabel, draws⟩ := fetched
    rcases hattempt : attempt plan datum trueLabel draws f with ⟨events, answer, f'⟩
    dsimp only
    rw [hattempt]
    cases answer with
    | error e =>
      dsimp only
      by_cases hkind : e.kind = .mismatch
      · rw [if_pos hkind]
        exact Or.inr ⟨e, _, .mismatch hfetch hattempt hkind, rfl⟩
      · rw [if_neg hkind]
        have hvisited : Visited plan ds f ⟨i, trueLabel, .error e⟩ f' :=
          ⟨datum, draws, events, hfetch, hattempt, fun e' he => Except.error.inj he ▸ hkind⟩
        have hfailed : Books [⟨i, trueLabel, .error e⟩] ((b.log events).log [.failed i])
            ((b.log events).fail i) := by
          unfold fail
          refine Books.of_share rfl ?_
          simp [Visit.share, Stats.plus, Stats.zero, log]
        exact Or.inl ⟨_, f', _, rfl, hvisited, hfailed.of_log.of_log, rfl⟩
    | ok found =>
      obtain ⟨lab, r⟩ := found
      have hvisited : Visited plan ds f ⟨i, trueLabel, .ok (lab, r)⟩ f' :=
        ⟨datum, draws, events, hfetch, hattempt, fun e he => by cases he⟩
      obtain ⟨b', hbooks, hok | ⟨h, l, e, hhit, hl, hhear, herror⟩⟩ :=
        file_cases (v := ⟨i, trueLabel, .ok (lab, r)⟩) rfl (attempt_answers hattempt) (b.log events)
      · dsimp only at hok ⊢
        rw [hok]
        exact Or.inl ⟨_, f', _, rfl, hvisited, hbooks.of_log.log, rfl⟩
      · dsimp only at herror ⊢
        rw [herror]
        exact Or.inr ⟨e, _, .unheard rfl hvisited hbooks.of_log hhit hl hhear, rfl⟩

/-- **Items one after the other** are visited and filed, all of them, or those before the one where
    the batch halts. -/
theorem items_cases (plan : Plan E S F K) (ds : Dataset K) (count : Int) (is : List Nat)
    (b : Batch K) (f : F) :
    ∃ visits f' b', Visits plan ds f visits f' ∧ Books visits b b' ∧
      ((visits.map Visit.index = is ∧ items plan ds count is (b, f) = .ok () (b', f')) ∨
        ∃ i e s, visits.map Visit.index ++ [i] <+: is ∧ Halts plan ds i (b', f') e s ∧
          items plan ds count is (b, f) = .error e s) := by
  induction is generalizing b f with
  | nil => exact ⟨[], f, b, .nil, .refl b, Or.inl ⟨rfl, rfl⟩⟩
  | cons i is ih =>
    unfold items
    rcases item_cases plan ds count i b f with ⟨v, f₁, b₁, rfl, hv, hone, hok⟩ |
      ⟨e, s, hhalts, herror⟩
    · obtain ⟨visits, f', b', hvisits, hbooks, hend⟩ := ih b₁ f₁
      refine ⟨v :: visits, f', b', .cons hv hvisits, hone.trans hbooks, ?_⟩
      rw [Step.bind_ok hok]
      rcases hend with ⟨rfl, hall⟩ | ⟨j, e, s, hprefix, hhalts, herror⟩
      · exact Or.inl ⟨rfl, hall⟩
      · exact Or.inr ⟨j, e, s, (List.prefix_cons_inj v.index).2 hprefix, hhalts, herror⟩
    · exact ⟨[], f, b, .nil, .refl b, Or.inr ⟨i, e, s, ⟨is, rfl⟩, hhalts, Step.bind_error herror⟩⟩

/-- **A whole run** visits and files the items from the first one on: as many as were asked for, or
    those before the one where it halts. -/
theorem run_cases (hcount : itemCount plan.settings ds = .ok count) (b : Batch K) (f : F) :
    ∃ visits f' b', Visits plan ds f visits f' ∧ Books visits b b' ∧
      visits.map Visit.index = List.range visits.length ∧
      ((visits.length = count.toNat ∧
          run plan ds (b, f) = .ok () (b'.log [.summary b'.stats.entries], f')) ∨
        (visits.length < count.toNat ∧ ∃ e s, Halts plan ds visits.length (b', f') e s ∧
          run plan ds (b, f) = .error e s)) := by
  obtain ⟨visits, f', b', hvisits, hbooks, hend⟩ :=
    items_cases plan ds count (indices ds count) b f
  unfold run
  rw [hcount]
  dsimp only
  rcases hend with ⟨hindices, hok⟩ | ⟨i, e, s, hprefix, hhalts, herror⟩
  · rw [hok]
    have hlength : visits.length = min count.toNat (ds.size + 1) := by
      have h := congrArg List.length hindices
      unfold indices at h
      rwa [List.length_map, List.length_range] at h
    have hrange : visits.map Visit.index = List.range visits.length := by
      rw [hindices, hlength]
      rfl
    -- nothing beyond the dataset can be fetched, so a run that went through did not ask for it
    have hle : count.toNat ≤ ds.size := by
      by_contra hlt
      have hmem : ds.size ∈ visits.map Visit.index := by
        rw [hrange, List.mem_range]
        omega
      obtain ⟨v, hv, hindex⟩ := List.mem_map.1 hmem
      obtain ⟨g, g', datum, draws, events, hfetch, -⟩ := hvisits.exists_visited hv
      have hsize := (label_of_fetch hfetch).2
      omega
    exact ⟨visits, f', b', hvisits, hbooks, hrange, Or.inl ⟨by omega, rfl⟩⟩
  · rw [herror]
    have hlt := hprefix.length_le
    unfold indices at hprefix hlt
    rw [List.length_append, List.length_singleton, List.length_map, List.length_range] at hlt
    have hall : visits.map Visit.index ++ [i] = List.range (visits.length + 1) := by
      rw [List.prefix_iff_eq_take.1 hprefix, List.take_range, List.length_append, List.length_map,
        List.length_singleton, Nat.min_eq_left hlt]
    rw [List.range_succ] at hall
    obtain ⟨hrange, hlast⟩ := List.append_inj' hall rfl
    cases hlast
    exact ⟨visits, f', b', hvisits, hbooks, hrange, Or.inr ⟨by omega, e, s, hhalts, rfl⟩⟩

end

end Batch

end Perturb
