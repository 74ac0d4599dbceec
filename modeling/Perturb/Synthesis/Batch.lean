/-
  Attempts on the items of a dataset.

  A batch takes the first items, as many as the settings ask for, and attempts them one after the
  other.  A fault of one item is counted and the batch goes on, with two exceptions that end it: a
  `mismatch`, which would befall every other item too, and a fault in fetching the item or setting
  up its random draws, which happen before the attempt proper.

  Everything a batch reports is derived from the found items: the results with their true labels,
  the records, what a listener is told, and, per pair of labels, the first difference and how often
  the pair occurred.  A found item is filed in this order: counters and differences, the registry,
  the results, the listener; a fault on the way leaves what was filed before it.
-/
import Perturb.Data.Accuracy
import Perturb.Data.Registry
import Perturb.Synthesis.Attempt
import Perturb.Synthesis.Stats

namespace Perturb

/-- The first difference found for a pair of labels, and how often the pair was found. -/
structure DiffInfo (K : Type) where
  diff : List K
  number : Nat
  deriving Repr, Inhabited

/-- Someone who is told of every found item: what was heard so far, and what hearing the next one
    leads to. -/
structure Listener (K : Type) where
  heard : List (Nat × Labelled K × Int)
  hear : List (Nat × Labelled K × Int) → Nat × Labelled K × Int → Outcome Unit

/-- Everything a batch has produced so far. -/
structure Batch (K : Type) where
  stats : Stats
  results : List (Nat × Labelled K × Int)
  diffs : List ((Nat × Nat) × DiffInfo K)
  registry : Option (Registry K)
  folder : Folder K
  listener : Option (Listener K)
  events : List (Event K)
  deriving Inhabited

namespace Batch

variable {K : Type}

/-- A batch before its first item. -/
def start (registry : Option (Registry K)) (folder : Folder K) : Batch K :=
  ⟨Stats.zero, [], [], registry, folder, none, []⟩

/-- A batch with a listener. -/
def toldTo (b : Batch K) (listener : Option (Listener K)) : Batch K := { b with listener }

/-- Adds events. -/
def log (b : Batch K) (events : List (Event K)) : Batch K := { b with events := b.events ++ events }

/-- Counts a difference for a pair of labels; the first one is kept. -/
def addDiff (key : Nat × Nat) (diff : List K) :
    List ((Nat × Nat) × DiffInfo K) → List ((Nat × Nat) × DiffInfo K)
  | [] => [(key, ⟨diff, 1⟩)]
  | (k, info) :: rest =>
    if k = key then (k, { info with number := info.number + 1 }) :: rest
    else (k, info) :: addDiff key diff rest

/-- The differences found, in the order of their labels. -/
def sortedDiffs (b : Batch K) : List ((Nat × Nat) × DiffInfo K) :=
  b.diffs.mergeSort fun (k, _) (l, _) => k.1 < l.1 || (k.1 == l.1 && k.2 ≤ l.2)

/-- Counts an item that failed. -/
def fail (b : Batch K) (i : Nat) : Batch K :=
  { b.log [.failed i] with
    stats := { b.stats with processed := b.stats.processed + 1, errored := b.stats.errored + 1 } }

/-- Counts what every attempt counts. -/
def tally (b : Batch K) (r : AttemptResult K) : Batch K :=
  { b with stats := { b.stats with
      processed := b.stats.processed + 1
      rounds := b.stats.rounds + Int.ofNat (r.iterations - 1)
      promoted := b.stats.promoted + Int.ofNat r.promoted } }

/-- Counts a skipped item. -/
def countSkipped (b : Batch K) (reason : Reason) : Batch K :=
  if reason = .misclassified then
    { b with stats := { b.stats with skippedMisclassified := b.stats.skippedMisclassified + 1 } }
  else
    { b with stats := { b.stats with skippedLowConfidence := b.stats.skippedLowConfidence + 1 } }

/-- Counts a found item, and the difference that was found. -/
def countFound [Scalar K] (b : Batch K) (lab ce : Labelled K) (unrounded : List K) : Batch K :=
  { b with
    stats := { b.stats with found := b.stats.found + 1 }
    diffs := addDiff (lab.label, ce.label) (List.zipWith (· - ·) unrounded lab.datum) b.diffs }

/-- Counts an item for which nothing was found. -/
def countAborted (b : Batch K) : Batch K :=
  { b with stats := { b.stats with aborted := b.stats.aborted + 1 } }

/-- Adds the record of a counterexample to the registry, if there is one. -/
def register [Scalar K] (i : Nat) (lab ce : Labelled K) : Step (Batch K) Unit := fun b =>
  match b.registry with
  | none => .ok () b
  | some r =>
    match r.record b.folder (Int.ofNat i) lab ce with
    | .error e => .error e b
    | .ok (_, r, folder) => .ok () { b with registry := some r, folder }

/-- Adds a result. -/
def addResult (b : Batch K) (result : Nat × Labelled K × Int) : Batch K :=
  { b with results := b.results ++ [result] }

/-- Tells the listener of a result, if there is one. -/
def tell (result : Nat × Labelled K × Int) : Step (Batch K) Unit := fun b =>
  match b.listener with
  | none => .ok () b
  | some l =>
    let b := { b with listener := some { l with heard := l.heard ++ [result] } }
    match l.hear l.heard result with
    | .error e => .error e b
    | .ok () => .ok () b

/-- Files a found item. -/
def fileFound [Scalar K] (i : Nat) (trueLabel : Int) (lab ce : Labelled K) (unrounded : List K)
    (solves : Nat) : Step (Batch K) Unit := do
  modify (·.countFound lab ce unrounded)
  register i lab ce
  modify (·.addResult (i, ce, trueLabel))
  tell (i, ce, trueLabel)
  match Distance.linf lab.datum ce.datum with
  | .error e => throw e
  | .ok linf => modify (·.log [.found i lab.label ce.label linf solves])

/-- Files the result of an attempt on an item. -/
def file [Scalar K] (i : Nat) (trueLabel : Int) (lab : Labelled K) (r : AttemptResult K) :
    Step (Batch K) Unit := do
  modify (·.tally r)
  match r.verdict, r.counterexample, r.unrounded with
  | .skipped, _, _ => modify (·.countSkipped r.reason)
  | .found, some ce, some unrounded => fileFound i trueLabel lab ce unrounded r.iterations
  | _, _, _ => modify fun b => b.countAborted.log [.notFound i r.reason.text]

variable {E S F : Type} [Exponential K] [Engine E K] [Source S K]

/-- The settings of a batch: the network, the options, and how solvers and draws are made. -/
structure Plan (E S F K : Type) [Exponential K] where
  net : Net K
  settings : Settings K
  create : F → List (Event K) × Outcome E × F
  draws : Nat → Outcome S

/-- The attempt on an item at hand: its report and its labelling. -/
def attempt (plan : Plan E S F K) (datum : List K) (trueLabel : Int) (draws : S) (factory : F) :
    List (Event K) × Outcome (Labelled K × AttemptResult K) × F :=
  match Label.traced plan.net datum true with
  | .error e => ([], .error e, factory)
  | .ok (lab, trace) =>
    let (report, factory) :=
      Attempt.run plan.net plan.settings lab trueLabel trace plan.create factory (.ok draws)
    (report.events, report.result.map fun r => (lab, r), factory)

/-- An item, its true label, and the draws for it. -/
def fetch (plan : Plan E S F K) (ds : Dataset K) (i : Nat) : Outcome (List K × Int × S) := do
  let (datum, trueLabel) ← ds.item (Int.ofNat i)
  let draws ← plan.draws i
  .ok (datum, trueLabel, draws)

/-- Attempts item `i` of `count`. -/
def item (plan : Plan E S F K) (ds : Dataset K) (count : Int) (i : Nat) :
    Step (Batch K × F) Unit := fun (b, factory) =>
  match fetch plan ds i with
  | .error e => .error e (b, factory)
  | .ok (datum, trueLabel, draws) =>
    match attempt plan datum trueLabel draws factory with
    | (events, .error e, factory) =>
      if e.kind = .mismatch then .error e (b.log events, factory)
      else .ok () ((b.log events).fail i, factory)
    | (events, .ok (lab, r), factory) =>
      match file i trueLabel lab r (b.log events) with
      | .error e b => .error e (b, factory)
      | .ok () b => .ok () (b.log [.progress b.stats.processed count b.stats.found], factory)

/-- Attempts items one after the other. -/
def items (plan : Plan E S F K) (ds : Dataset K) (count : Int) : List Nat → Step (Batch K × F) Unit
  | [] => return
  | i :: rest => do
    item plan ds count i
    items plan ds count rest

/-- How many items a batch takes: the share of the dataset, rounded, a half going to the even
    neighbour. -/
def itemCount (settings : Settings K) (ds : Dataset K) : Outcome Int :=
  let wanted := Scalar.ofNat ds.size * settings.percentage
  match Scalar.nearest? wanted with
  | some n => .ok n
  | none => if Scalar.isNaN wanted then .error .notANumber else .error .tooLarge

/-- The items that a batch attempts.  The first index beyond the dataset is a fault that ends the
batch, so no later one is reached. -/
def indices (ds : Dataset K) (count : Int) : List Nat :=
  List.range (min count.toNat (ds.size + 1))

/-- Runs a batch. -/
def run (plan : Plan E S F K) (ds : Dataset K) : Step (Batch K × F) Unit := fun (b, factory) =>
  match itemCount plan.settings ds with
  | .error e => .error e (b, factory)
  | .ok count =>
    match items plan ds count (indices ds count) (b, factory) with
    | .error e s => .error e s
    | .ok () (b, factory) => .ok () (b.log [.summary b.stats.entries], factory)

end Batch

end Perturb
