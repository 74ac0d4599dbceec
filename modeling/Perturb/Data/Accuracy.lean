/-
  How well a network labels a dataset.

  Every measure labels all items in order.  A network whose rectifiers keep a pattern log records
  a pattern per rectifier and run, so the measures carry that log along; they also say what they
  found as events.  A failure leaves the log as the failing run left it.
-/
import Perturb.Data.Dataset
import Perturb.Data.Label
import Perturb.Layer.Pattern
import Perturb.Synthesis.Attempt

namespace Perturb

/-- What accumulates while a dataset is labelled: the pattern log, if one is kept, and events. -/
structure Journal (K : Type) where
  patterns : Option PatternLog
  events : List (Event K)

namespace Accuracy

variable {K : Type} [Exponential K]

/-- Records the patterns of a run at a datum. -/
def record (net : Net K) (datum : List K) : Step (Journal K) Unit :=
  modify fun j =>
    match j.patterns, net.cropped datum with
    | some log, .ok x =>
      { j with patterns := some ((Net.activity x net.layers).foldl
        (fun log (layer, pattern) => log.record layer pattern) log) }
    | _, _ => j

/-- A plain computation as a step. -/
def lift {α : Type} (o : Outcome α) : Step (Journal K) α :=
  match o with
  | .ok a => return a
  | .error e => throw e

/-- The label of item `i`. -/
def labelOf (net : Net K) (ds : Dataset K) (i : Nat) : Step (Journal K) (Labelled K) := do
  let d ← lift (ds.datum (Int.ofNat i))
  record net d
  lift (Label.of net d true)

/-- The indices of the items that a test keeps. -/
def kept (net : Net K) (ds : Dataset K) (keep : Int → Labelled K → Bool) :
    List Nat → Step (Journal K) (List Int)
  | [] => return []
  | i :: rest => do
    let lab ← labelOf net ds i
    let truth ← lift (ds.label (Int.ofNat i))
    let more ← kept net ds keep rest
    return if keep truth lab then Int.ofNat i :: more else more

/-- The items that a test on true label and labelling keeps. -/
def filter (net : Net K) (ds : Dataset K) (keep : Int → Labelled K → Bool) :
    Step (Journal K) (Dataset K) := do
  let indices ← kept net ds keep (List.range ds.size)
  lift (ds.subset indices)

/-- The items labelled with at least a given confidence. -/
def aboveConfidence (net : Net K) (ds : Dataset K) (threshold : K) : Step (Journal K) (Dataset K) :=
  filter net ds fun _ lab => decide (threshold ≤ lab.softmax)

/-- The items whose label is not the true one. -/
def misclassified (net : Net K) (ds : Dataset K) : Step (Journal K) (Dataset K) :=
  filter net ds fun truth lab => Int.ofNat lab.label != truth

/-- How many of some items are labelled correctly. -/
def correct (net : Net K) (ds : Dataset K) : List Nat → Step (Journal K) Nat
  | [] => return 0
  | i :: rest => do
    let lab ← labelOf net ds i
    let truth ← lift (ds.label (Int.ofNat i))
    let more ← correct net ds rest
    return if Int.ofNat lab.label = truth then more + 1 else more

/-- The events that report the log of every rectifier. -/
def patternEvents (net : Net K) (log : PatternLog) : List (Event K) :=
  net.layers.filterMap fun l =>
    match l with
    | .relu u => some (.patterns u.index (log.distinctOf u.index) log.collisions)
    | _ => none

/-- The share of items labelled correctly; zero for no items. -/
def accuracy (net : Net K) (ds : Dataset K) : Step (Journal K) K := do
  if ds.size = 0 then return 0
  else
    let count ← correct net ds (List.range ds.size)
    modify fun j => { j with events := j.events ++ [.accuracy ds.name count ds.size]
      ++ (match j.patterns with
        | some log => patternEvents net log
        | none => []) }
    return Scalar.ofNat count / Scalar.ofNat ds.size

/-- The smallest positive number with full precision; shares below it count as this much. -/
def leastShare : K := Scalar.ofRat (mkRat 1 (Nat.pow 2 1022))

/-- The sum of the negated logarithms of the shares of the true labels of some items. -/
def lossSum (net : Net K) (ds : Dataset K) (total : K) : List Nat → Step (Journal K) K
  | [] => return total
  | i :: rest => do
    let d ← lift (ds.datum (Int.ofNat i))
    record net d
    let shares ← lift (Label.shares net d true)
    let truth ← lift (ds.label (Int.ofNat i))
    let p ← lift (pick shares truth)
    let p := if p < leastShare then leastShare else p
    lossSum net ds (total - Exponential.log p) rest

/-- The mean loss; zero for no items. -/
def loss (net : Net K) (ds : Dataset K) : Step (Journal K) K := do
  if ds.size = 0 then return 0
  else
    let total ← lossSum net ds 0 (List.range ds.size)
    return total / Scalar.ofNat ds.size

end Accuracy

end Perturb
