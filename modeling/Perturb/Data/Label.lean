/-
  Labels and confidences.

  The label of an input is the position of the largest output, the first one if there are several;
  the runner-up is the first largest among the others.  Confidence is measured by the softmax: the
  share of the label, and its distance to the share of the runner-up.

  "Largest" has to say what a value is worth that is not a number.  For the label, such a value
  beats every number and the first of them wins; for the runner-up it beats nothing, and wins only
  as the first candidate.
-/
import Perturb.Net.Basic

namespace Perturb

/-- An input with its label, the runner-up, and how sure the network is. -/
structure Labelled (K : Type) where
  datum : List K
  label : Nat
  second : Nat
  softmax : K
  diff : K
  deriving Repr, Inhabited

namespace Label

variable {K : Type}

/-- Scans for the largest entry from position `i` on, holding `best` at `at`. -/
def scanLargest [Scalar K] (best : K) (place i : Nat) : List K → K × Nat
  | [] => (best, place)
  | x :: rest =>
    if Scalar.isNaN best || x ≤ best then scanLargest best place (i + 1) rest
    else scanLargest x i (i + 1) rest

/-- The largest entry and its position. -/
def largest [Scalar K] : List K → Outcome (K × Nat)
  | [] => .error .emptyVector
  | x :: rest => .ok (scanLargest x 0 1 rest)

/-- Scans for the largest entry outside position `skip`. -/
def scanOther [Scalar K] (skip : Int) (best : Option (K × Nat)) (i : Nat) :
    List K → Option (K × Nat)
  | [] => best
  | x :: rest =>
    let best := if Int.ofNat i = skip then best else
      match best with
      | none => some (x, i)
      | some (b, k) => if b < x then some (x, i) else some (b, k)
    scanOther skip best (i + 1) rest

/-- The largest entry outside a position, and where it is; there must be at least two entries. -/
def largestOther [Scalar K] (xs : List K) (skip : Int) : Outcome (K × Nat) :=
  if xs.length < 2 then .error .secondBest
  else
    match scanOther skip none 0 xs with
    | some found => .ok found
    | none => .error .secondBest

/-- The softmax: exponentials of the distances to the maximum (raised by four), as shares. -/
def softmax [Exponential K] (xs : List K) : Outcome (List K) :=
  match Scalar.maximum? xs with
  | none => .error .emptyVector
  | some top =>
    let shift := top - Scalar.ofInt 4
    let es := xs.map fun x => Exponential.exp (x - shift)
    let total := Scalar.sum es
    .ok (es.map (· / total))

/-- The entry of a list at a position, zero beyond its end. -/
def share [Scalar K] (shares : List K) (i : Nat) : K := (shares[i]?).getD 0

/-- The label of an input whose outputs are known. -/
def ofOutputs [Exponential K] (datum outputs : List K) : Outcome (Labelled K) := do
  let (_, label) ← largest outputs
  let (_, second) ← largestOther outputs (Int.ofNat label)
  let shares ← softmax outputs
  let p := share shares label
  .ok ⟨datum, label, second, p, Scalar.magnitude (p - share shares second)⟩

/-- An input as the first layer takes it: cropped if asked for. -/
def prepared [Scalar K] (net : Net K) (datum : List K) (crop : Bool) : Outcome (List K) :=
  if crop then net.cropped datum else .ok datum

/-- The label of an input. -/
def of [Exponential K] (net : Net K) (datum : List K) (crop : Bool) : Outcome (Labelled K) := do
  let x ← prepared net datum crop
  let outputs ← net.values x
  ofOutputs datum outputs

/-- The label of an input, and the trace of the run. -/
def traced [Exponential K] (net : Net K) (datum : List K) (crop : Bool) :
    Outcome (Labelled K × Trace) := do
  let x ← prepared net datum crop
  let (outputs, trace) ← net.traced x
  let lab ← ofOutputs datum outputs
  .ok (lab, trace)

/-- The softmax of an input's outputs. -/
def shares [Exponential K] (net : Net K) (datum : List K) (crop : Bool) : Outcome (List K) := do
  let x ← prepared net datum crop
  let outputs ← net.values x
  softmax outputs

end Label

/-! ## Distances -/

namespace Distance

variable {K : Type} [Scalar K]

/-- The absolute differences; a list of one entry is compared with every entry of the other. -/
def gaps (a b : List K) : Outcome (List K) :=
  let gap (x y : K) : K := Scalar.magnitude (x - y)
  match a, b with
  | [x], ys => .ok (ys.map (gap x))
  | xs, [y] => .ok (xs.map fun x => gap x y)
  | xs, ys => if xs.length = ys.length then .ok (List.zipWith gap xs ys) else .error .lengths

/-- The largest absolute difference. -/
def linf (a b : List K) : Outcome K := do
  let ds ← gaps a b
  match Scalar.maximum? ds with
  | some d => .ok d
  | none => .error .emptyVector

/-- The mean absolute difference. -/
def l1 (a b : List K) : Outcome K := do
  let ds ← gaps a b
  .ok (Scalar.sum ds / Scalar.ofNat ds.length)

end Distance

end Perturb
