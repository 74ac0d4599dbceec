/-
  Networks: layers that fit together, behind an optional crop.

  `values` runs a network at a point, `traced` also records the branches taken, and `replay` pushes
  affine terms along a recorded trace.  The three walk the same list of layers; what a trace
  records of a layer is a function of that layer's input alone.

  `coalesce` joins every run of adjacent affine layers into one.
-/
import Perturb.Layer.Replay
import Perturb.Net.Crop

namespace Perturb

namespace Layer

variable {K : Type} [Scalar K]

/-- The first two adjacent layers of which the second does not take what the first gives. -/
def misfit? : List (Layer K) → Option (Layer K × Layer K)
  | [] => none
  | [_] => none
  | a :: b :: rest => if a.outDim = b.inDim then misfit? (b :: rest) else some (a, b)

end Layer

/-- A network: at least one layer, each taking what the one before gives, and a crop that gives
    what the first one takes. -/
structure Net (K : Type) [Scalar K] where
  first : Layer K
  rest : List (Layer K)
  crop : Option Crop
  fits : Layer.misfit? (first :: rest) = none
  crop_fits : ∀ c ∈ crop, c.outDim = first.inDim

namespace Net

variable {K : Type} [Scalar K]

/-- The network of a list of layers. -/
def make (layers : List (Layer K)) (crop : Option Crop) : Outcome (Net K) :=
  match layers with
  | [] => .error .noLayers
  | first :: rest =>
    match h : Layer.misfit? (first :: rest) with
    | some (a, b) => .error (.layerSizes a.index a.outDim b.index b.inDim)
    | none =>
      if hc : ∀ c ∈ crop, c.outDim = first.inDim then .ok ⟨first, rest, crop, h, hc⟩
      else .error (.cropSizes ((crop.map Crop.outDim).getD 0) first.inDim)

/-- All layers in order. -/
def layers (net : Net K) : List (Layer K) := net.first :: net.rest

/-- The last layer. -/
def last (net : Net K) : Layer K := (net.rest.getLast?).getD net.first

/-- The number of inputs the first layer takes. -/
def inDim (net : Net K) : Nat := net.first.inDim

/-- The number of inputs before cropping. -/
def fullDim (net : Net K) : Nat :=
  match net.crop with
  | some c => c.inDim
  | none => net.inDim

/-- The number of outputs. -/
def outDim (net : Net K) : Nat := net.last.outDim

/-- The image the inputs before cropping form. -/
def grid (net : Net K) : Option Grid :=
  match net.crop with
  | some c => some c.image
  | none => net.first.inGrid

/-- The description of a network. -/
def describe (net : Net K) : String :=
  let kinds := String.intercalate ", " (net.layers.map fun l => l.kind.name)
  let crop := match net.crop with
    | some c => Number.digitsOf c.size
    | none => "None"
  s!"Net([{kinds}], crop={crop})"

/-! ## At a point -/

/-- An input cropped to what the first layer takes. -/
def cropped (net : Net K) (x : List K) : Outcome (List K) :=
  match net.crop with
  | some c => c.take x
  | none => .ok x

/-- A cropped input written back into the full one; without a crop it replaces it. -/
def uncropped (net : Net K) (image x : List K) : Outcome (List K) :=
  match net.crop with
  | some c => c.paste image x
  | none => .ok x

/-- Runs layers at a point, recording the branches taken. -/
def pass (x : List K) (t : Trace) : List (Layer K) → Outcome (List K × Trace)
  | [] => .ok (x, t)
  | l :: rest => do
    let y ← l.values x
    pass y (t.record l.index (l.branches x)) rest

/-- The outputs and the trace at a cropped input. -/
def traced (net : Net K) (x : List K) : Outcome (List K × Trace) := pass x .empty net.layers

/-- The outputs at a cropped input. -/
def values (net : Net K) (x : List K) : Outcome (List K) :=
  net.layers.foldlM (fun x l => l.values x) x

/-- The trace at a cropped input. -/
def trace (net : Net K) (x : List K) : Outcome Trace := do
  let (_, t) ← net.traced x
  .ok t

/-- The activity of every rectifier that a run reaches, by layer index. -/
def activity (x : List K) : List (Layer K) → List (Int × List Bool)
  | [] => []
  | l :: rest =>
    match l.values x with
    | .error _ => []
    | .ok y =>
      match l with
      | .relu u => (u.index, Relu.activity x) :: activity y rest
      | _ => activity y rest

/-! ## Along a trace -/

/-- Replays the network on affine terms along a trace. -/
def replay {S : Type} [Source S K] {n : Nat} (net : Net K) (trace : Trace) (ratio : K)
    (x : List (Affine K n)) (r : Replay S K n) : Outcome (List (Affine K n) × Replay S K n) :=
  Replay.layers trace ratio x r net.layers

/-! ## Joining affine layers -/

/-- A run of affine layers as a list of at most one layer. -/
def joined : List (AffineLayer K) → List (Layer K)
  | [] => []
  | [l] => [.affine l]
  | l :: rest => [.affine (.fused l rest)]

/-- Joins the runs of affine layers; `run` holds the affine layers met since the last other one. -/
def joinRuns (run : List (AffineLayer K)) : List (Layer K) → List (Layer K)
  | [] => joined run
  | .affine l :: rest => joinRuns (run ++ [l]) rest
  | l :: rest => joined run ++ l :: joinRuns [] rest

/-- The network with every run of adjacent affine layers joined into one. -/
def coalesce (net : Net K) : Outcome (Net K) := make (joinRuns [] net.layers) net.crop

end Net

end Perturb
