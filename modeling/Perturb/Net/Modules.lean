/-
  Networks from a list of modules.

  A module describes an operation without its place in a network.  The conversion walks the list
  and keeps track of how many values flow between the layers and, as long as it is known, of the
  image they form: spatial modules need the image, `flatten` forgets it, and a linear module leaves
  a plain vector behind.

  Extents that may be given per axis come as lists; only equal ones are supported.
-/
import Perturb.Net.Basic

namespace Perturb

/-- The padding of a convolution: extents, or a named rule. -/
inductive Padding where
  | extents (sides : List Int)
  | named (mode : String)
  deriving Repr, Inhabited

/-- A convolution module. -/
structure ConvModule (K : Type) where
  weight : Tensor K
  bias : Option (List K)
  stride : List Int
  padding : Padding
  dilation : List Int
  groups : Int
  paddingMode : String

/-- A pooling module; without a stride the window side is used. -/
structure PoolModule where
  kernel : List Int
  stride : Option (List Int)
  padding : List Int
  dilation : List Int
  ceilMode : Bool
  countIncludePad : Bool
  divisorOverride : Option Int

/-- A description of one operation. -/
inductive Module (K : Type) where
  | linear (weight : Tensor K) (bias : Option (List K))
  | conv (m : ConvModule K)
  | maxPool (m : PoolModule)
  | avgPool (m : PoolModule)
  | relu
  | flatten
  | identity
  | other (name : String)

/-- The common value of the extents of an axis pair. -/
def square (sides : List Int) (what : String) : Outcome Int :=
  match sides with
  | [] => .error (.notSquare what [])
  | s :: rest => if rest.all (· == s) then .ok s else .error (.notSquare what sides)

/-- How modules are converted. -/
structure ConversionPlan (K : Type) where
  shape : Option Extents
  crop : Option Int
  scale : Option K
  threads : Int
  legacyDivisor : Bool

/-- The layers so far, and what flows out of them. -/
structure Conversion (K : Type) where
  layers : List (Layer K)
  grid : Option Grid
  size : Option Nat

namespace Conversion

variable {K : Type} [Scalar K]

/-- A conversion with one more layer and what flows out of it. -/
def push (c : Conversion K) (l : Layer K) (grid : Option Grid) : Conversion K :=
  { c with layers := c.layers ++ [l], grid, size := some l.outDim }

/-- The given intercepts, or zeros. -/
def biasOr (bias : Option (List K)) (weight : Tensor K) : List K :=
  bias.getD (List.replicate (weight.shape.headD 0) 0)

/-- Converts a convolution module. -/
def convLayer (plan : ConversionPlan K) (grid : Option Grid) (index : Int) (m : ConvModule K) :
    Outcome (ConvLayer K) := do
  match grid with
  | none => .error (.moduleNeedsGrid "Conv2d")
  | some g =>
    let dilation ← square m.dilation "dilations"
    if dilation ≠ 1 ∨ m.groups ≠ 1 then .error .dilatedConvolution
    else if m.paddingMode ≠ "zeros" then .error (.paddingMode m.paddingMode)
    else
      match m.padding with
      | .named mode => .error (.paddingMode mode)
      | .extents sides =>
        let kernel ← square ((m.weight.shape.drop 2).map Int.ofNat) "kernels"
        let padding ← square sides "paddings"
        let stride ← square m.stride "strides"
        ConvLayer.make index g m.weight (biasOr m.bias m.weight) kernel padding stride plan.threads

/-- The geometry of a pooling module. -/
def poolShape (grid : Option Grid) (title : String) (m : PoolModule) : Outcome PoolShape := do
  match grid with
  | none => .error (.moduleNeedsGrid title)
  | some g =>
    let kernel ← square m.kernel "kernels"
    let stride ← square (m.stride.getD m.kernel) "strides"
    let padding ← square m.padding "paddings"
    .ok ⟨g, kernel, stride, padding, m.ceilMode⟩

/-- Converts a maximum module. -/
def maxPoolLayer (K : Type) [Scalar K] (grid : Option Grid) (index : Int) (m : PoolModule) :
    Outcome MaxPool := do
  let shape ← poolShape grid "MaxPool2d" m
  let dilation ← square m.dilation "dilations"
  if dilation ≠ 1 then .error .dilatedPooling
  else
    let pooling ← Pooling.make K index shape
    .ok ⟨pooling⟩

/-- Converts a mean module. -/
def avgPoolLayer (plan : ConversionPlan K) (index : Int) (shape : PoolShape) (m : PoolModule) :
    Outcome (AvgPool K) := do
  let pooling ← Pooling.make K index shape
  if plan.legacyDivisor then AvgPool.make pooling true false none
  else AvgPool.make pooling false m.countIncludePad m.divisorOverride

/-- Converts one module.  The choice of the legacy divisor is noted even if the layer then cannot
    be made. -/
def step (plan : ConversionPlan K) (c : Conversion K) (m : Module K) :
    List Nat × Outcome (Conversion K) :=
  let place := c.layers.length
  let index := Int.ofNat place
  match m with
  | .linear weight bias => ([], do
      let l ← DenseLayer.make index weight (biasOr bias weight) c.grid
      .ok (c.push (.affine (.stage (.dense l))) none))
  | .conv m => ([], do
      let l ← convLayer plan c.grid index m
      .ok (c.push (.affine (.stage (.conv l))) (some l.output)))
  | .maxPool m => ([], do
      let l ← maxPoolLayer K c.grid index m
      .ok (c.push (.maxPool l) (some l.pooling.output)))
  | .avgPool m =>
    match poolShape c.grid "AvgPool2d" m with
    | .error e => ([], .error e)
    | .ok shape =>
      (if plan.legacyDivisor then [place] else [], do
        let l ← avgPoolLayer plan index shape m
        .ok (c.push (.affine (.stage (.avgPool l))) (some l.pooling.output)))
  | .relu => ([], do
      match c.size with
      | none => .error .reluWithoutSize
      | some n =>
        let l ← Relu.make index n c.grid
        .ok (c.push (.relu l) c.grid))
  | .flatten => ([], .ok { c with grid := none })
  | .identity => ([], .ok c)
  | .other name => ([], .error (.unsupportedModule name))

/-- Converts modules one after the other, collecting the noted positions. -/
def steps (plan : ConversionPlan K) (c : Conversion K) :
    List (Module K) → List Nat × Outcome (Conversion K)
  | [] => ([], .ok c)
  | m :: rest =>
    match step plan c m with
    | (noted, .error e) => (noted, .error e)
    | (noted, .ok c) =>
      let (more, result) := steps plan c rest
      (noted ++ more, result)

/-- What stands before the first module: the crop, the image behind it, and a scaling layer. -/
def begin (plan : ConversionPlan K) : Outcome (Option Crop × Conversion K) := do
  let shape ← match plan.shape with
    | none => .ok none
    | some e => (Grid.of e.channels e.rows e.cols).map some
  let crop ← match plan.crop with
    | none => .ok none
    | some size =>
      match shape with
      | none => .error .cropNeedsShape
      | some g => (Crop.make g size).map some
  let grid := (crop.map Crop.output).or shape
  let start : Conversion K := ⟨[], grid, grid.map Grid.size⟩
  match plan.scale with
  | none => .ok (crop, start)
  | some scale =>
    match grid with
    | none => .error .scaleNeedsShape
    | some g =>
      let l ← DataLayer.make 0 g.size scale none none (some g)
      .ok (crop, start.push (.affine (.stage (.data l))) (some g))

end Conversion

/-- The network of a list of modules, and the positions of the pools that got the legacy divisor. -/
def Net.ofModules {K : Type} [Scalar K] (plan : ConversionPlan K) (modules : List (Module K)) :
    List Nat × Outcome (Net K) :=
  match Conversion.begin plan with
  | .error e => ([], .error e)
  | .ok (crop, start) =>
    match Conversion.steps plan start modules with
    | (noted, .error e) => (noted, .error e)
    | (noted, .ok c) => (noted, Net.make c.layers crop)

end Perturb
