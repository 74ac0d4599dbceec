/-
  Networks as they are exchanged: a list of layers with their parameters and an optional crop, or a
  list of modules with what the conversion needs to know.
-/
import Perturb.Exchange.Model

namespace Perturb.Exchange

open Value

/-- A field that may be missing. -/
def given {α : Type} (v : Value Float) (key : String) (default : α)
    (entry : Value Float → Outcome α) : Outcome α :=
  orElse default entry (v.field key)

/-- The grid of an image, if its extents are given. -/
def gridOf (v : Value Float) : Outcome (Option Grid) := do
  match ← orNone asExtents v with
  | some e => (Grid.of e.channels e.rows e.cols).map some
  | none => .ok none

/-- The grid of an image whose extents must be given. -/
def gridGiven (v : Value Float) : Outcome Grid := do
  match ← gridOf v with
  | some g => .ok g
  | none => .error .wrongType

/-- A single stage as a layer. -/
def single (s : Stage Float) : Layer Float := .affine (.stage s)

/-- The shape of a pooling layer. -/
def poolShapeOf (v : Value Float) : Outcome PoolShape := do
  .ok ⟨← gridGiven (v.field "coords"), ← asInt (v.field "k"), ← asInt (v.field "stride"),
    ← given v "padding" 0 asInt, ← given v "ceil" true asBool⟩

/-- A layer that scales its inputs. -/
def dataLayerOf (index : Int) (v : Value Float) : Outcome (Layer Float) := do
  let grid ← gridOf (v.field "coords")
  let size ← asInt (v.field "dim")
  let scale ← given v "scale" 1.0 asReal
  let _ ← if size < 0 then .error .lengths else .ok ()
  let l ← DataLayer.make index size.toNat scale (← orNone asReals (v.field "mean_image"))
    (← orNone (asList asReal) (v.field "mean_channel")) grid
  .ok (single (.data l))

/-- A fully connected layer. -/
def denseLayerOf (index : Int) (v : Value Float) : Outcome (Layer Float) := do
  let grid ← gridOf (v.field "coords")
  let l ← DenseLayer.make index (← asTensor (v.field "weights")) (← asReals (v.field "bias")) grid
  .ok (single (.dense l))

/-- A convolution. -/
def convLayerOf (index : Int) (v : Value Float) : Outcome (Layer Float) := do
  let l ← ConvLayer.make index (← gridGiven (v.field "coords")) (← asTensor (v.field "kernels"))
    (← asReals (v.field "bias")) (← asInt (v.field "k")) (← given v "padding" 0 asInt)
    (← given v "stride" 1 asInt) (← given v "workers" 1 asInt)
  .ok (single (.conv l))

/-- A layer of means. -/
def avgPoolLayerOf (index : Int) (v : Value Float) : Outcome (Layer Float) := do
  let p ← Pooling.make Float index (← poolShapeOf v)
  let l ← AvgPool.make p (← given v "legacy" true asBool) (← given v "include_pad" false asBool)
    (← orNone asInt (v.field "override"))
  .ok (single (.avgPool l))

/-- A layer that has no parts, at a place of its list. -/
def plainLayerOf (place : Nat) (v : Value Float) : Outcome (Layer Float) := do
  let index ← given v "index" (Int.ofNat place) asInt
  match ← asText (v.field "kind") with
  | "data" => dataLayerOf index v
  | "dense" => denseLayerOf index v
  | "conv" => convLayerOf index v
  | "avgpool" => avgPoolLayerOf index v
  | "maxpool" => do
    let p ← Pooling.make Float index (← poolShapeOf v)
    .ok (.maxPool ⟨p⟩)
  | "relu" => do
    let size ← asInt (v.field "dim")
    let l ← Relu.make index size.toNat (← gridOf (v.field "coords"))
    .ok (.relu l)
  | _ => .error .wrongType

mutual

/-- A layer at a place of its list; a joined one consists of layers of its own. -/
def layerOf (place : Nat) : Value Float → Outcome (Layer Float)
  | .map entries => do
    if lookup? entries "kind" |>.any (fun k => same k (.text "fused")) then
      Layer.fuse (← partsOf entries)
    else plainLayerOf place (.map entries)
  | _ => .error .wrongType

/-- The layers under the key of parts. -/
def partsOf : List (Value Float × Value Float) → Outcome (List (Layer Float))
  | [] => .ok []
  | (.text "layers", .list vs) :: _ => layersFrom 0 vs
  | _ :: rest => partsOf rest

/-- Layers from a place on. -/
def layersFrom (place : Nat) : List (Value Float) → Outcome (List (Layer Float))
  | [] => .ok []
  | v :: rest => do
    let l ← layerOf place v
    let ls ← layersFrom (place + 1) rest
    .ok (l :: ls)

end

/-- A crop. -/
def cropOf (v : Value Float) : Outcome Crop := do
  Crop.make (← gridGiven (v.field "coords")) (← asInt (v.field "size"))

/-- What a conversion needs to know. -/
def planOf (v : Value Float) : Outcome (ConversionPlan Float) := do
  .ok ⟨← orNone asExtents (v.field "input_shape"), ← orNone asInt (v.field "crop"),
    ← orNone asReal (v.field "scale"), ← given v "threads" 1 asInt, ← given v "legacy" false asBool⟩

/-- A network. -/
def netOf (v : Value Float) : Outcome (Net Float) := do
  match v.field "modules" with
  | .null =>
    let layers ← match v.field "layers" with
      | .list vs => layersFrom 0 vs
      | _ => .error .wrongType
    Net.make layers (← orNone cropOf (v.field "crop"))
  | modules => (Net.ofModules (← planOf v) (← modelOf modules)).2

end Perturb.Exchange
