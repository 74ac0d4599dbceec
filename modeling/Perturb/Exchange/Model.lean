/-
  Models as they are exchanged: a list of modules, each a mapping with its type and parameters.
-/
import Perturb.Exchange.Fields
import Perturb.Net.Modules

namespace Perturb.Exchange

open Value

/-- The padding of a convolution. -/
def paddingOf (v : Value Float) : Outcome Padding :=
  match v with
  | .text mode => .ok (.named mode)
  | .null => .ok (.extents [0])
  | v => (asSides v).map .extents

/-- Whether a convolution module makes sense by itself: its modes exist, padding that keeps the size
comes with a stride of one, and the groups share the kernels out evenly. -/
def soundConv (m : ConvModule Float) : Bool :=
  let mode := ["zeros", "reflect", "replicate", "circular"].contains m.paddingMode
  let padding := match m.padding with
    | .named name => name == "valid" || (name == "same" && m.stride.all (· == 1))
    | .extents _ => true
  mode && padding && 0 < m.groups && Int.ofNat (m.weight.shape.headD 0) % m.groups == 0

/-- A convolution module. -/
def convOf (v : Value Float) : Outcome (ConvModule Float) := do
  let m : ConvModule Float := {
    weight := ← asTensor (← v.required "weight")
    bias := ← orNone asReals (v.field "bias")
    stride := ← orElse [1] asSides (v.field "stride")
    padding := ← paddingOf (v.field "padding")
    dilation := ← orElse [1] asSides (v.field "dilation")
    groups := ← orElse 1 asInt (v.field "groups")
    paddingMode := ← orElse "zeros" asText (v.field "padding_mode") }
  if soundConv m then .ok m else .error .lengths

/-- A pooling module. -/
def poolOf (v : Value Float) : Outcome PoolModule := do
  .ok {
    kernel := ← asSides (← v.required "kernel_size")
    stride := ← orNone asSides (v.field "stride")
    padding := ← orElse [0] asSides (v.field "padding")
    dilation := ← orElse [1] asSides (v.field "dilation")
    ceilMode := ← orElse false asBool (v.field "ceil_mode")
    countIncludePad := ← orElse true asBool (v.field "count_include_pad")
    divisorOverride := ← orNone asInt (v.field "divisor_override") }

/-- A module. -/
def moduleOf (v : Value Float) : Outcome (Module Float) := do
  match ← asText (← v.required "type") with
  | "Linear" =>
    .ok (.linear (← asTensor (← v.required "weight")) (← orNone asReals (v.field "bias")))
  | "Conv2d" => (convOf v).map .conv
  | "MaxPool2d" => (poolOf v).map .maxPool
  | "AvgPool2d" => (poolOf v).map .avgPool
  | "ReLU" => .ok .relu
  | "Flatten" => .ok .flatten
  | "Identity" => .ok .identity
  | name => .ok (.other name)

/-- The modules of a model. -/
def modelOf (v : Value Float) : Outcome (List (Module Float)) := asList moduleOf v

end Perturb.Exchange
