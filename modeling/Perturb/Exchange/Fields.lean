/-
  Taking values apart.

  Models and arrays are exchanged as JSON; these are the readers for its pieces.  A number may also
  be given as one of the words for infinity and "not a number".
-/
import Perturb.Config.Value
import Perturb.Number.Tensor

namespace Perturb.Value

/-- The value under a key, nothing if there is none. -/
def field (v : Value Float) (key : String) : Value Float :=
  match v with
  | .map m => (lookup? m key).getD .null
  | _ => .null

/-- The value under a key that must be there. -/
def required (v : Value Float) (key : String) : Outcome (Value Float) :=
  match v with
  | .map m => match lookup? m key with
    | some w => .ok w
    | none => .error .missingKey
  | _ => .error .wrongType

/-- An integer. -/
def asInt (v : Value Float) : Outcome Int :=
  match v with
  | .int n => .ok n
  | _ => .error .wrongType

/-- A number.  A truth value counts as one or zero. -/
def asReal (v : Value Float) : Outcome Float :=
  match v with
  | .bool b => .ok (if b then 1.0 else 0.0)
  | .int n => .ok (Scalar.ofInt n)
  | .real x => .ok x
  | .text "inf" => .ok Binary.infinity
  | .text "-inf" => .ok (-Binary.infinity)
  | .text "nan" => .ok Binary.notANumber
  | _ => .error .wrongType

/-- A text. -/
def asText (v : Value Float) : Outcome String :=
  match v with
  | .text s => .ok s
  | _ => .error .wrongType

/-- A truth value. -/
def asBool (v : Value Float) : Outcome Bool :=
  match v with
  | .bool b => .ok b
  | _ => .error .wrongType

/-- A list, each entry read alike. -/
def asList {α : Type} (entry : Value Float → Outcome α) (v : Value Float) : Outcome (List α) :=
  match v with
  | .list vs => vs.mapM entry
  | _ => .error .wrongType

/-- A value that may be missing. -/
def orNone {α : Type} (entry : Value Float → Outcome α) (v : Value Float) : Outcome (Option α) :=
  match v with
  | .null => .ok none
  | v => (entry v).map some

/-- A value with a default. -/
def orElse {α : Type} (default : α) (entry : Value Float → Outcome α) (v : Value Float) :
    Outcome α := do
  let x ← orNone entry v
  .ok (x.getD default)

mutual

/-- Entries nested to any depth, as an array. -/
def nested {α : Type} (entry : Value Float → Outcome α) : Value Float → Outcome (Tensor α)
  | .list vs => do
    let parts ← nestedAll entry vs
    Tensor.stack parts
  | v => do
    let x ← entry v
    .ok (Tensor.scalar x)

/-- Several arrays. -/
def nestedAll {α : Type} (entry : Value Float → Outcome α) :
    List (Value Float) → Outcome (List (Tensor α))
  | [] => .ok []
  | v :: rest => do
    let t ← nested entry v
    let ts ← nestedAll entry rest
    .ok (t :: ts)

end

/-- Numbers nested to any depth, as an array. -/
def asTensor (v : Value Float) : Outcome (Tensor Float) := nested asReal v

/-- Numbers nested to any depth, in order. -/
def asReals (v : Value Float) : Outcome (List Float) := do
  let t ← asTensor v
  .ok t.cells

/-- The three extents of an image. -/
def asExtents (v : Value Float) : Outcome Extents := do
  match ← asList asInt v with
  | [c, r, k] => .ok ⟨c, r, k⟩
  | _ => .error .wrongType

/-- An extent for all axes, or one per axis. -/
def asSides (v : Value Float) : Outcome (List Int) :=
  match v with
  | .list _ => asList asInt v
  | v => do
    let n ← asInt v
    .ok [n]

end Perturb.Value
