/-
  The layers of a network.

  A `Stage` is a single affine layer.  An `AffineLayer` is a stage or several affine layers run one
  after the other as one; flattened, it is a list of stages, and everything about it, its size, its
  outputs, its replay, is read off that list.  A `Layer` is affine, or one of the two kinds with
  branches.
-/
import Perturb.Layer.Data
import Perturb.Layer.Dense
import Perturb.Layer.Conv
import Perturb.Layer.Pool
import Perturb.Layer.Relu

namespace Perturb

/-! ## Stages -/

/-- A single affine layer. -/
inductive Stage (K : Type) where
  | data (l : DataLayer K)
  | dense (l : DenseLayer K)
  | conv (l : ConvLayer K)
  | avgPool (l : AvgPool K)

namespace Stage

variable {K : Type} [Scalar K]

/-- The index of a stage. -/
def index : Stage K → Int
  | .data l => l.index
  | .dense l => l.index
  | .conv l => l.index
  | .avgPool l => l.pooling.index

/-- The kind of a stage. -/
def kind : Stage K → LayerKind
  | .data _ => .data
  | .dense _ => .dense
  | .conv _ => .conv
  | .avgPool _ => .avgPool

/-- The number of inputs. -/
def inDim : Stage K → Nat
  | .data l => l.size
  | .dense l => l.width
  | .conv l => l.input.size
  | .avgPool l => l.pooling.shape.input.size

/-- The number of outputs. -/
def outDim : Stage K → Nat
  | .data l => l.size
  | .dense l => l.weights.length
  | .conv l => l.output.size
  | .avgPool l => l.pooling.output.size

/-- The image the inputs form. -/
def inGrid : Stage K → Option Grid
  | .data l => l.grid
  | .dense l => l.grid
  | .conv l => some l.input
  | .avgPool l => some l.pooling.shape.input

/-- The image the outputs form. -/
def outGrid : Stage K → Option Grid
  | .data l => l.grid
  | .dense _ => none
  | .conv l => some l.output
  | .avgPool l => some l.pooling.output

/-- The outputs as recipes over the inputs. -/
def recipes : Stage K → List (Recipe K)
  | .data l => l.recipes
  | .dense l => l.recipes
  | .conv l => l.recipes
  | .avgPool l => l.recipes

/-- Refuses a stage that divides by zero.  Only a mean over the padded image can: with a negative
padding a window may lie beyond it. -/
def checkDivisors (s : Stage K) : Outcome Unit :=
  match s with
  | .avgPool l => if l.divisors.any (· == 0) then .error .zeroDivisor else .ok ()
  | _ => .ok ()

/-- Refuses an input of the wrong length, and a stage that divides by zero. -/
def check {A : Type} (s : Stage K) (x : List A) : Outcome Unit :=
  if x.length = s.inDim then s.checkDivisors
  else .error (.inputLength s.index s.kind s.inDim x.length)

/-- The outputs at a point, by the direct formula where a stage has one. -/
def values (s : Stage K) (x : List K) : Outcome (List K) := do
  s.check x
  match s with
  | .data l => .ok (l.values x)
  | .dense l => .ok (l.values x)
  | .conv l => l.values x
  | .avgPool l => .ok (l.recipes.map (Recipe.run x))

/-- The outputs as affine terms of the terms put in. -/
def terms {n : Nat} (s : Stage K) (x : List (Affine K n)) : Outcome (List (Affine K n)) := do
  s.check x
  .ok (s.recipes.map (Recipe.run x))

/-- Whether each stage takes as many values as the one before it gives. -/
def linked : List (Stage K) → Bool
  | [] => true
  | [_] => true
  | a :: b :: rest => a.outDim == b.inDim && linked (b :: rest)

end Stage

/-! ## Affine layers -/

/-- A stage, or several affine layers as one. -/
inductive AffineLayer (K : Type) where
  | stage (s : Stage K)
  | fused (first : AffineLayer K) (rest : List (AffineLayer K))

namespace AffineLayer

variable {K : Type} [Scalar K]

/-- The first stage. -/
def head : AffineLayer K → Stage K
  | .stage s => s
  | .fused first _ => head first

mutual

/-- The stages in order. -/
def stages : AffineLayer K → List (Stage K)
  | .stage s => [s]
  | .fused first rest => stages first ++ stagesOfAll rest

/-- The stages of several layers in order. -/
def stagesOfAll : List (AffineLayer K) → List (Stage K)
  | [] => []
  | l :: rest => stages l ++ stagesOfAll rest

end

/-- The last stage. -/
def last (l : AffineLayer K) : Stage K := (l.stages.getLast?).getD l.head

/-- The layers joined into this one; a stage has none. -/
def members : AffineLayer K → List (AffineLayer K)
  | .stage _ => []
  | .fused first rest => first :: rest

/-- The kind of the layer. -/
def kind : AffineLayer K → LayerKind
  | .stage s => s.kind
  | .fused _ _ => .fused

end AffineLayer

/-! ## Layers -/

/-- A layer of a network. -/
inductive Layer (K : Type) where
  | affine (l : AffineLayer K)
  | relu (l : Relu)
  | maxPool (l : MaxPool)

namespace Layer

variable {K : Type} [Scalar K]

/-- The index of a layer; several layers as one have the index of the first. -/
def index : Layer K → Int
  | .affine l => l.head.index
  | .relu l => l.index
  | .maxPool l => l.pooling.index

/-- The kind of a layer. -/
def kind : Layer K → LayerKind
  | .affine l => l.kind
  | .relu _ => .relu
  | .maxPool _ => .maxPool

/-- The number of inputs. -/
def inDim : Layer K → Nat
  | .affine l => l.head.inDim
  | .relu l => l.size
  | .maxPool l => l.pooling.shape.input.size

/-- The number of outputs. -/
def outDim : Layer K → Nat
  | .affine l => l.last.outDim
  | .relu l => l.size
  | .maxPool l => l.pooling.output.size

/-- The image the inputs form. -/
def inGrid : Layer K → Option Grid
  | .affine l => l.head.inGrid
  | .relu l => l.grid
  | .maxPool l => some l.pooling.shape.input

/-- The image the outputs form. -/
def outGrid : Layer K → Option Grid
  | .affine l => l.last.outGrid
  | .relu l => l.grid
  | .maxPool l => some l.pooling.output

/-- Whether a layer is affine. -/
def isAffine : Layer K → Bool
  | .affine _ => true
  | _ => false

/-- The affine layer inside, if there is one. -/
def affine? : Layer K → Option (AffineLayer K)
  | .affine l => some l
  | _ => none

/-- The description of a layer. -/
def describe (l : Layer K) : String :=
  s!"{l.kind.title}(index={l.index}, {l.inDim} -> {l.outDim})"

/-- Whether the stages inside a layer fit together. -/
def wired : Layer K → Bool
  | .affine l => Stage.linked l.stages
  | _ => true

/-- Refuses an input of the wrong length. -/
def check {A : Type} (l : Layer K) (x : List A) : Outcome Unit :=
  if x.length = l.inDim then .ok () else .error (.inputLength l.index l.kind l.inDim x.length)

/-- Joins affine layers that fit together into one. -/
def fuse (layers : List (Layer K)) : Outcome (Layer K) :=
  match layers with
  | [] => .error .nothingToFuse
  | first :: rest =>
    match layers.find? fun l => !l.isAffine with
    | some l => .error (.fuseNotAffine l.index l.kind)
    | none =>
      match (List.zip layers rest).find? fun (a, b) => a.outDim != b.inDim with
      | some (a, b) => .error (.fuseSizes a.index a.outDim b.index b.inDim)
      | none =>
        match first.affine? with
        | some a => .ok (.affine (.fused a (rest.filterMap affine?)))
        | none => .error (.fuseNotAffine first.index first.kind)

/-! ### Evaluation at a point -/

/-- The outputs at a point. -/
def values (l : Layer K) (x : List K) : Outcome (List K) :=
  match l with
  | .affine a => a.stages.foldlM (fun x s => s.values x) x
  | .relu _ => do
    l.check x
    .ok (Relu.values x)
  | .maxPool m => do
    l.check x
    .ok (m.values x)

/-- The branches taken at a point. -/
def branches (l : Layer K) (x : List K) : Branches :=
  match l with
  | .affine _ => .none
  | .relu _ => ⟨some (Relu.choices x), .none⟩
  | .maxPool m => ⟨.none, some ((m.winners x).map Int.ofNat)⟩

/-- The outputs by the shared rule, with any quantities that can be added up; only a single affine
    stage has one. -/
def shared {A : Type} [Accumulator K A] (l : Layer K) (x : List A) : Outcome (List A) :=
  match l with
  | .affine (.stage s) => do
    s.checkDivisors
    Recipe.runAll x s.recipes
  | _ => .error (.noSharedRule l.kind)

end Layer

end Perturb
