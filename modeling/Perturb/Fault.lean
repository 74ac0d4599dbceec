/-
  Everything that can go wrong, as a list of causes.

  A `Fault` says what was found, with the numbers needed to say it; the wording is one function,
  `Fault.message?`, and the coarse classification another, `Fault.kind`.  Only one distinction is
  ever acted upon inside the library: a batch survives every fault of an item except a `mismatch`,
  which means that the network and the data do not belong together.

  Causes that come from reading foreign text or from an arithmetic accident carry no wording.
-/
import Perturb.Number.Decimal

namespace Perturb

/-- The three extents of an image, as given: channels, rows, columns. -/
structure Extents where
  channels : Int
  rows : Int
  cols : Int
  deriving DecidableEq, Repr, Inhabited

/-- The kinds of layers. -/
inductive LayerKind where
  | data | dense | conv | maxPool | avgPool | relu | fused
  deriving DecidableEq, Repr, Inhabited

/-- The upper-case name of a kind of layer. -/
def LayerKind.name : LayerKind → String
  | .data => "DATA"
  | .dense => "DENSE"
  | .conv => "CONV2D"
  | .maxPool => "MAXPOOL2D"
  | .avgPool => "AVGPOOL2D"
  | .relu => "RELU"
  | .fused => "FUSED"

/-- The title of a kind of layer, as it stands in descriptions. -/
def LayerKind.title : LayerKind → String
  | .data => "DataLayer"
  | .dense => "DenseLayer"
  | .conv => "ConvLayer"
  | .maxPool => "MaxPoolLayer"
  | .avgPool => "AvgPoolLayer"
  | .relu => "ReLULayer"
  | .fused => "FusedLayer"

/-- The causes of failure. -/
inductive Fault where
  -- images
  | gridNotPositive (given : Extents)
  | cropTooLarge (size : Int) (image : Extents)
  | cropLength (expected actual : Nat)
  | uncropLength (expected actual : Nat)
  -- layers
  | gridCoverage (layer : LayerKind) (grid : Extents) (size : Int)
  | inputLength (index : Int) (layer : LayerKind) (expected : Int) (actual : Nat)
  | twoMeans
  | meanLength (given : Nat) (expected : Int)
  | meanNeedsGrid
  | denseShapes (weights bias : List Nat)
  | kernelRowLength (given expected : Nat)
  | kernelBias (kernels bias : Nat)
  | windowInPadding (channel row col : Nat)
  | divisorNotPositive (given : Int)
  | nothingToFuse
  | fuseNotAffine (index : Int) (layer : LayerKind)
  | fuseSizes (before : Int) (outputs : Int) (after : Int) (expects : Int)
  | noSharedRule (layer : LayerKind)
  -- recorded branches
  | nothingRecorded (index : Int)
  | noChoices (index : Int)
  | noSelections (index : Int)
  | unresolvedChoice (unit : Nat) (index : Int)
  | selectionOutside (selection : Int) (window : Nat) (index : Int)
  -- networks
  | noLayers
  | layerSizes (before : Int) (outputs : Int) (after : Int) (expects : Int)
  | cropSizes (produced expected : Int)
  | notSquare (what : String) (given : List Int)
  | cropNeedsShape
  | scaleNeedsShape
  | moduleNeedsGrid (moduleName : String)
  | dilatedConvolution
  | dilatedPooling
  | paddingMode (mode : String)
  | reluWithoutSize
  | unsupportedModule (moduleName : String)
  -- variables, terms, constraints
  | spaceSize (given : Int)
  | spaceExhausted (requested size : Nat)
  | spaceShort (requested left : Int)
  | coefficientShape (shape : List Nat) (size : Nat)
  | spacesDiffer
  | unknownRelation (name : String)
  | selfUnion
  -- programs
  | unknownSense (word : String)
  | unknownObjective (name : String)
  | unknownBackend (name : String)
  | backendMissing
  | backendRefused (text : String)
  | rejectedProgram
  -- data and labels
  | dataSource
  | itemCount (items labels : Nat)
  | imageLength (index : Nat) (given : Nat) (expected : Nat)
  | secondBest
  | emptyVector
  | lengths
  | raggedNumbers
  -- options and files
  | invalidOption (field text : String)
  | noSuchFile (path : String)
  | missingInput
  -- arithmetic and foreign text
  | position
  | wrongType
  | missingKey
  | zeroDivisor
  | tooLarge
  | notANumber
  | negativeSeed
  | emptyRange
  | tensorGeometry
  | badJson
  | badToken
  | badStructure
  | badReference
  | badTag
  | badCharacter
  | usage (code : Nat)
  deriving Inhabited, DecidableEq, Repr

namespace Fault

/-- How a fault is classified. -/
inductive Kind where
  /-- sizes that do not belong together -/
  | mismatch
  /-- a value that is not allowed -/
  | value
  | unsupported
  | exhausted
  | unavailable
  | validation
  | absent
  | position
  | key
  | type
  | zeroDivisor
  | overflow
  | json
  | token
  | grammar
  | reference
  | tag
  | character
  | exit
  deriving DecidableEq, Repr, Inhabited

/-- The class of a fault. -/
def kind : Fault → Kind
  | cropTooLarge .. | cropLength .. | uncropLength .. | gridCoverage .. | inputLength ..
  | meanLength .. | denseShapes .. | kernelRowLength .. | kernelBias .. | fuseSizes ..
  | layerSizes .. | cropSizes .. | coefficientShape .. | spacesDiffer | itemCount ..
  | imageLength .. => .mismatch
  | noSharedRule .. | notSquare .. | dilatedConvolution | dilatedPooling | paddingMode ..
  | unsupportedModule .. => .unsupported
  | spaceExhausted .. | spaceShort .. => .exhausted
  | backendMissing | backendRefused .. | tensorGeometry => .unavailable
  | invalidOption .. => .validation
  | noSuchFile .. | missingInput => .absent
  | position => .position
  | wrongType => .type
  | missingKey => .key
  | zeroDivisor => .zeroDivisor
  | tooLarge => .overflow
  | badJson => .json
  | badToken => .token
  | badStructure => .grammar
  | badReference => .reference
  | badTag => .tag
  | badCharacter => .character
  | usage .. => .exit
  | _ => .value

/-- The text of extents in a message about a grid. -/
def gridText (e : Extents) : String :=
  "ImageCoordinates(channels=" ++ Number.plain e.channels ++ ", rows=" ++ Number.plain e.rows
    ++ ", cols=" ++ Number.plain e.cols ++ ")"

/-- A tuple of integers in parentheses; a single one keeps its comma. -/
def tupleText (xs : List Int) : String :=
  match xs with
  | [x] => "(" ++ Number.plain x ++ ",)"
  | _ => "(" ++ String.intercalate ", " (xs.map Number.plain) ++ ")"

/-- A tuple of sizes. -/
def shapeText (xs : List Nat) : String := tupleText (xs.map Int.ofNat)

/-- The wording of a fault that has one. -/
def message? : Fault → Option String
  | gridNotPositive e =>
    s!"Coordinates must be positive, got {e.channels}x{e.rows}x{e.cols}"
  | cropTooLarge s e => s!"Crop size {s} does not fit a {e.rows}x{e.cols} image"
  | cropLength n m => s!"Crop expects {n} inputs, got {m}"
  | uncropLength n m => s!"Uncrop expects {n} values, got {m}"
  | gridCoverage l e n =>
    s!"{l.title}: input coordinates {gridText e} do not cover {n} inputs"
  | inputLength i l n m => s!"Layer {i} ({l.name}) expects {n} inputs, got {m}"
  | twoMeans => "DataLayer takes a mean image or a per-channel mean, not both"
  | meanLength n m => s!"Mean image has {n} entries, layer has {m} inputs"
  | meanNeedsGrid => "A per-channel mean needs input coordinates"
  | denseShapes w b => s!"Dense weights {shapeText w} do not match bias {shapeText b}"
  | kernelRowLength n m => s!"Kernel rows have {n} entries, expected {m}"
  | kernelBias n m => s!"{n} kernels but {m} intercepts"
  | windowInPadding a b c => s!"Pooling window ({a}, {b}, {c}) lies entirely in the padding"
  | divisorNotPositive n => s!"divisor_override must be positive, got {n}"
  | nothingToFuse => "FusedLayer needs at least one layer"
  | fuseNotAffine i l => s!"Layer {i} ({l.name}) is not affine and cannot be fused"
  | fuseSizes a n b m => s!"Layer {a} outputs {n} values, layer {b} expects {m}"
  | noSharedRule l => s!"LayerKind.{l.name} has no shared forward rule"
  | nothingRecorded i => s!"No instrumentation recorded for layer {i}"
  | noChoices i => s!"Layer {i} has no activation choices recorded"
  | noSelections i => s!"Layer {i} has no pooling selections recorded"
  | unresolvedChoice u i => s!"Unresolved activation choice for unit {u} of layer {i}"
  | selectionOutside s w i => s!"Recorded selection {s} is outside window {w} of layer {i}"
  | noLayers => "A network needs at least one layer"
  | layerSizes a n b m => s!"Layer {a} outputs {n} values but layer {b} expects {m}"
  | cropSizes n m => s!"Crop produces {n} values, first layer expects {m}"
  | notSquare what xs => s!"Only square {what} are supported, got {tupleText xs}"
  | cropNeedsShape => "Cropping needs an input shape"
  | scaleNeedsShape => "A leading scale needs an input shape"
  | moduleNeedsGrid m => s!"{m} needs spatial input coordinates"
  | dilatedConvolution => "Dilated or grouped convolutions are not supported"
  | dilatedPooling => "Dilated pooling is not supported"
  | paddingMode m => s!"Padding mode '{m}' is not supported"
  | reluWithoutSize => "ReLU before any layer with a known size"
  | unsupportedModule m => s!"Unsupported module: {m}"
  | spaceSize n => s!"Variable space size must be positive, got {n}"
  | spaceExhausted n m => s!"Requested variable {n} of a space of size {m}"
  | spaceShort n m => s!"Requested {n} variables with {m} left"
  | coefficientShape s n =>
    s!"Coefficient vector of shape {shapeText s} for a space of size {n}"
  | spacesDiffer => "Terms belong to different variable spaces"
  | unknownRelation r => s!"Unknown inequality {r}"
  | selfUnion => "A constraint set cannot be unioned with itself"
  | unknownSense w => s!"Unknown row sense: {w}"
  | unknownObjective n => s!"Unknown objective kind: {n}"
  | unknownBackend n => s!"Unknown solver backend: {n}"
  | backendMissing => "gurobipy is not available in this environment."
  | backendRefused t => t
  | dataSource => "Dataset needs exactly one of data or loader"
  | itemCount n m => s!"{n} data items but {m} labels"
  | imageLength i n m => s!"Image {i} has {n} values, expected {m}"
  | secondBest => "Second-best label needs at least two outputs"
  | invalidOption f t => s!"Configuration error in '{f}': {t}"
  | noSuchFile p => s!"Configuration file not found: {p}"
  | _ => none

/-- The option a fault is about. -/
def field? : Fault → Option String
  | invalidOption f _ => f
  | _ => none

end Fault

/-- A computation that gives a value or the cause of its failure. -/
abbrev Outcome (α : Type) := Except Fault α

/-- A step on a state that may fail; a failure leaves the state as it was at that moment. -/
abbrev Step (S α : Type) := EStateM Fault S α

end Perturb
