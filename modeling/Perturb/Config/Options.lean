/-
  Options: which there are, what they default to, and which values they accept.

  Options are a value for every key.  They are changed by mappings: every key must be known, a
  truth value is required where one is expected, and then all ranges are checked in a fixed order,
  so that of several offences the first in that order is reported.

  Layers of options, defaults, a file, overrides, are put on top of each other; an override that
  says nothing changes nothing.
-/
import Perturb.Config.Value
import Perturb.Synthesis.Settings

namespace Perturb

/-- The options. -/
inductive OptionKey where
  | registry | datasetPercentage | cegar | doOptimization | epsilon | minValue | maxValue
  | labelConfidenceDiff | objective | lpTimeLimit | ignoreLowConfidence | lowConfidenceThreshold
  | giveUpIterations | samplingRatio | quantizationSafety | quantizationStep | integrality
  | maxPromotions | workers | threads | solver | seed | legacyDivisor | outputDir
  deriving DecidableEq, Repr, Inhabited

namespace OptionKey

/-- All options in order. -/
def all : List OptionKey :=
  [.registry, .datasetPercentage, .cegar, .doOptimization, .epsilon, .minValue, .maxValue,
    .labelConfidenceDiff, .objective, .lpTimeLimit, .ignoreLowConfidence, .lowConfidenceThreshold,
    .giveUpIterations, .samplingRatio, .quantizationSafety, .quantizationStep, .integrality,
    .maxPromotions, .workers, .threads, .solver, .seed, .legacyDivisor, .outputDir]

/-- The name of an option. -/
def name : OptionKey → String
  | .registry => "registry"
  | .datasetPercentage => "dataset_percentage"
  | .cegar => "cegar"
  | .doOptimization => "do_optimization"
  | .epsilon => "epsilon"
  | .minValue => "min_value"
  | .maxValue => "max_value"
  | .labelConfidenceDiff => "label_confidence_diff"
  | .objective => "objective"
  | .lpTimeLimit => "lp_time_limit"
  | .ignoreLowConfidence => "ignore_low_confidence"
  | .lowConfidenceThreshold => "low_confidence_threshold"
  | .giveUpIterations => "cegar_give_up_iterations"
  | .samplingRatio => "live_constraint_sampling_ratio"
  | .quantizationSafety => "quantization_safety"
  | .quantizationStep => "quantization_step"
  | .integrality => "integrality"
  | .maxPromotions => "max_promotions_per_round"
  | .workers => "workers"
  | .threads => "threads"
  | .solver => "solver"
  | .seed => "seed"
  | .legacyDivisor => "avgpool_legacy_divisor"
  | .outputDir => "output_dir"

/-- The option of a name. -/
def ofName? (s : String) : Option OptionKey := all.find? fun k => k.name == s

/-- The option of a key in a mapping. -/
def ofValue? {K : Type} : Value K → Option OptionKey
  | .text s => ofName? s
  | _ => none

/-- Whether an option expects a truth value. -/
def isBoolean : OptionKey → Bool
  | .cegar => true
  | .doOptimization => true
  | .ignoreLowConfidence => true
  | .quantizationSafety => true
  | .integrality => true
  | .legacyDivisor => true
  | _ => false

/-- What an option is unless it is set. -/
def default {K : Type} [Scalar K] : OptionKey → Value K
  | .registry => .text "generic-registry"
  | .datasetPercentage => .real 1
  | .cegar => .bool true
  | .doOptimization => .bool true
  | .epsilon => .real (Scalar.ofInt 20)
  | .minValue => .real 0
  | .maxValue => .real (Scalar.ofInt 255)
  | .labelConfidenceDiff => .real 0
  | .objective => .text "min-linf"
  | .lpTimeLimit => .real (Scalar.ofInt 480)
  | .ignoreLowConfidence => .bool false
  | .lowConfidenceThreshold => .real (Scalar.ofRat (mkRat 55 100))
  | .giveUpIterations => .int 4
  | .samplingRatio => .real (Scalar.ofRat (mkRat 1 10))
  | .quantizationSafety => .bool true
  | .quantizationStep => .real 1
  | .integrality => .bool false
  | .maxPromotions => .int 700
  | .workers => .int 1
  | .threads => .int 1
  | .solver => .text "auto"
  | .seed => .null
  | .legacyDivisor => .bool false
  | .outputDir => .null

end OptionKey

/-- A value for every option. -/
structure Options (K : Type) where
  get : OptionKey → Value K

namespace Options

variable {K : Type} [Scalar K]

/-- The defaults. -/
def defaults : Options K := ⟨OptionKey.default⟩

/-- Options with one of them changed. -/
def set (o : Options K) (key : OptionKey) (v : Value K) : Options K :=
  ⟨fun k => if k = key then v else o.get k⟩

/-- Options as a mapping of all of them, in order. -/
def entries (o : Options K) : Mapping K :=
  OptionKey.all.map fun k => (.text k.name, o.get k)

/-! ## Ranges -/

/-- Passes if a test that must fail does fail. -/
def refuseIf (test : Outcome Bool) (key : OptionKey) (text : String) : Outcome Unit := do
  if ← test then .error (.invalidOption key.name text) else .ok ()

/-- Passes if a test that must succeed does succeed. -/
def require (test : Outcome Bool) (key : OptionKey) (text : String) : Outcome Unit := do
  if ← test then .ok () else .error (.invalidOption key.name text)

/-- Whether a value is at least zero and at most one. -/
def inUnit (v : Value K) : Outcome Bool := do
  if ← Value.atMost (.real 0) v then Value.atMost v (.real 1) else .ok false

/-- Whether a value is one of some words. -/
def oneOf (words : List String) (v : Value K) : Bool := words.any fun w => Value.same v (.text w)

/-- Checks the ranges of all options. -/
def validate (o : Options K) : Outcome Unit := do
  let zero : Value K := .real 0
  let v := o.get
  require (do
    if ← Value.less zero (v .datasetPercentage) then Value.atMost (v .datasetPercentage) (.real 1)
    else .ok false) .datasetPercentage "must be in (0, 1]"
  refuseIf (Value.atMost (v .epsilon) zero) .epsilon "must be positive"
  refuseIf (Value.less (v .maxValue) (v .minValue)) .minValue "must not exceed max_value"
  refuseIf (Value.less (v .labelConfidenceDiff) zero) .labelConfidenceDiff "must be non-negative"
  require (.ok (oneOf ["min-linf", "max-conf"] (v .objective))) .objective
    ("unknown objective '" ++ (v .objective).display ++ "'")
  refuseIf (Value.atMost (v .lpTimeLimit) zero) .lpTimeLimit "must be positive"
  require (inUnit (v .lowConfidenceThreshold)) .lowConfidenceThreshold "must be in [0, 1]"
  refuseIf (Value.less (v .giveUpIterations) (.int 0)) .giveUpIterations "must be non-negative"
  require (inUnit (v .samplingRatio)) .samplingRatio "must be in [0, 1]"
  refuseIf (Value.atMost (v .quantizationStep) zero) .quantizationStep "must be positive"
  refuseIf (Value.atMost (v .maxPromotions) (.int 0)) .maxPromotions "must be positive"
  refuseIf (Value.less (v .workers) (.int 1)) .workers "must be at least 1"
  refuseIf (Value.less (v .threads) (.int 1)) .threads "must be at least 1"
  require (.ok (oneOf ["auto", "gurobi", "scipy"] (v .solver))) .solver
    ("unknown solver '" ++ (v .solver).display ++ "'")

/-! ## Layers -/

/-- The first key of a mapping that names no option. -/
def unknownKey? (m : Mapping K) : Option (Value K) :=
  (m.find? fun (k, _) => (OptionKey.ofValue? k).isNone).map (·.1)

/-- Whether an entry gives an option that expects a truth value something else. -/
def notBoolean (key value : Value K) : Bool :=
  match OptionKey.ofValue? key, value with
  | some _, .bool _ => false
  | some k, _ => k.isBoolean
  | none, _ => false

/-- Options changed by the entries of a mapping, one after the other. -/
def overlay (o : Options K) (m : Mapping K) : Options K :=
  m.foldl (fun o (key, value) =>
    match OptionKey.ofValue? key with
    | some k => o.set k value
    | none => o) o

/-- Options changed by a mapping, if all its keys are known and the result is acceptable. -/
def update (o : Options K) (m : Mapping K) : Outcome (Options K) := do
  match unknownKey? m with
  | some key => .error (.invalidOption key.display "unknown option")
  | none =>
    match m.find? fun (k, v) => notBoolean k v with
    | some (key, value) =>
      .error (.invalidOption key.display ("expected a boolean, got " ++ value.describe))
    | none =>
      let changed := o.overlay m
      validate changed
      .ok changed

/-- The entries of a mapping that say something. -/
def spoken (m : Mapping K) : Mapping K :=
  m.filter fun (_, v) => match v with
    | .null => false
    | _ => true

/-- The options of a file's mapping, if there is a file, under some overrides. -/
def layered (file : Option (Mapping K)) (overrides : Mapping K) : Outcome (Options K) := do
  let o : Options K := defaults
  let o ← match file with
    | some m => o.update m
    | none => .ok o
  let o ← if overrides.isEmpty then .ok o else o.update (spoken overrides)
  validate o
  .ok o

/-! ## Typed settings -/

/-- The number an option counts as. -/
def number (o : Options K) (key : OptionKey) : Outcome K :=
  match (o.get key).number? with
  | some x => .ok x
  | none => .error .wrongType

/-- The settings a run reads off the options. -/
def settings (o : Options K) : Outcome (Settings K) := do
  let seed ← match o.get .seed with
    | .null => .ok none
    | v => match v.integer? with
      | some n => .ok (some n)
      | none => .error .wrongType
  let timeLimit ← match o.get .lpTimeLimit with
    | .null => .ok none
    | _ => (o.number .lpTimeLimit).map some
  .ok {
    percentage := ← o.number .datasetPercentage
    lazy := (o.get .cegar).truthy
    optimise := (o.get .doOptimization).truthy
    epsilon := ← o.number .epsilon
    minValue := ← o.number .minValue
    maxValue := ← o.number .maxValue
    margin := ← o.number .labelConfidenceDiff
    objective := (o.get .objective).display
    timeLimit
    skipLowConfidence := (o.get .ignoreLowConfidence).truthy
    lowConfidence := ← o.number .lowConfidenceThreshold
    giveUpAfter := ← o.number .giveUpIterations
    samplingRatio := ← o.number .samplingRatio
    quantized := (o.get .quantizationSafety).truthy
    quantizationStep := ← o.number .quantizationStep
    integrality := (o.get .integrality).truthy
    maxPromotions := ← o.number .maxPromotions
    backend := (o.get .solver).display
    seed }

end Options

end Perturb
