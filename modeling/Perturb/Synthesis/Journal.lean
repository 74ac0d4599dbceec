/-
  Events as lines of a log.

  A line has a level, the part of the program it comes from, and a text.
-/
import Perturb.Synthesis.Attempt

namespace Perturb

/-- How grave a line is. -/
inductive Level where
  | info | warning | error
  deriving DecidableEq, Repr, Inhabited

/-- The part of the program a line comes from. -/
inductive Origin where
  | run | config | conversion | accuracy | backend | synthesis | stats
  deriving DecidableEq, Repr, Inhabited

/-- A line of a log. -/
structure LogLine where
  level : Level
  origin : Origin
  text : String
  deriving Repr, Inhabited

/-- The word of a level. -/
def Level.word : Level → String
  | .info => "INFO"
  | .warning => "WARNING"
  | .error => "ERROR"

/-- The levels from a word on. -/
def Level.upFrom (word : String) : List Level :=
  match word with
  | "ERROR" => [.error]
  | "WARNING" => [.warning, .error]
  | _ => [.info, .warning, .error]

/-- The word of the part a line comes from. -/
def Origin.word : Origin → String
  | .run => "run"
  | .config => "config"
  | .conversion => "conversion"
  | .accuracy => "accuracy"
  | .backend => "backend"
  | .synthesis => "synthesis"
  | .stats => "stats"

/-- A line as it is shown. -/
def LogLine.show (l : LogLine) : String := s!"{l.level.word} {l.origin.word}: {l.text}"

namespace Event

/-- The share of a count in percent. -/
def percent (count total : Nat) : Float :=
  100.0 * ((Scalar.ofNat count : Float) / (Scalar.ofNat total : Float))

/-- The lines that summarise counters. -/
def summaryTexts (entries : List (String × Int)) : List String :=
  "Synthesis summary:" :: entries.map fun (key, n) => s!"  {key}: {n}"

/-- The lines of an event. -/
def lines : Event Float → List LogLine
  | .alreadyWrong label truth =>
    [⟨.info, .synthesis, s!"Input already misclassified ({label} instead of {truth}), skipping"⟩]
  | .notSure p =>
    [⟨.info, .synthesis,
      "Input classified with low confidence (" ++ Number.fixedText 3 p ++ "), skipping"⟩]
  | .backendFallback =>
    [⟨.warning, .backend, "Gurobi not usable, falling back to the SciPy HiGHS backend"⟩]
  | .legacyDivisor i =>
    [⟨.warning, .conversion, s!"AvgPool2d at layer {i} uses the legacy divisor, not torch's"⟩]
  | .found i a b linf solves =>
    [⟨.info, .synthesis, s!"Item {i}: counterexample {a} -> {b}, linf " ++ Number.fixedText 4 linf
      ++ s!" after {solves} solve(s)"⟩]
  | .notFound i reason => [⟨.info, .synthesis, s!"Item {i}: no counterexample ({reason})"⟩]
  | .progress n count hits =>
    [⟨.info, .synthesis, s!"Progress: {n}/{count} processed, {hits} found"⟩]
  | .failed i => [⟨.error, .synthesis, s!"Synthesis failed for item {i}"⟩]
  | .accuracy name n total =>
    [⟨.info, .accuracy, s!"Accuracy on {name}: {n}/{total} (" ++
      Number.fixedText 2 (percent n total) ++ "%)"⟩]
  | .patterns l distinct collisions =>
    [⟨.info, .accuracy,
      s!"Layer {l}: {distinct} distinct activation patterns, {collisions} collisions so far"⟩]
  | .summary entries => (summaryTexts entries).map fun t => ⟨.info, .stats, t⟩
  | .optionsLoaded path => [⟨.info, .config, s!"Loaded synthesis options from {path}"⟩]
  | .netLoaded text => [⟨.info, .run, s!"Loaded {text}"⟩]
  | .dataLoaded n path => [⟨.info, .run, s!"Loaded {n} items from {path}"⟩]
  | .registryWritten path n => [⟨.info, .run, s!"Registry written to {path} ({n} records)"⟩]

end Event

end Perturb
