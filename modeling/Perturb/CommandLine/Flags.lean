/-
  The flags of the command line.

  A flag is given by its name, or by any beginning of it that no other flag shares; its value is
  the next argument, or follows an equals sign.  Arguments are read in two passes: first each one is
  told to be a flag or a value by its look alone, then flags take their values from the left.

  An argument that starts with a dash and is neither a number nor contains a blank is never a value.
  Asking for help ends the reading at that point; any other offence ends it as a misuse, but a stray
  or missing argument only after all flags have been read.
-/
import Perturb.Config.Value
import Perturb.Number.Literal

namespace Perturb

/-- What a flag takes. -/
inductive FlagValue where
  /-- any text -/
  | text
  /-- one of some words -/
  | word (choices : List String)
  | int
  | real
  /-- three integers -/
  | extents
  /-- nothing; the flag sets a truth value -/
  | switch (on : Bool)
  /-- nothing; the flag asks for help -/
  | help
  deriving DecidableEq, Repr

/-- A flag: its spelling, the setting it belongs to, what it takes, and the setting without it. -/
structure Flag where
  spelling : String
  setting : String
  takes : FlagValue
  absent : Value Float
  required : Bool

namespace Flag

/-- A flag that may be left out. -/
def optional (setting : String) (takes : FlagValue) : Flag :=
  ⟨"--" ++ setting, setting, takes, .null, false⟩

/-- All flags that belong to a setting, in order. -/
def settings : List Flag := [
  { optional "model_path" .text with required := true },
  { optional "dataset" .text with required := true },
  optional "input_shape" .extents,
  optional "crop" .int,
  optional "config" .text,
  { optional "log_level" (.word ["DEBUG", "INFO", "WARNING", "ERROR"]) with
    absent := .text "INFO" },
  { optional "log_activation_patterns" (.switch true) with absent := .bool false },
  optional "solver" (.word ["auto", "gurobi", "scipy"]),
  optional "lp_time_limit" .real,
  optional "integrality" (.switch true),
  optional "epsilon" .real,
  optional "objective" (.word ["min-linf", "max-conf"]),
  { optional "cegar" (.switch false) with spelling := "--no_cegar" },
  optional "cegar_give_up_iterations" .int,
  { optional "quantization_safety" (.switch false) with spelling := "--no_quantization_safety" },
  optional "live_constraint_sampling_ratio" .real,
  optional "dataset_percentage" .real,
  optional "workers" .int,
  optional "threads" .int,
  optional "seed" .int,
  optional "output_dir" .text,
  optional "registry" .text]

/-- All flags. -/
def all : List Flag :=
  { optional "help" .help with spelling := "-h" } :: optional "help" .help :: settings

/-- What stands for the value of a flag in the usage. -/
def placeholder (f : Flag) : String :=
  match f.takes with
  | .text | .int | .real => " " ++ f.setting.toUpper
  | .word choices => " " ++ String.intercalate "|" choices
  | .extents => " C H W"
  | .switch _ | .help => ""

/-- The usage of the command line, a flag a line. -/
def usage : String :=
  String.intercalate "\n  "
    ("usage: perturb [flags]" :: all.map fun f => f.spelling ++ f.placeholder)

/-! ## Telling flags from values -/

/-- What an argument looks like. -/
inductive Look where
  | value
  /-- the mark after which everything is a value -/
  | ending
  | flag (f : Flag) (attached : Option String)
  | ambiguous
  | unknown

/-- A text cut at its first equals sign. -/
def splitEquals (cs : List Char) : List Char × Option (List Char) :=
  match cs.dropWhile (· != '=') with
  | [] => (cs, none)
  | _ :: rest => (cs.takeWhile (· != '='), some rest)

/-- Whether a text is a negative number: a dash, then digits with at most one point among them,
    and at least one digit behind it. -/
def isNegativeNumber (cs : List Char) : Bool :=
  match cs.map Number.plainDigit with
  | '-' :: rest =>
    let whole := rest.takeWhile Number.isDigit
    match rest.dropWhile Number.isDigit with
    | [] => !whole.isEmpty
    | '.' :: fraction => !fraction.isEmpty && fraction.all Number.isDigit
    | _ => false
  | _ => false

/-- The flags that an argument abbreviates.  What hangs on a short flag would be a flag of its own,
which help does not get to. -/
def abbreviated (cs : List Char) : List (Flag × Option String) :=
  let (name, attached) := splitEquals cs
  match cs with
  | '-' :: '-' :: _ =>
    (all.filter fun f => name.isPrefixOf f.spelling.toList).map
      fun f => (f, attached.map String.ofList)
  | '-' :: 'h' :: _ => (all.filter fun f => f.spelling == "-h").map fun f => (f, none)
  | _ => []

/-- The look of an argument in front of the ending mark. -/
def look (arg : String) : Look :=
  let cs := arg.toList
  let (name, attached) := splitEquals cs
  let exact (name : List Char) := all.find? fun f => f.spelling.toList == name
  match cs with
  | '-' :: _ :: _ =>
    if cs = ['-', '-'] then .ending
    else
      match exact cs, if attached.isSome then exact name else none with
      | some f, _ => .flag f none
      | none, some f => .flag f (attached.map String.ofList)
      | none, none =>
        match abbreviated cs with
        | [(f, attached)] => .flag f attached
        | _ :: _ :: _ => .ambiguous
        | [] => if isNegativeNumber cs || cs.contains ' ' then .value else .unknown
  | _ => .value

/-- The looks of all arguments. -/
def looks : List String → List (String × Look)
  | [] => []
  | arg :: rest =>
    match look arg with
    | .ending => (arg, .ending) :: rest.map fun a => (a, .value)
    | l => (arg, l) :: looks rest

/-! ## Reading -/

/-- The fault of a misuse. -/
def misuse : Fault := .usage 2

/-- The value that a text is for a flag. -/
def valueOf? (takes : FlagValue) (s : String) : Option (Value Float) :=
  match takes with
  | .text => some (.text s)
  | .word choices => if choices.contains s then some (.text s) else none
  | .int => (Number.typedInteger? s).map .int
  | .real => (Number.typedReal? s).map .real
  | _ => none

/-- What has been read: the settings, and whether a stray argument was met. -/
structure Read where
  settings : Mapping Float
  stray : Bool

/-- Adds a setting. -/
def Read.put (r : Read) (f : Flag) (v : Value Float) : Read :=
  { r with settings := Value.putEntry (.text f.setting) v r.settings }

/-- Reads the value of a flag that takes one. -/
def single (f : Flag) (s : String) (r : Read) : Outcome Read :=
  match valueOf? f.takes s with
  | some v => .ok (r.put f v)
  | none => .error misuse

/-- Reads arguments from the left. -/
def walk (r : Read) : List (String × Look) → Outcome Read
  | [] => .ok r
  | (_, .flag f (some s)) :: rest =>
    match f.takes with
    | .help | .switch _ | .extents => .error misuse
    | _ => do walk (← single f s r) rest
  | (_, .flag f none) :: rest =>
    match f.takes with
    | .help => .error (.usage 0)
    | .switch on => walk (r.put f (.bool on)) rest
    | .extents =>
      match rest with
      | (a, .value) :: (b, .value) :: (c, .value) :: rest =>
        match [a, b, c].mapM Number.typedInteger? with
        | some xs => walk (r.put f (.list (xs.map .int))) rest
        | none => .error misuse
      | _ => .error misuse
    | _ =>
      match rest with
      | (s, .value) :: rest => do walk (← single f s r) rest
      | _ => .error misuse
  | _ :: rest => walk { r with stray := true } rest

/-- The setting of every flag that belongs to one, in order. -/
def complete (given : Mapping Float) : Mapping Float :=
  settings.map fun f => (.text f.setting, (Value.lookup? given f.setting).getD f.absent)

/-- Reads the arguments of a command line. -/
def read (args : List String) : Outcome (Mapping Float) := do
  let ls := looks args
  if ls.any fun (_, l) => match l with
    | .ambiguous => true
    | _ => false
  then .error misuse
  else
    let r ← walk ⟨[], false⟩ ls
    let missing := settings.any fun f => f.required && (Value.lookup? r.settings f.setting).isNone
    if missing || r.stray then .error misuse else .ok (complete r.settings)

end Flag

end Perturb
