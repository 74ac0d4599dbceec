/-
  A run of the program: flags, options, network, dataset, accuracy, batch, registry.

  What a run needs from outside is given to it as functions, and what it produces is its result: an
  exit code or a fault, the events on the way, and the tables of the folder it wrote to.  A fault
  does not undo what was produced before it.
-/
import Perturb.CommandLine.Flags
import Perturb.Exchange.Arrays
import Perturb.Exchange.Model
import Perturb.Random.Draws
import Perturb.Synthesis.Backend
import Perturb.Synthesis.Batch

namespace Perturb

/-- What a run can ask for, by path. -/
structure Surroundings where
  config : String → Option String
  model : String → Outcome (List (Module Float))
  arrays : String → Outcome Exchange.Arrays
  tables : String → Folder Float
  /-- the folder for results unless one is named -/
  results : String

/-- What a run has produced: events, and the tables of the folder it writes to. -/
structure Produce where
  events : List (Event Float)
  folder : Option (String × Folder Float)

namespace Run

/-- A step of a run. -/
abbrev Stage (α : Type) := Step Produce α

/-- Adds events. -/
def say (events : List (Event Float)) : Stage Unit :=
  modify fun p => { p with events := p.events ++ events }

/-- A plain computation as a step. -/
def lift {α : Type} (o : Outcome α) : Stage α :=
  match o with
  | .ok a => return a
  | .error e => throw e

/-- The text of a flag that was given one. -/
def textOf? (flags : Mapping Float) (key : String) : Option String :=
  match Value.lookup? flags key with
  | some (.text s) => some s
  | _ => none

/-- The flags that set options. -/
def overridesOf (flags : Mapping Float) : Mapping Float :=
  flags.filter fun (k, _) => (OptionKey.ofValue? k).isSome

/-- The options of a run. -/
def options (around : Surroundings) (flags : Mapping Float) : Stage (Options Float) := do
  match textOf? flags "config" with
  | none => lift (Options.layered none (overridesOf flags))
  | some path =>
    let m ← lift (Config.load path (around.config path))
    let _ ← lift ((Options.defaults : Options Float).update m)
    say [.optionsLoaded path]
    lift (Options.layered (some m) (overridesOf flags))

/-- The extents that a flag gave. -/
def extentsOf (flags : Mapping Float) : Outcome (Option Extents) :=
  Value.orNone Value.asExtents (((Value.lookup? flags "input_shape")).getD .null)

/-- The network of a run. -/
def network (around : Surroundings) (flags : Mapping Float) (o : Options Float) :
    Stage (Net Float) := do
  let modules ← lift (around.model ((textOf? flags "model_path").getD ""))
  let shape ← lift (extentsOf flags)
  let crop ← lift (Value.orNone Value.asInt ((Value.lookup? flags "crop").getD .null))
  let threads := ((o.get .threads).integer?).getD 1
  let legacy := (o.get .legacyDivisor).truthy
  let (noted, net) := Net.ofModules ⟨shape, crop, none, threads, legacy⟩ modules
  say (noted.map .legacyDivisor)
  let net ← lift net
  say [.netLoaded net.describe]
  return net

/-- The dataset of a run. -/
def dataset (around : Surroundings) (flags : Mapping Float) : Stage (Dataset Float) := do
  let path := (textOf? flags "dataset").getD ""
  let arrays ← lift (around.arrays path)
  let shape ← lift (extentsOf flags)
  let ds ← lift (Exchange.datasetOf path arrays shape)
  say [.dataLoaded ds.size path]
  return ds

/-- Measures the accuracy of a network on a dataset. -/
def measure (flags : Mapping Float) (net : Net Float) (ds : Dataset Float) : Stage Unit := do
  let counting := ((Value.lookup? flags "log_activation_patterns").map Value.truthy).getD false
  let journal : Journal Float := ⟨if counting then some .empty else none, []⟩
  match Accuracy.accuracy net ds journal with
  | .ok _ j => say j.events
  | .error e j =>
    say j.events
    throw e

/-- The folder for results. -/
def folderOf (around : Surroundings) (o : Options Float) : Outcome String :=
  match o.get .outputDir with
  | .text s => .ok (if s.isEmpty then around.results else s)
  | v => if v.truthy then .error .wrongType else .ok around.results

/-- Runs the batch of a run; gives the number of items that failed. -/
def batch (around : Surroundings) (o : Options Float) (net : Net Float) (ds : Dataset Float) :
    Stage Int := do
  let path ← lift (folderOf around o)
  let (registry, folder) := Registry.openIn (around.tables path) (o.get .registry).display ds.name
  modify fun p => { p with folder := some (path, folder) }
  let settings ← lift o.settings
  let plan : Batch.Plan (ExactEngine Float) Draws Unit Float :=
    ⟨net, settings, Backend.factory settings.backend, Draws.forItem settings.seed⟩
  match Batch.run plan ds (Batch.start (some registry) folder, ()) with
  | .ok () (b, ()) =>
    say b.events
    modify fun p => { p with folder := some (path, b.folder) }
    let records := (b.registry.map (·.records.length)).getD 0
    say [.registryWritten (Path.within path (registry.file.getD "")) records]
    return b.stats.errored
  | .error e (b, ()) =>
    say b.events
    modify fun p => { p with folder := some (path, b.folder) }
    throw e

/-- A whole run; gives the exit code. -/
def stages (around : Surroundings) (args : List String) : Stage Nat := do
  let flags ← lift (Flag.read args)
  let o ← options around flags
  let net ← network around flags o
  let ds ← dataset around flags
  measure flags net ds
  let errored ← batch around o net ds
  return if errored = 0 then 0 else 1

/-- A whole run from the start. -/
def run (around : Surroundings) (args : List String) : Outcome Nat × Produce :=
  match stages around args ⟨[], none⟩ with
  | .ok code p => (.ok code, p)
  | .error e p => (.error e, p)

end Run

end Perturb
