/-
  The command line.

  A model is a file with a list of modules, a dataset a file with its arrays, both as JSON.  All
  decisions are made by `Run.run`; here files are read for it, and what it produced is shown and
  written.
-/
import Perturb.CommandLine.Run
import Perturb.Synthesis.Journal
import Perturb.Text.Table

namespace Perturb.Main

/-- The text of a file, if it can be read. -/
def textOf (path : String) : IO (Option String) := do
  try
    let s ← IO.FS.readFile path
    return some s
  catch _ => return none

/-- The text of the file that a flag names. -/
def textUnder (flags : Mapping Float) (key : String) : IO (Option String) := do
  match Run.textOf? flags key with
  | some path => textOf path
  | none => return none

/-- The value of a text that has to be there. -/
def valueOf (text : Option String) : Outcome (Value Float) :=
  match text with
  | some s => Json.read s
  | none => .error .missingInput

/-- What a run with these flags can ask for. -/
def surroundings (flags : Mapping Float) : IO Surroundings := do
  let config ← textUnder flags "config"
  let model ← textUnder flags "model_path"
  let arrays ← textUnder flags "dataset"
  return {
    config := fun _ => config
    model := fun _ => do Exchange.modelOf (← valueOf model)
    arrays := fun _ => do Exchange.arraysOf (← valueOf arrays)
    tables := fun _ => []
    results := "results" }

/-- Writes a table to a file, behind the rows that are there already. -/
def writeTable (path : String) (rows : List (List (Cell Float))) : IO Unit := do
  match ← textOf path with
  | some before => IO.FS.writeFile path (before ++ Table.render rows.tail)
  | none => IO.FS.writeFile path (Table.render rows)

/-- Writes the tables of a folder. -/
def writeFolder (path : String) (folder : Folder Float) : IO Unit := do
  IO.FS.createDirAll path
  for (name, rows) in folder do
    writeTable (Path.within path name) rows

/-- Shows the lines of a log from a level on. -/
def showLog (flags : Mapping Float) (events : List (Event Float)) : IO Unit := do
  let levels := Level.upFrom ((Run.textOf? flags "log_level").getD "INFO")
  for l in events.flatMap Event.lines do
    if levels.contains l.level then IO.eprintln l.show

/-- The exit code of an outcome, after saying what went wrong. -/
def exitCode (outcome : Outcome Nat) : IO UInt32 := do
  match outcome with
  | .ok code => return UInt32.ofNat code
  | .error (.usage 0) =>
    IO.println Flag.usage
    return 0
  | .error (.usage code) =>
    IO.eprintln Flag.usage
    return UInt32.ofNat code
  | .error e =>
    IO.eprintln (e.message?.getD "the run failed")
    return 1

end Perturb.Main

/-- Runs the program on its arguments. -/
def main (args : List String) : IO UInt32 := do
  let flags := (Perturb.Flag.read args).toOption.getD []
  let around ← Perturb.Main.surroundings flags
  let (outcome, made) := Perturb.Run.run around args
  Perturb.Main.showLog flags made.events
  match made.folder with
  | some (path, folder) => Perturb.Main.writeFolder path folder
  | none => pure ()
  Perturb.Main.exitCode outcome
