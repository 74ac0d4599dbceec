/-
  Configuration files.

  A file whose name ends in `.json`, in any case, is read as JSON, every other one as YAML.  It has
  to hold a mapping, or nothing; a mapping under the key `synthesis` stands for the whole file.
-/
import Perturb.Config.Options
import Perturb.Text.Json
import Perturb.Text.Yaml.Document

namespace Perturb

/-! ## Paths -/

namespace Path

/-- The parts of a text between slashes. -/
def parts (path : String) : List String := path.splitOn "/"

/-- A path in its plain form: without empty parts and without parts that stay where they are. -/
def plain (path : String) : String :=
  let kept := (parts path).filter fun p => p != "" && p != "."
  let body := String.intercalate "/" kept
  if path.startsWith "//" && !path.startsWith "///" then "//" ++ body
  else if path.startsWith "/" then "/" ++ body
  else if body.isEmpty then "."
  else body

/-- The last part of a path. -/
def fileName (path : String) : String := ((parts (plain path)).getLast?).getD ""

/-- The last part of a path, cut at its last point; a point at either end does not count. -/
def splitName (path : String) : String × String :=
  let cs := (fileName path).toList
  let suffix := (cs.reverse.takeWhile (· != '.')).reverse
  let stem := cs.take (cs.length - suffix.length - 1)
  if suffix.isEmpty || stem.isEmpty || suffix.length = cs.length then (String.ofList cs, "")
  else (String.ofList stem, String.ofList ('.' :: suffix))

/-- The last part of a path without its suffix. -/
def stem (path : String) : String := (splitName path).1

/-- The suffix of a path, with its point. -/
def suffix (path : String) : String := (splitName path).2

/-- A name within a folder. -/
def within (folder name : String) : String :=
  if name.startsWith "/" || folder.isEmpty then name
  else if folder.endsWith "/" then folder ++ name
  else folder ++ "/" ++ name

end Path

namespace Config

/-- Whether a file is read as JSON. -/
def isJson (path : String) : Bool := (Path.suffix path).map Char.toLower == ".json"

/-- The value that a file's text stands for. -/
def parse (path text : String) : Outcome (Value Float) :=
  if isJson path then Json.read text else Yaml.read text

/-- The mapping that a value stands for. -/
def mappingOf (path : String) (v : Value Float) : Outcome (Mapping Float) :=
  match v with
  | .null => .ok []
  | .map m =>
    match Value.lookup? m "synthesis" with
    | some (.map inner) => .ok inner
    | _ => .ok m
  | _ => .error (.invalidOption (Path.plain path) "top level must be a mapping")

/-- The mapping of a file, given its text if it exists. -/
def load (path : String) (text : Option String) : Outcome (Mapping Float) :=
  match text with
  | none => .error (.noSuchFile (Path.plain path))
  | some text => do
    let v ← parse path text
    mappingOf path v

end Config

end Perturb
