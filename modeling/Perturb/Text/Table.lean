/-
  Tables as comma-separated text.

  Rows end in a carriage return and a line feed.  A field is quoted only if it holds a comma, a
  quote, or one of the two line characters; a quote inside a quoted field is written twice.
-/
import Perturb.Data.Registry

namespace Perturb.Table

variable {K : Type} [Scalar K]

/-- Whether a character forces a field into quotes. -/
def special (c : Char) : Bool := c == ',' || c == '"' || c == '\r' || c == '\n'

/-- The characters of a quoted field. -/
def doubled : List Char → List Char
  | [] => []
  | c :: rest => if c = '"' then '"' :: '"' :: doubled rest else c :: doubled rest

/-- A field as it stands in a row. -/
def field (s : String) : String :=
  if s.toList.any special then String.ofList ('"' :: doubled s.toList ++ ['"']) else s

/-- The text of an entry. -/
def cellText : Cell K → String
  | .text s => s
  | .int n => Number.plain n
  | .real x => Scalar.text x

/-- A row as text. -/
def line (row : List (Cell K)) : String :=
  String.intercalate "," (row.map fun c => field (cellText c)) ++ "\r\n"

/-- A table as text. -/
def render (rows : List (List (Cell K))) : String := String.join (rows.map line)

end Perturb.Table
