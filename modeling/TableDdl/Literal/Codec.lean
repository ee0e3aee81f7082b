import TableDdl.Json.Record
import TableDdl.Literal.Basic

/-!
# Literals in JSON

A literal is an object with its kind and its value.
-/

namespace TableDdl

namespace Literal

/-- The JSON form of a literal. -/
def toJson : Literal → Json
  | integer value => .tagged "int" (.integer value.toInt)
  | float value => .tagged "float" (.double value)
  | string text => .tagged "str" (.string text)
  | raw text => .tagged "raw" (.string text)

/-- The literal of a kind with a value. -/
def ofTagged? (kind : String) (value : Json) : Option Literal :=
  if kind = "int" then value.int64?.map integer
  else if kind = "float" then value.double?.map float
  else if kind = "str" then value.string?.map string
  else if kind = "raw" then value.string?.map raw
  else none

/-- The literal that a JSON value describes. -/
def ofJson? (value : Json) : Option Literal := do
  let (kind, content) ← value.tagged?
  ofTagged? kind content

end Literal

end TableDdl
