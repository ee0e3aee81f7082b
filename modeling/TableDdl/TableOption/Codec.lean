import TableDdl.Literal.Codec
import TableDdl.TableOption.Basic

/-!
# Table options in JSON

A table option is an object with its key and its value, and the value is an object with its kind and
its content.
-/

namespace TableDdl

namespace TableOptionValue

/-- The JSON form of the value of a table option. -/
def toJson : TableOptionValue → Json
  | literal value => .tagged "literal" value.toJson
  | tables names => .tagged "list" (.ofStrings names)
  | tablespace name storage =>
      .tagged "tablespace"
        (.object [("name", .string name), ("storage", .ofOption .string storage)])

/-- The value of a kind with a content. -/
def ofTagged? (kind : String) (content : Json) : Option TableOptionValue :=
  if kind = "literal" then (Literal.ofJson? content).map literal
  else if kind = "list" then content.strings?.map tables
  else if kind = "tablespace" then
    match content.fields? ["name", "storage"] with
    | some [name, storage] => do
        return tablespace (← Json.required Json.string? name) (← Json.optional Json.string? storage)
    | _ => none
  else none

/-- The value that a JSON value describes. -/
def ofJson? (value : Json) : Option TableOptionValue := do
  let (kind, content) ← value.tagged?
  ofTagged? kind content

end TableOptionValue

namespace TableOption

/-- The JSON form of a table option. -/
def toJson (option : TableOption) : Json :=
  .object [("key", .string option.key), ("value", option.value.toJson)]

/-- The table option that a JSON value describes. -/
def ofJson? (value : Json) : Option TableOption :=
  match value.fields? ["key", "value"] with
  | some [key, content] => do
      return ⟨← Json.required Json.string? key, ← Json.required TableOptionValue.ofJson? content⟩
  | _ => none

end TableOption

end TableDdl
