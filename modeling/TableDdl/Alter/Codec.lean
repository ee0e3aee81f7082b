import TableDdl.Alter.Basic
import TableDdl.Column.Codec
import TableDdl.Index.Codec
import TableDdl.Partition.Codec
import TableDdl.Rename.Codec

/-!
# Alterations in JSON

The action and the target of a clause are their keywords, and what belongs to them is an object with
its kind and its value.
-/

namespace TableDdl

namespace AlterAction

/-- The action that a JSON value names. -/
def ofJson? (value : Json) : Option AlterAction :=
  value.name?.bind fun name => all.find? fun action => action.keyword == name

end AlterAction

namespace AlterTarget

/-- The target that a JSON value names. -/
def ofJson? (value : Json) : Option AlterTarget :=
  value.name?.bind fun name => all.find? fun target => target.keyword == name

end AlterTarget

namespace AlterPayload

/-- The JSON form of what belongs to a clause. -/
def toJson : AlterPayload → Json
  | column definition => .tagged "column" definition.toJson
  | columns definitions => .tagged "columns" (.ofList Column.toJson definitions)
  | index definition => .tagged "index" definition.toJson
  | rename names => .tagged "rename" names.toJson
  | changeColumn oldName definition =>
      .tagged "change_column"
        (.object [("old_name", .string oldName), ("column", definition.toJson)])
  | name text => .tagged "name" (.string text)

/-- What belongs to a clause, of a kind and with a content. -/
def ofTagged? (kind : String) (content : Json) : Option AlterPayload :=
  if kind = "column" then (Column.ofJson? content).map column
  else if kind = "columns" then (content.list? Column.ofJson?).map columns
  else if kind = "index" then (Index.ofJson? content).map index
  else if kind = "rename" then (Rename.ofJson? content).map rename
  else if kind = "change_column" then
    match content.fields? ["old_name", "column"] with
    | some [oldName, definition] => do
        return changeColumn (← Json.required Json.string? oldName)
          (← Json.required Column.ofJson? definition)
    | _ => none
  else if kind = "name" then content.string?.map name
  else none

/-- What belongs to a clause, as a JSON value describes it. -/
def ofJson? (value : Json) : Option AlterPayload := do
  let (kind, content) ← value.tagged?
  ofTagged? kind content

end AlterPayload

namespace AlterOption

/-- The JSON form of a clause. -/
def toJson (option : AlterOption) : Json :=
  .object [
    ("target", .string option.target.keyword),
    ("action", .string option.action.keyword),
    ("payload", option.payload.toJson),
    ("table_options", .ofList TableOption.toJson option.tableOptions)]

/-- The clause that a JSON value describes. -/
def ofJson? (value : Json) : Option AlterOption :=
  match value.fields? ["target", "action", "payload", "table_options"] with
  | some [target, action, payload, tableOptions] => do
      return {
        target := ← Json.required AlterTarget.ofJson? target
        action := ← Json.required AlterAction.ofJson? action
        payload := ← Json.required AlterPayload.ofJson? payload
        tableOptions := ← Json.required (Json.list? TableOption.ofJson?) tableOptions }
  | _ => none

end AlterOption

namespace AlterTable

/-- The fields of an alteration. -/
def members (alteration : AlterTable) : List (String × Json) := [
  ("table_name", .string alteration.tableName),
  ("options", .ofList AlterOption.toJson alteration.options),
  ("partition_by", .ofOption Partitioning.toJson alteration.partitioning)]

/-- The JSON form of an alteration. -/
def toJson (alteration : AlterTable) : Json := .object alteration.members

/-- The alteration that a JSON value describes. -/
def ofJson? (value : Json) : Option AlterTable :=
  match value.fields? ["table_name", "options", "partition_by"] with
  | some [tableName, options, partitioning] => do
      return {
        tableName := ← Json.required Json.string? tableName
        options := ← Json.required (Json.list? AlterOption.ofJson?) options
        partitioning := ← Json.optional Partitioning.ofJson? partitioning }
  | _ => none

end AlterTable

end TableDdl
