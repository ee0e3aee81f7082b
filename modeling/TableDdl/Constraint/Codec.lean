import TableDdl.Constraint.Basic
import TableDdl.Json.Record

/-!
# Constraints in JSON

A constraint is an object with its name and what it demands. The latter is an object with a member
`kind` next to its own fields; the actions of a foreign key are an object with a member for each
event that has one.
-/

namespace TableDdl

namespace ReferentialAction

/-- The name of an action in JSON. -/
def jsonName : ReferentialAction → String
  | restrict => "RESTRICT"
  | cascade => "CASCADE"
  | setNull => "SET_NULL"
  | noAction => "NO_ACTION"
  | setDefault => "SET_DEFAULT"

/-- The action that a JSON value names. -/
def ofJson? (value : Json) : Option ReferentialAction :=
  value.name?.bind fun name => all.find? fun action => action.jsonName == name

end ReferentialAction

namespace ForeignKey

/-- The actions of a foreign key as members of an object. -/
def actionMembers (event : String) : Option ReferentialAction → List (String × Json)
  | some action => [(event, .string action.jsonName)]
  | none => []

/-- The fields of a foreign key. -/
def members (key : ForeignKey) : List (String × Json) := [
  ("index_name", .ofOption .string key.indexName),
  ("local_columns", .ofStrings key.localColumns),
  ("referenced_table", .string key.referencedTable),
  ("referenced_columns", .ofStrings key.referencedColumns),
  ("reference_actions",
    .object (actionMembers "DELETE" key.onDelete ++ actionMembers "UPDATE" key.onUpdate))]

/-- The last of the actions on the event. -/
def lastNamed (event : String) (actions : List (String × ReferentialAction)) :
    Option ReferentialAction :=
  (actions.reverse.find? fun entry => entry.1 == event).map Prod.snd

/-- The events and their actions; there are no other events than the two. -/
def actionsOfJson? : Json → Option (List (String × ReferentialAction))
  | .object entries => entries.mapM fun entry => do
      let action ← ReferentialAction.ofJson? entry.2
      if entry.1 = "DELETE" ∨ entry.1 = "UPDATE" then return (entry.1, action) else none
  | _ => none

/-- The foreign key with the given fields. -/
def ofFields? : List (Option Json) → Option ForeignKey
  | [indexName, localColumns, referencedTable, referencedColumns, referenceActions] => do
      let actions ← Json.required actionsOfJson? referenceActions
      return {
        indexName := ← Json.optional Json.string? indexName
        localColumns := ← Json.required Json.strings? localColumns
        referencedTable := ← Json.required Json.string? referencedTable
        referencedColumns := ← Json.required Json.strings? referencedColumns
        onDelete := lastNamed "DELETE" actions
        onUpdate := lastNamed "UPDATE" actions }
  | _ => none

end ForeignKey

namespace ConstraintBody

/-- The JSON form of what a constraint demands. -/
def toJson : ConstraintBody → Json
  | foreignKey key => .object (("kind", .string "foreign_key") :: key.members)
  | unsupported clause => .object [("kind", .string "unsupported"), ("clause", .string clause)]

/-- What a constraint of a kind demands. -/
def ofKind? (kind : String) (content : Json) : Option ConstraintBody :=
  if kind = "foreign_key" then
    (content.fields? ["index_name", "local_columns", "referenced_table", "referenced_columns",
      "reference_actions"]).bind fun fields => (ForeignKey.ofFields? fields).map foreignKey
  else if kind = "unsupported" then
    match content.fields? ["clause"] with
    | some [clause] => (Json.required Json.string? clause).map unsupported
    | _ => none
  else none

/-- What a constraint demands, as a JSON value describes it. -/
def ofJson? (value : Json) : Option ConstraintBody := do
  let (kind, content) ← value.labelled? "kind"
  ofKind? kind content

end ConstraintBody

namespace Constraint

/-- The JSON form of a constraint. -/
def toJson (constraint : Constraint) : Json :=
  .object [("name", .ofOption .string constraint.name), ("kind", constraint.body.toJson)]

/-- The constraint that a JSON value describes. -/
def ofJson? (value : Json) : Option Constraint :=
  match value.fields? ["name", "kind"] with
  | some [name, body] => do
      return ⟨← Json.optional Json.string? name, ← Json.required ConstraintBody.ofJson? body⟩
  | _ => none

end Constraint

end TableDdl
