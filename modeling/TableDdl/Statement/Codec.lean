import TableDdl.Alter.Codec
import TableDdl.Statement.Basic
import TableDdl.Table.Codec

/-!
# Statements in JSON

A statement is the object of its table or alteration, with a member `statement` before the others
that says which of the two it is.
-/

namespace TableDdl

namespace Statement

/-- The JSON form of a statement. -/
def toJson : Statement → Json
  | createTable table => .object (("statement", .string "create_table") :: table.members)
  | alterTable alteration => .object (("statement", .string "alter_table") :: alteration.members)

/-- The statement of a kind with a content. -/
def ofKind? (kind : String) (content : Json) : Option Statement :=
  if kind = "create_table" then (Table.ofJson? content).map createTable
  else if kind = "alter_table" then (AlterTable.ofJson? content).map alterTable
  else none

/-- The statement that a JSON value describes. -/
def ofJson? (value : Json) : Option Statement := do
  let (kind, content) ← value.labelled? "statement"
  ofKind? kind content

/-- The JSON form of a script. -/
def scriptToJson (statements : List Statement) : Json := .ofList toJson statements

end Statement

end TableDdl
