import TableDdl.Column.Basic
import TableDdl.Index.Basic
import TableDdl.Partition.Basic
import TableDdl.Rename.Basic
import TableDdl.TableOption.Basic

/-!
# Alterations

An alteration of a table is a list of clauses and a new partitioning. A clause does something to a
column, to an index or to the table itself; options of the table may stand before it.
-/

namespace TableDdl

/-- What a clause does. -/
inductive AlterAction where
  /-- Something is added. -/
  | add
  /-- Something is removed. -/
  | drop
  /-- Something gets a new name. -/
  | rename
  /-- A column gets a new name and a new definition. -/
  | change
  /-- A column gets a new definition. -/
  | modify
deriving DecidableEq, Repr

namespace AlterAction

/-- All actions. -/
def all : List AlterAction := [add, drop, rename, change, modify]

/-- The keyword of an action. -/
def keyword : AlterAction → String
  | add => "ADD"
  | drop => "DROP"
  | rename => "RENAME"
  | change => "CHANGE"
  | modify => "MODIFY"

end AlterAction

/-- To what a clause does something. -/
inductive AlterTarget where
  /-- A column. -/
  | column
  /-- An index. -/
  | index
  /-- The table. -/
  | table
deriving DecidableEq, Repr

namespace AlterTarget

/-- All targets. -/
def all : List AlterTarget := [column, index, table]

/-- The keyword of a target. -/
def keyword : AlterTarget → String
  | column => "COLUMN"
  | index => "INDEX"
  | table => "TABLE"

end AlterTarget

/-- With what a clause does it. -/
inductive AlterPayload where
  /-- A column. -/
  | column (definition : Column)
  /-- Several columns. -/
  | columns (definitions : List Column)
  /-- An index. -/
  | index (definition : Index)
  /-- A new name for a column or an index. -/
  | rename (names : Rename)
  /-- The name so far of a column, and its new definition. -/
  | changeColumn (oldName : String) (definition : Column)
  /-- The name of what is removed, or the new name of the table. A primary key is removed under the
  name `PRIMARY KEY`, and the name of a foreign key follows the words `FOREIGN KEY`. -/
  | name (text : String)
deriving DecidableEq, Repr

/-- A clause of an alteration. -/
structure AlterOption where
  /-- To what something is done. -/
  target : AlterTarget
  /-- What is done. -/
  action : AlterAction
  /-- With what it is done. -/
  payload : AlterPayload
  /-- The options of the table that stand before the clause. -/
  tableOptions : List TableOption
deriving DecidableEq, Repr

namespace AlterOption

/-- The name under which a primary key is removed. -/
def primaryKeyName : String := "PRIMARY KEY"

/-- What stands before the name of a foreign key that is removed. -/
def foreignKeyMark : String := "FOREIGN KEY "

/-- The name of the foreign key, if the name is one of a foreign key that is removed. -/
def foreignKeyName? (name : String) : Option String :=
  if foreignKeyMark.toList <+: name.toList then
    some (String.ofList (name.toList.drop foreignKeyMark.toList.length))
  else none

/-- The text of a removal. -/
def renderDrop (target : AlterTarget) (name : String) : String :=
  if name = primaryKeyName then "DROP PRIMARY KEY"
  else match foreignKeyName? name, target with
    | some key, _ => "DROP FOREIGN KEY " ++ Text.quoteName key
    | none, .table => "DROP " ++ Text.quoteName name
    | none, target => "DROP " ++ target.keyword ++ " " ++ Text.quoteName name

/-- The text of what a clause does. An action without a fitting payload is written with its target
alone. -/
def renderAction (target : AlterTarget) : AlterAction → AlterPayload → String
  | .add, .column column => "ADD COLUMN " ++ column.render
  | .add, .columns columns => "ADD COLUMN (" ++ ", ".intercalate (columns.map Column.render) ++ ")"
  | .add, .index index => "ADD " ++ index.render
  | .drop, .name name => renderDrop target name
  | .rename, .rename rename => "RENAME " ++ target.keyword ++ " " ++ rename.render
  | .rename, .name name => "RENAME TO " ++ Text.quoteName name
  | .change, .changeColumn oldName column =>
      "CHANGE COLUMN " ++ Text.quoteName oldName ++ " " ++ column.render
  | .modify, .column column => "MODIFY COLUMN " ++ column.render
  | action, _ => action.keyword ++ " " ++ target.keyword

/-- The text of a clause. -/
def render (option : AlterOption) : String :=
  String.join (option.tableOptions.map fun tableOption => tableOption.render ++ " ") ++
    renderAction option.target option.action option.payload

end AlterOption

/-- An alteration of a table. -/
structure AlterTable where
  /-- The name of the table. -/
  tableName : String
  /-- The clauses. -/
  options : List AlterOption
  /-- The new partitioning. -/
  partitioning : Option Partitioning
deriving DecidableEq, Repr

namespace AlterTable

/-- The text of an alteration. -/
def render (alteration : AlterTable) : String :=
  "ALTER TABLE " ++ Text.quoteName alteration.tableName ++
  (if alteration.options.isEmpty then ""
    else "\n" ++ ",\n".intercalate (alteration.options.map AlterOption.render)) ++
  match alteration.partitioning with
  | some partitioning => "\n" ++ partitioning.render
  | none => ""

end AlterTable

end TableDdl
