import TableDdl.Column.Basic
import TableDdl.Constraint.Basic
import TableDdl.Index.Basic
import TableDdl.Partition.Basic

/-!
# Tables

The definition of a table: its columns, indexes and constraints, its comment and its partitioning.
-/

namespace TableDdl

/-- The definition of a table. -/
structure Table where
  /-- The name. -/
  name : String
  /-- Whether the table is gone at the end of the session. -/
  isTemporary : Bool
  /-- Whether nothing happens if the table exists. -/
  ifNotExists : Bool
  /-- The columns. -/
  columns : List Column
  /-- The indexes. -/
  indexes : List Index
  /-- The constraints. -/
  constraints : List Constraint
  /-- The comment. -/
  comment : Option String
  /-- The partitioning. -/
  partitioning : Option Partitioning
deriving DecidableEq, Repr

namespace Table

/-- The first column with the given name. -/
def column? (table : Table) (name : String) : Option Column :=
  table.columns.find? fun column => column.name == name

/-- The first index that is a primary key. -/
def primaryKey? (table : Table) : Option Index :=
  table.indexes.find? fun index => index.role == some .primary

/-- The texts of the definitions of a table: columns, then indexes, then constraints. -/
def renderDefinitions (table : Table) : List String :=
  table.columns.map Column.render ++ table.indexes.map Index.render ++
    table.constraints.map Constraint.render

/-- The text of the definition of a table. -/
def render (table : Table) : String :=
  "CREATE " ++ (if table.isTemporary then "TEMPORARY " else "") ++ "TABLE " ++
  (if table.ifNotExists then "IF NOT EXISTS " else "") ++ Text.quoteName table.name ++
  " (\n" ++ ",\n".intercalate table.renderDefinitions ++ "\n)" ++
  (match table.comment with
    | some comment => " COMMENT " ++ Text.quoteString comment
    | none => "") ++
  match table.partitioning with
  | some partitioning => "\n" ++ partitioning.render
  | none => ""

end Table

end TableDdl
