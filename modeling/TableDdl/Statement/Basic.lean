import TableDdl.Alter.Basic
import TableDdl.Table.Basic

/-!
# Statements

A statement defines a table or alters one.
-/

namespace TableDdl

/-- A statement. -/
inductive Statement where
  /-- A table is defined. -/
  | createTable (table : Table)
  /-- A table is altered. -/
  | alterTable (alteration : AlterTable)
deriving DecidableEq, Repr

namespace Statement

/-- The text of a statement, without a terminator. -/
def render : Statement → String
  | createTable table => table.render
  | alterTable alteration => alteration.render

end Statement

end TableDdl
