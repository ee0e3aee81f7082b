import TableDdl.Statement.Grammar

/-!
# Parts of statements

The grammars by which statements and what they are made of are read, one for each part that has a
grammar of its own. A fact that holds of every one of them is stated once, over all parts.
-/

namespace TableDdl

/-- What has a grammar of its own. -/
inductive Part where
  /-- A column. -/
  | column
  /-- An index. -/
  | index
  /-- A constraint. -/
  | constraint
  /-- An option of a table. -/
  | tableOption
  /-- A renaming. -/
  | rename
  /-- How a table is divided. -/
  | partitioning
  /-- How partitions are divided. -/
  | innerPartitioning
  /-- A clause of an alteration. -/
  | alterOption
  /-- An alteration. -/
  | alterTable
  /-- The definition of a table. -/
  | table
deriving DecidableEq, Repr

namespace Part

/-- What is found where the part is read. -/
def Node : Part → Type
  | column => Column
  | index => Index
  | constraint => Constraint
  | tableOption => TableOption
  | rename => Rename
  | partitioning => Partitioning
  | innerPartitioning => Partitioning
  | alterOption => AlterOption
  | alterTable => AlterTable
  | table => Table

/-- The grammar of the part. -/
def grammar : (part : Part) → Grammar part.Node
  | column => Column.grammar
  | index => Index.grammar
  | constraint => Constraint.grammar
  | tableOption => TableOption.grammar
  | rename => Rename.grammar
  | partitioning => Partitioning.grammar
  | innerPartitioning => Partitioning.innerGrammar
  | alterOption => AlterOption.grammar
  | alterTable => AlterTable.grammar
  | table => Table.grammar

end Part

end TableDdl
