import TableDdl.TableOption.Basic

/-!
# Partitions

A table is divided into partitions by a hash, a key, ranges or lists of values, and the partitions
may be divided again. The partitions of ranges and of lists are defined one by one.

A partitioning is a clause, or a clause whose partitions are divided by another partitioning.
-/

namespace TableDdl

/-- How rows are assigned to partitions. -/
inductive PartitionKind where
  /-- By a hash of an expression. -/
  | hash
  /-- By a hash of columns. -/
  | key
  /-- By ranges of values. -/
  | range
  /-- By lists of values. -/
  | list
deriving DecidableEq, Repr

namespace PartitionKind

/-- All kinds. -/
def all : List PartitionKind := [hash, key, range, list]

/-- The keyword of a kind. -/
def keyword : PartitionKind → String
  | hash => "HASH"
  | key => "KEY"
  | range => "RANGE"
  | list => "LIST"

/-- The partitions of this kind are defined one by one. -/
def hasDefinitions : PartitionKind → Bool
  | range | list => true
  | hash | key => false

end PartitionKind

/-- How the values of a partition are given. -/
inductive BoundKind where
  /-- An upper bound. -/
  | lessThan
  /-- A list of values. -/
  | within
deriving DecidableEq, Repr

namespace BoundKind

/-- The text of a kind of bound. -/
def render : BoundKind → String
  | lessThan => "LESS THAN"
  | within => "IN"

end BoundKind

/-- The definition of one partition. -/
structure PartitionDefinition where
  /-- The name. -/
  name : String
  /-- How the values are given, if they are. -/
  boundKind : Option BoundKind
  /-- The values. -/
  values : List Literal
  /-- The options; those in a text are passed over. -/
  options : List TableOption
deriving DecidableEq, Repr

namespace PartitionDefinition

/-- The text of the definition of a partition. -/
def render (definition : PartitionDefinition) : String :=
  "PARTITION " ++ Text.quoteName definition.name ++
    match definition.boundKind with
    | some kind =>
        " VALUES " ++ kind.render ++ " (" ++ Literal.renderAll ", " definition.values ++ ")"
    | none => ""

end PartitionDefinition

/-- One level of a partitioning. -/
structure PartitionClause where
  /-- How rows are assigned. -/
  kind : PartitionKind
  /-- Whether the hash is computed by powers of two. -/
  isLinear : Bool := false
  /-- Whether the columns are compared by themselves and not by an expression. -/
  isColumns : Bool := false
  /-- The expression by which rows are assigned. -/
  expression : Option String := none
  /-- The columns by which rows are assigned. -/
  columns : List String := []
  /-- The number of partitions. -/
  count : Option UInt32 := none
  /-- The version of the hash of columns. -/
  algorithm : Option UInt8 := none
  /-- The definitions of the partitions. -/
  definitions : List PartitionDefinition := []
deriving DecidableEq, Repr

namespace PartitionClause

/-- The text of a clause up to its number of partitions. -/
def renderHead (keyword : String) (clause : PartitionClause) : String :=
  keyword ++ " BY " ++ (if clause.isLinear then "LINEAR " else "") ++ clause.kind.keyword ++
  (match clause.algorithm with
    | some algorithm => " ALGORITHM = " ++ Number.writeNat algorithm.toNat
    | none => "") ++
  (if clause.isColumns then " COLUMNS" else "") ++
  " (" ++ clause.expression.getD (Text.quoteNames ", " clause.columns) ++ ")" ++
  match clause.count with
  | some count => " " ++ keyword ++ "S " ++ Number.writeNat count.toNat
  | none => ""

/-- The text of the definitions of a clause. -/
def renderDefinitions (clause : PartitionClause) : String :=
  if clause.definitions.isEmpty then ""
  else " (\n" ++ ",\n".intercalate (clause.definitions.map PartitionDefinition.render) ++ "\n)"

end PartitionClause

/-- A partitioning of a table. -/
inductive Partitioning where
  /-- The table is divided. -/
  | single (clause : PartitionClause)
  /-- The table is divided, and so are its partitions. -/
  | nested (clause : PartitionClause) (inner : Partitioning)
deriving DecidableEq, Repr

namespace Partitioning

/-- The clause by which the table is divided. -/
def clause : Partitioning → PartitionClause
  | single clause => clause
  | nested clause _ => clause

/-- How the partitions are divided. -/
def inner? : Partitioning → Option Partitioning
  | single _ => none
  | nested _ inner => some inner

/-- The clause with the way in which its partitions are divided, if they are. -/
def ofClause (clause : PartitionClause) : Option Partitioning → Partitioning
  | none => single clause
  | some inner => nested clause inner

/-- The text of a partitioning that starts with the given keyword. -/
def renderAs (keyword : String) : Partitioning → String
  | single clause => clause.renderHead keyword ++ clause.renderDefinitions
  | nested clause inner =>
      clause.renderHead keyword ++ " " ++ inner.renderAs "SUBPARTITION" ++ clause.renderDefinitions

/-- The text of a partitioning of a table. -/
def render (partitioning : Partitioning) : String := partitioning.renderAs "PARTITION"

end Partitioning

end TableDdl
