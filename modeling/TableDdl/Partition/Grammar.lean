import TableDdl.Grammar.Name
import TableDdl.Grammar.Scan
import TableDdl.Literal.Grammar
import TableDdl.Partition.Basic

/-!
# Reading partitions

A partitioning is read at one of two levels: the table is divided by a hash, a key, ranges or lists,
and its partitions by a hash or a key. Only the table's level has definitions of partitions and an
inner partitioning. The options of a partition are passed over.
-/

namespace TableDdl

/-- What is divided. -/
inductive PartitionLevel where
  /-- The table. -/
  | table
  /-- Its partitions. -/
  | partitions
deriving DecidableEq, Repr

namespace PartitionLevel

/-- The keyword of a level. -/
def keyword : PartitionLevel → String
  | table => "PARTITION"
  | partitions => "SUBPARTITION"

/-- The keyword of the number of partitions at a level. -/
def countKeyword (level : PartitionLevel) : String := level.keyword ++ "S"

/-- The kinds that there are at a level. -/
def kinds : PartitionLevel → List PartitionKind
  | table => PartitionKind.all
  | partitions => [.hash, .key]

/-- What a text without such a kind lacks. -/
def missingKind : PartitionLevel → Fault
  | table => .expected "HASH, KEY, RANGE or LIST"
  | partitions => .expected "HASH or KEY in SUBPARTITION BY"

end PartitionLevel

namespace PartitionDefinition

open Grammar

/-- Reads how the values of a partition are given. -/
def readBoundKind : Grammar BoundKind := do
  if ← consume "LESS" then
    expect "THAN" (.expected "keyword THAN after LESS")
    return .lessThan
  else if ← consume "IN" then
    return .within
  else
    refuse (.expected "LESS THAN or IN after VALUES")

/-- Reads values in parentheses. -/
def valueList : Grammar (List Literal) :=
  parenthesized (.expected "opening bracket \"(\" after VALUES clause")
    (.expected "closing bracket \")\" after VALUES list") Literal.grammar

/-- Reads the values of a partition. An upper bound may be the bare word `MAXVALUE`. -/
def boundValues (kind : BoundKind) : Grammar (List Literal) := do
  if kind = .lessThan && (← sees "MAXVALUE") then
    advance
    return [.raw "MAXVALUE"]
  else
    valueList

/-- Reads the definition of a partition. -/
def grammar : Grammar PartitionDefinition := do
  expect "PARTITION" (.expected "keyword PARTITION in partition definition")
  let name ← Grammar.name
  if ← consume "VALUES" then
    let kind ← readBoundKind
    let values ← boundValues kind
    skipTo [","]
    return ⟨name, some kind, values, []⟩
  else
    skipTo [","]
    return ⟨name, none, [], []⟩

/-- Reads the definitions of partitions. -/
def list : Grammar (List PartitionDefinition) :=
  parenthesized (.expected "opening bracket \"(\" of partition definitions")
    (.expected "closing bracket \")\" after partition definitions") grammar

end PartitionDefinition

namespace PartitionClause

open Grammar

/-- Reads the kind of a partitioning. -/
def readKind (level : PartitionLevel) : Grammar PartitionKind := do
  let word ← keyword?
  match level.kinds.find? fun kind => word = some kind.keyword with
  | some kind => advance; return kind
  | none => refuse level.missingKind

/-- Reads the version of the hash of columns, if it is said. -/
def algorithm? : Grammar (Option UInt8) := do
  if ← consume "ALGORITHM" then
    expect "=" (.expected "\"=\" after ALGORITHM")
    let token ← current
    if token.kind = .integer ∧ token.text = "1" then
      advance
      return some 1
    else if token.kind = .integer ∧ token.text = "2" then
      advance
      return some 2
    else
      refuse (.expected "ALGORITHM value 1 or 2")
  else
    return none

/-- Reads the columns of a key, of which there may be none. -/
def keyColumns : Grammar (List String) := do
  if (← sees "(") && (← nextSees ")") then
    advance
    advance
    return []
  else
    names

/-- Reads the expression of a partitioning. -/
def readExpression : Grammar String := do
  let text ← group
  if text.isEmpty then refuse (.expected "partition expression") else return text

/-- Reads by what a partitioning of a kind assigns rows. -/
def readFunction (kind : PartitionKind) : Grammar PartitionClause := do
  match kind with
  | .key =>
      let algorithm ← algorithm?
      if ← sees "COLUMNS" then refuse .misplacedColumns
      return { kind, algorithm, columns := ← keyColumns }
  | _ =>
      if ← sees "COLUMNS" then
        if kind = .hash then refuse .misplacedColumns
        advance
        return { kind, isColumns := true, columns := ← names }
      else
        return { kind, expression := some (← readExpression) }

/-- Reads a partitioning up to its number of partitions. -/
def head (level : PartitionLevel) : Grammar PartitionClause := do
  expect level.keyword (.expected ("keyword " ++ level.keyword))
  expect "BY" (.expected "keyword BY")
  let isLinear ← consume "LINEAR"
  let clause ← readFunction (← readKind level)
  let count ← if ← consume level.countKeyword then some <$> unsigned "partition count" else pure none
  return { clause with isLinear, count }

end PartitionClause

namespace Partitioning

open Grammar

/-- Reads how partitions are divided. -/
def innerGrammar : Grammar Partitioning := do
  return single (← PartitionClause.head .partitions)

/-- Reads how a table is divided. -/
def grammar : Grammar Partitioning := do
  let clause ← PartitionClause.head .table
  let inner ← if ← sees "SUBPARTITION" then some <$> innerGrammar else pure none
  let definitions ← if clause.kind.hasDefinitions && (← sees "(") then
      PartitionDefinition.list
    else
      pure []
  return ofClause { clause with definitions } inner

end Partitioning

end TableDdl
