import TableDdl.Column.Grammar
import TableDdl.Constraint.Grammar
import TableDdl.Index.Grammar
import TableDdl.Partition.Grammar
import TableDdl.Table.Basic

/-!
# Reading tables

The definitions of a table stand between parentheses with commas between them, and the first word of
a definition says what it is. Of the options after them, only the comment and the partitioning are
kept.
-/

namespace TableDdl

/-- One of the definitions of a table. -/
inductive TableElement where
  /-- A column. -/
  | column (definition : Column)
  /-- An index. -/
  | index (definition : Index)
  /-- A constraint. -/
  | constraint (definition : Constraint)
deriving DecidableEq, Repr

namespace TableElement

open Grammar

/-- The columns among the definitions. -/
def columns : List TableElement → List Column :=
  List.filterMap fun
    | column definition => some definition
    | _ => none

/-- The indexes among the definitions. -/
def indexes : List TableElement → List Index :=
  List.filterMap fun
    | index definition => some definition
    | _ => none

/-- The constraints among the definitions. -/
def constraints : List TableElement → List Constraint :=
  List.filterMap fun
    | constraint definition => some definition
    | _ => none

/-- The words that start a constraint among the definitions of a table. -/
def constraintWords : List String := ["CONSTRAINT", "FOREIGN", "CHECK"]

/-- Reads a definition. -/
def grammar : Grammar TableElement := do
  let word := (← keyword?).getD ""
  if Index.startsWith word then
    return index (← Index.grammar)
  else if constraintWords.contains word then
    return constraint (← Constraint.grammar)
  else
    return column (← Column.grammar)

/-- Reads the definitions of a table. -/
def list : Grammar (List TableElement) :=
  parenthesized (.expected "start bracket \"(\" for create definitions")
    (.expected "closed bracket \")\" for create definitions") grammar

end TableElement

namespace Table

open Grammar

/-- The options of a table that are kept. -/
structure Tail where
  /-- The comment. -/
  comment : Option String
  /-- The partitioning. -/
  partitioning : Option Partitioning

/-- Reads a comment or a partitioning, if there is one. -/
def readOption (tail : Tail) : Grammar (Bool × Tail) := do
  if ← consume "COMMENT" then
    let _ ← consume "="
    unless ← seesKind .quotedString do refuse (.expected "COMMENT string for table")
    let token ← current
    advance
    return (true, { tail with comment := some token.text })
  else if (← sees "PARTITION") && (← nextSees "BY") then
    return (true, { tail with partitioning := some (← Partitioning.grammar) })
  else
    return (false, tail)

/-- Reads the options of a table; a later comment or partitioning replaces an earlier one. -/
def tail : Grammar Tail :=
  scan [] ⟨none, none⟩ fun depth tail =>
    if depth = 0 then readOption tail else return (false, tail)

/-- Reads the definitions and the options of a table. -/
def definitionsAndTail : Grammar (List TableElement × Tail) := do
  let elements ← TableElement.list
  return (elements, ← tail)

/-- Reads the words `IF NOT EXISTS`, if they are there. -/
def readIfNotExists : Grammar Bool := do
  if ← consume "IF" then
    expect "NOT" (.expected "IF NOT EXISTS")
    expect "EXISTS" (.expected "IF NOT EXISTS")
    return true
  else
    return false

/-- Reads the definition of a table. -/
def grammar : Grammar Table := do
  expect "CREATE" (.expected "keyword CREATE")
  let isTemporary ← consume "TEMPORARY"
  expect "TABLE" (.expected "keyword TABLE")
  let ifNotExists ← readIfNotExists
  let name ← Grammar.name.orRefuse (.expected "table name")
  let (elements, tail) ← withStops [(← settings).terminator] definitionsAndTail
  unless ← atTerminator do refuse (.expected "end of CREATE TABLE statement")
  return {
    name, isTemporary, ifNotExists
    columns := TableElement.columns elements
    indexes := TableElement.indexes elements
    constraints := TableElement.constraints elements
    comment := tail.comment
    partitioning := tail.partitioning }

end Table

end TableDdl
