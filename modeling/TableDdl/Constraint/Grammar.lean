import TableDdl.Constraint.Basic
import TableDdl.Grammar.Name
import TableDdl.Grammar.Scan
import TableDdl.Token.Raw

/-!
# Reading constraints

A constraint starts with the word `CONSTRAINT`, after which it may have a name, or directly with what
it demands. What is no foreign key is kept as the text up to a comma, a closing parenthesis or a stop
word, unless the settings refuse it.
-/

namespace TableDdl

namespace Constraint

open Grammar

/-- The words that start what a constraint demands, so that they are names only in backticks. -/
def bodyWords : List String := ["FOREIGN", "CHECK", "UNIQUE", "PRIMARY"]

/-- Reads an action on a reference. -/
def referentialAction : Grammar ReferentialAction := do
  if ← consume "RESTRICT" then return .restrict
  else if ← consume "CASCADE" then return .cascade
  else if ← consume "SET" then
    if ← consume "NULL" then return .setNull
    else if ← consume "DEFAULT" then return .setDefault
    else refuse (.expected "keyword NULL or DEFAULT after SET")
  else if ← consume "NO" then
    expect "ACTION" (.expected "keyword ACTION after NO")
    return .noAction
  else refuse (.expected "keyword RESTRICT or CASCADE")

/-- The events on which an action may happen. -/
inductive ReferenceEvent where
  /-- The row that is referred to is deleted. -/
  | delete
  /-- The row that is referred to is updated. -/
  | update
deriving DecidableEq, Repr

/-- Reads an event and its action, if there is one. -/
def eventAction? : Grammar (Option (ReferenceEvent × ReferentialAction)) := do
  if ← consume "ON" then
    if ← consume "DELETE" then return some (.delete, ← referentialAction)
    else if ← consume "UPDATE" then return some (.update, ← referentialAction)
    else refuse (.expected "keyword DELETE or UPDATE")
  else
    return none

/-- The last of the actions on the event. -/
def lastAction (event : ReferenceEvent) (actions : List (ReferenceEvent × ReferentialAction)) :
    Option ReferentialAction :=
  (actions.reverse.find? fun entry => entry.1 = event).map Prod.snd

/-- Reads how the columns of a foreign key are matched, if it is said. -/
def matchType? : Grammar Unit := do
  if ← consume "MATCH" then
    unless ← consumeAny ["FULL", "PARTIAL", "SIMPLE"] do
      refuse (.expected "FULL, PARTIAL or SIMPLE after MATCH")

/-- Reads a foreign key. -/
def foreignKey : Grammar ForeignKey := do
  expect "FOREIGN" (.expected "keyword FOREIGN")
  expect "KEY" (.expected "keyword KEY after FOREIGN")
  let indexName ← name?
  let localColumns ← names
  expect "REFERENCES" (.expected "keyword REFERENCES")
  let referencedTable ← Grammar.name
  let referencedColumns ← names
  matchType?
  let actions ← many eventAction?
  return {
    indexName, localColumns, referencedTable, referencedColumns
    onDelete := lastAction .delete actions
    onUpdate := lastAction .update actions }

/-- Reads a clause that is kept as text. -/
def clause : Grammar String := do
  let text := Token.renderRaw (← consumed (skipTo [","]))
  if text.isEmpty then refuse (.expected "constraint body") else return text

/-- Reads the name of a constraint after the word `CONSTRAINT`, if it has one. -/
def constraintName? : Grammar (Option String) := do
  if ← consume "CONSTRAINT" then
    if ← seesAny bodyWords then return none else name?
  else
    return none

/-- Reads a constraint. -/
def grammar : Grammar Constraint := do
  let name ← constraintName?
  if ← sees "FOREIGN" then
    return ⟨name, .foreignKey (← foreignKey)⟩
  else if (← settings).strictConstraints then
    refuse .unsupportedConstraint
  else
    return ⟨name, .unsupported (← clause)⟩

end Constraint

end TableDdl
