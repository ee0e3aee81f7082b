import TableDdl.Alter.Basic
import TableDdl.Alter.Target
import TableDdl.Column.Grammar
import TableDdl.Index.Grammar
import TableDdl.Partition.Grammar
import TableDdl.Rename.Grammar
import TableDdl.TableOption.Grammar

/-!
# Reading alterations

A clause is options of the table, an action, the words of its target and what belongs to them. The
word `COLUMN` may be left out after `CHANGE` and `MODIFY`, and before a list of columns. Clauses are
set apart by commas, and a partitioning may follow the last clause without one.
-/

namespace TableDdl

namespace AlterOption

open Grammar

/-- Reads the action of a clause. -/
def readAction : Grammar AlterAction := do
  let word ← keyword?
  match AlterAction.all.find? fun action => word = some action.keyword with
  | some action => advance; return action
  | none => refuse (.expected "ALTER action ADD, DROP, RENAME, CHANGE or MODIFY")

/-- Reads the words that follow the keyword of the role of an index. -/
def afterRole : IndexRole → Grammar Unit
  | .primary | .foreign => expect "KEY" (.expected "keyword KEY")
  | .fulltext | .spatial => do
      unless ← consumeAny ["INDEX", "KEY"] do refuse (.expected "keyword INDEX or KEY")
  | .unique => do
      let _ ← consumeAny ["INDEX", "KEY"]

/-- Reads the words of a target of an action, and gives the target and the role of an index. -/
def readTarget (action : AlterAction) : Grammar (AlterTarget × Option IndexRole) := do
  let token ← current
  let word := token.keyword?.bind TargetWord.ofWord?
  if (action = .change ∨ action = .modify) ∧ word ≠ some .column then
    return (.column, none)
  else if action = .add && (← sees "(") then
    return (.column, none)
  else
    match word with
    | none => refuse (.unsupportedExpression action.keyword token.text)
    | some target =>
        advance
        match target with
        | .column => return (.column, none)
        | .table => return (.table, none)
        | .index none => return (.index, none)
        | .index (some role) => afterRole role; return (.index, some role)
        | .constraint | .partition =>
            refuse (.unsupportedOperation action.keyword (token.keyword?.getD ""))

/-- Reads a column and where it goes. The name is read before `FIRST` and `AFTER` are stop words,
since both may be names. -/
def positionedColumn : Grammar Column := do
  let name ← Grammar.name
  let column ← withStops ["FIRST", "AFTER"] (Column.afterName name)
  if ← consume "FIRST" then
    return { column with position := some .first }
  else if ← consume "AFTER" then
    return { column with position := some (.after (← Grammar.name)) }
  else
    return column

/-- Reads columns in parentheses. -/
def columnGroup : Grammar (List Column) :=
  parenthesized (.expected "opening bracket \"(\"") .unclosedColumnGroup positionedColumn

/-- Reads the name of what is removed. -/
def droppedName (role : Option IndexRole) : Grammar String := do
  match role with
  | some .primary => return primaryKeyName
  | some .foreign => return foreignKeyMark ++ (← Grammar.name)
  | _ => Grammar.name

/-- Reads what belongs to an action and its target. -/
def readPayload (action : AlterAction) (target : AlterTarget) (role : Option IndexRole) :
    Grammar AlterPayload := do
  match action, target with
  | .add, .column =>
      if ← sees "(" then return .columns (← columnGroup) else return .column (← positionedColumn)
  | .add, .index => return .index (← Index.body role)
  | .drop, .column | .drop, .index => return .name (← droppedName role)
  | .rename, .column | .rename, .index => return .rename (← Rename.grammar)
  | .rename, .table => return .name (← Grammar.name)
  | .change, .column =>
      let oldName ← Grammar.name
      return .changeColumn oldName (← positionedColumn)
  | .modify, .column => return .column (← positionedColumn)
  | action, target => refuse (.unsupportedOperation action.keyword target.keyword)

/-- The words after `RENAME` that are no new name of the table. -/
def renameWords : List String := ["TO", "AS", "COLUMN", "INDEX", "KEY"]

/-- Reads a clause. -/
def grammar : Grammar AlterOption := do
  let tableOptions ← TableOption.options
  let action ← readAction
  if action = .rename && !(← seesAny renameWords) then
    return ⟨.table, action, .name (← Grammar.name), tableOptions⟩
  else
    let (target, role) ← readTarget action
    return ⟨target, action, ← readPayload action target role, tableOptions⟩

end AlterOption

namespace AlterTable

open Grammar

/-- The clauses are over: the statement ends, or a partitioning follows. -/
def atClausesEnd : Grammar Bool := do
  return (← atTerminator) || (← sees "PARTITION")

/-- Reads clauses with commas between them. A comma may also follow the last one. -/
def clauses : Grammar (List AlterOption) := do
  if ← atClausesEnd then
    return []
  else
    let first ← AlterOption.grammar
    let others ← many do
      if ← consume "," then
        if ← atClausesEnd then return none else return some (← AlterOption.grammar)
      else
        return none
    return first :: others

/-- Reads an alteration. -/
def grammar : Grammar AlterTable := do
  expect "ALTER" (.expected "keyword ALTER")
  expect "TABLE" (.expected "keyword TABLE")
  let tableName ← Grammar.name
  let options ← withStops [(← settings).terminator, "PARTITION"] clauses
  let partitioning ← if ← sees "PARTITION" then some <$> Partitioning.grammar else pure none
  unless ← atTerminator do refuse (.expected "\",\" or end of ALTER TABLE statement")
  if options.isEmpty && partitioning.isNone then refuse (.expected "ALTER TABLE clause")
  return { tableName, options, partitioning }

end AlterTable

end TableDdl
