import TableDdl.Grammar.Basic

/-!
# Repetition

Something is read again and again until it is not there any more. A repetition also ends when one
turn of it moves past no token, since every further turn would do the same.
-/

namespace TableDdl

namespace Grammar

variable {α : Type}

/-- Reads as long as there is something to find. -/
def many (item? : Grammar (Option α)) (scope : Scope) (start : Cursor) : Outcome (List α) start :=
  match item? scope start with
  | ⟨.error error, cursor, reaches⟩ => ⟨.error error, cursor, reaches⟩
  | ⟨.ok none, cursor, reaches⟩ => ⟨.ok [], cursor, reaches⟩
  | ⟨.ok (some value), cursor, reaches⟩ =>
      if cursor.remaining < start.remaining then
        ((many item? scope cursor).mapResult (·.map (value :: ·))).since reaches
      else ⟨.ok [value], cursor, reaches⟩
termination_by start.remaining

/-- Reads one item, and another one after each comma. -/
def commaSeparated (item : Grammar α) : Grammar (List α) := do
  let first ← item
  let others ← many do
    if ← consume "," then
      return some (← item)
    else
      return none
  return first :: others

/-- Reads items between parentheses with commas between them. -/
def parenthesized (opening closing : Fault) (item : Grammar α) : Grammar (List α) := do
  expect "(" opening
  let items ← commaSeparated item
  expect ")" closing
  return items

end Grammar

end TableDdl
