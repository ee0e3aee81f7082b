import TableDdl.Grammar.Repeat

/-!
# Names

A name is a bare word that is no stop word, or any text between backticks. Some names may also be
given as strings.
-/

namespace TableDdl

namespace Grammar

/-- Reads a name, if there is one. -/
def name? : Grammar (Option String) := do
  if ← consume "`" then
    unless ← seesKind .identifier do refuse (.expected "identifier between backticks")
    let token ← current
    advance
    expect "`" (.expected "closing backtick")
    return some token.text
  else if (← seesKind .word) && !(← atStop) then
    let token ← current
    advance
    return some token.text
  else
    return none

/-- Reads a name. -/
def name : Grammar String := do
  match ← name? with
  | some name => return name
  | none => refuse (.expected "name")

/-- Reads a name or a string. -/
def nameOrString : Grammar String := do
  if ← seesKind .quotedString then
    let token ← current
    advance
    return token.text
  else
    name

/-- Reads names between parentheses with commas between them. -/
def names : Grammar (List String) :=
  parenthesized (.expected "opening bracket \"(\" of column list")
    (.expected "closing bracket \")\" of column list") name

end Grammar

end TableDdl
