import TableDdl.Grammar.Name
import TableDdl.Grammar.Scan
import TableDdl.Index.Basic
import TableDdl.Literal.Grammar

/-!
# Reading indexes

An index is an optional role, the word `INDEX` or `KEY`, an optional name, and its columns. The type
of the index stands before or after the columns. Lengths and directions of columns and the options
of an index are passed over.
-/

namespace TableDdl

namespace Index

open Grammar

/-- Reads the type of an index, if there is one. -/
def indexType? : Grammar (Option String) := do
  if ← consume "USING" then
    match ← keyword? with
    | some indexType => advance; return some indexType
    | none => refuse (.expected "index type after USING")
  else
    return none

/-- Reads a column of an index with its length and its direction. -/
def keyPart : Grammar String := do
  let column ← Grammar.name
  if ← consume "(" then
    let _ ← unsigned "key prefix length"
    expect ")" (.expected "closing bracket \")\" after key prefix length")
  let _ ← consumeAny ["ASC", "DESC"]
  return column

/-- Reads the columns of an index. -/
def keyParts : Grammar (List String) :=
  parenthesized (.expected "opening bracket \"(\" of index columns")
    (.expected "closing bracket \")\" of index columns") keyPart

/-- Reads what follows the words that start an index, whose role is given. -/
def body (role : Option IndexRole) : Grammar Index := do
  let name ← if ← sees "USING" then pure none else Grammar.name?
  let typeBefore ← indexType?
  let columns ← keyParts
  let indexType ← match typeBefore with
    | some indexType => pure (some indexType)
    | none => indexType?
  skipTo [","]
  return { name, indexType, role, columns }

/-- Reads an index. -/
def grammar : Grammar Index := do
  let role := (← keyword?).bind IndexRole.ofKeyword?
  if role.isSome then advance
  unless (← consumeAny ["INDEX", "KEY"]) || role.any IndexRole.standsAlone do
    refuse (.expected "keyword INDEX or KEY")
  body role

end Index

end TableDdl
