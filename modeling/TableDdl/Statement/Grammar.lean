import TableDdl.Alter.Grammar
import TableDdl.Statement.Basic
import TableDdl.Table.Grammar
import TableDdl.Token.Lexer

/-!
# Reading statements

A text is read as one statement, or as a script of statements. Terminators may stand before, between
and after statements, any number of them.
-/

namespace TableDdl

namespace Grammar

variable {α : Type}

/-- Moves past terminators. -/
def skipTerminators : Grammar Unit := do
  let _ ← many do
    if (← atEnd) then return none
    else if ← consume (← settings).terminator then return some ()
    else return none

/-- Reads the whole of a text: what the grammar reads, and terminators after it. -/
def whole (grammar : Grammar α) : Grammar α := do
  let found ← grammar
  skipTerminators
  unless ← atEnd do refuse .trailingInput
  return found

/-- Reads from the start of a sequence of tokens, without stop words. -/
def run (grammar : Grammar α) (settings : Settings) (tokens : List Token) :
    Outcome α (Cursor.ofTokens tokens) :=
  grammar ⟨settings, .none⟩ (Cursor.ofTokens tokens)

/-- What a grammar reads from the start of a text. -/
def parse (grammar : Grammar α) (settings : Settings) (text : String) : Except ParseError α := do
  let tokens ← Token.tokenize text
  (grammar.run settings tokens).result

end Grammar

namespace Statement

open Grammar

/-- Reads a statement. -/
def grammar : Grammar Statement := do
  if ← sees "CREATE" then return createTable (← Table.grammar)
  else if ← sees "ALTER" then return alterTable (← AlterTable.grammar)
  else refuse (.expected "CREATE TABLE or ALTER TABLE statement")

/-- Reads statements up to the end of input. -/
def script : Grammar (List Statement) :=
  many do
    skipTerminators
    if ← atEnd then return none else return some (← grammar)

/-- Reads one statement with terminators around it. -/
def alone : Grammar Statement := do
  skipTerminators
  whole grammar

/-- The one statement of a text. -/
def parse (settings : Settings) (text : String) : Except ParseError Statement :=
  alone.parse settings text

/-- The statements of a text. -/
def parseScript (settings : Settings) (text : String) : Except ParseError (List Statement) :=
  script.parse settings text

end Statement

/-- The one table that a text defines. -/
def Table.parse (settings : Settings) (text : String) : Except ParseError Table :=
  Table.grammar.whole.parse settings text

/-- The one alteration that a text describes. -/
def AlterTable.parse (settings : Settings) (text : String) : Except ParseError AlterTable :=
  AlterTable.grammar.whole.parse settings text

end TableDdl
