import TableDdl.Json.Writer
import TableDdl.Statement.Codec

/-!
# What is printed

Statements are printed as normalized text, each with a terminator and an empty line after it, or
together as one JSON list. What is printed goes to one of two channels.
-/

namespace TableDdl

/-- How statements are printed. -/
inductive OutputFormat where
  /-- As normalized text. -/
  | sql
  /-- As JSON. -/
  | json
deriving DecidableEq, Repr

namespace OutputFormat

/-- The name of a format on the command line. -/
def name : OutputFormat → String
  | sql => "sql"
  | json => "json"

/-- The format with the given name. -/
def ofName? (name : String) : Option OutputFormat :=
  [sql, json].find? fun format => format.name == name

/-- The name of a format at the prompt. -/
def title : OutputFormat → String
  | sql => "Sql"
  | json => "Json"

/-- The text of statements in a format. -/
def write (format : OutputFormat) (terminator : String) (statements : List Statement) : String :=
  match format with
  | sql => String.join (statements.map fun statement => statement.render ++ terminator ++ "\n\n")
  | json => (Statement.scriptToJson statements).pretty ++ "\n"

end OutputFormat

/-- Where something is printed. -/
inductive Channel where
  /-- The standard output. -/
  | output
  /-- The standard error. -/
  | errors
deriving DecidableEq, Repr

/-- A text that is printed. -/
structure Emission where
  /-- Where it is printed. -/
  channel : Channel
  /-- What is printed. -/
  text : String
deriving DecidableEq, Repr

namespace Emission

/-- A text on the standard output. -/
def output (text : String) : Emission := ⟨.output, text⟩

/-- Lines on the standard output. -/
def lines (texts : List String) : Emission :=
  output (String.join (texts.map (· ++ "\n")))

/-- A text on the standard error. -/
def errors (text : String) : Emission := ⟨.errors, text⟩

/-- All that is printed on a channel. -/
def textOn (channel : Channel) (emissions : List Emission) : String :=
  String.join ((emissions.filter fun emission => emission.channel = channel).map Emission.text)

end Emission

end TableDdl
