import TableDdl.CommandLine.Output
import TableDdl.Statement.Grammar
import TableDdl.Text.Blank

/-!
# The prompt

At the prompt, lines are gathered until one of them ends with the terminator; then the text gathered
so far is read as a script. A line that starts with a dot while nothing is gathered is a command to
the prompt itself. Blank lines count for nothing.
-/

namespace TableDdl

/-- The version of the program. -/
def versionText : String := "0.1.0"

namespace Prompt

/-- What a line means. -/
inductive Turn where
  /-- Nothing. -/
  | blank
  /-- A command to the prompt. -/
  | command (text : String)
  /-- More of a text whose end is still to come. -/
  | unfinished (text : String)
  /-- The end of a text. -/
  | finished (text : String)
deriving DecidableEq, Repr

/-- The text gathered so far together with a further line. -/
def gather (gathered line : String) : String :=
  if gathered.isEmpty then line else gathered ++ "\n" ++ line

/-- What a line means after the text gathered so far. -/
def turn (terminator gathered line : String) : Turn :=
  let trimmed := Text.trim line
  if gathered.isEmpty && trimmed.toList.head? = some '.' then .command trimmed
  else if trimmed.isEmpty then .blank
  else if terminator.toList <:+ trimmed.toList then .finished (gather gathered trimmed)
  else .unfinished (gather gathered trimmed)

/-- The state of the prompt. -/
structure State where
  /-- The settings. -/
  settings : Settings
  /-- How statements are printed. -/
  format : OutputFormat
  /-- The text gathered so far. -/
  gathered : String
deriving DecidableEq, Repr

/-- What the prompt does with a line. -/
structure Reply where
  /-- What is printed. -/
  emissions : List Emission
  /-- The state afterwards; there is none after the last line. -/
  state : Option State

/-- What is printed before the first line. -/
def banner (settings : Settings) : Emission :=
  .lines ["Prism DDL v" ++ versionText, "Enter '.help' for usage hints.",
    "Enter DDL statements terminated with '" ++ settings.terminator ++ "'", ""]

/-- The commands of the prompt. -/
def help : Emission :=
  .lines [".exit, .quit       Exit this program", ".format sql|json   Set the output format",
    ".help              Show this message", ".version           Show version information"]

/-- What is printed at the end of the lines. -/
def farewell : Emission := .lines ["exit"]

/-- What is printed for a complete text. -/
def answer (state : State) (text : String) : Emission :=
  match Statement.parseScript state.settings text with
  | .ok statements => .output (state.format.write state.settings.terminator statements)
  | .error error => .errors ("Error: " ++ error.message ++ "\n")

/-- What the prompt does with the command on the output format. -/
def formatCommand (state : State) : Option String → Reply
  | none => ⟨[.lines ["Current format: " ++ state.format.title]], some state⟩
  | some word =>
      let name := Text.lower word
      match OutputFormat.ofName? name with
      | some format => ⟨[], some { state with format }⟩
      | none => ⟨[.lines ["Unknown format: " ++ name ++ ". Use sql or json."]], some state⟩

/-- What the prompt does with a command. -/
def obey (state : State) (command : String) : Reply :=
  let words := Text.blankSeparated command
  let name := words.headD ""
  if name = ".exit" ∨ name = ".quit" then ⟨[.lines ["Goodbye!"]], none⟩
  else if name = ".help" then ⟨[help], some state⟩
  else if name = ".format" then formatCommand state words[1]?
  else if name = ".version" then ⟨[.lines ["Prism DDL v" ++ versionText]], some state⟩
  else ⟨[.lines ["Unknown command: " ++ name, "Type '.help' for list of available commands."]],
    some state⟩

/-- What the prompt does with a line. -/
def step (state : State) (line : String) : Reply :=
  match turn state.settings.terminator state.gathered line with
  | .blank => ⟨[], some state⟩
  | .command text => obey state text
  | .unfinished text => ⟨[], some { state with gathered := text }⟩
  | .finished text => ⟨[answer state text], some { state with gathered := "" }⟩

/-- What the prompt prints for lines, until there are no more or a command ends it. -/
def replies (state : State) : List String → List Emission
  | [] => [farewell]
  | line :: rest =>
      let reply := step state line
      match reply.state with
      | none => reply.emissions
      | some next => reply.emissions ++ replies next rest

/-- All that the prompt prints. -/
def session (settings : Settings) (format : OutputFormat) (lines : List String) : List Emission :=
  banner settings :: replies ⟨settings, format, ""⟩ lines

/-- The texts that lines complete, in order, after the text gathered so far. -/
def texts (terminator gathered : String) : List String → List String
  | [] => []
  | line :: rest =>
      match turn terminator gathered line with
      | .blank | .command _ => texts terminator gathered rest
      | .unfinished text => texts terminator text rest
      | .finished text => text :: texts terminator "" rest

end Prompt

end TableDdl
