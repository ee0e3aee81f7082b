import TableDdl.CommandLine.Arguments
import TableDdl.CommandLine.Prompt
import TableDdl.Settings.Codec
import TableDdl.Statement.File

/-!
# What the program does

The settings are those of the settings file, with the ones of the command line in their place. The
program reads the text on the command line, or else the file, or else the lines of the prompt.
-/

namespace TableDdl

/-- What a run of the program leaves. -/
structure Report where
  /-- The exit code. -/
  code : UInt8
  /-- What is printed, in order. -/
  emissions : List Emission

namespace Report

/-- A run that succeeds. -/
def success (emissions : List Emission) : Report := ⟨0, emissions⟩

/-- A run that fails for a reason with a cause of its own. -/
def failure (reason cause : String) : Report :=
  ⟨1, [.errors ("Error: " ++ reason ++ "\n\nCaused by:\n    " ++ cause ++ "\n")]⟩

end Report

namespace Arguments

/-- The settings with the ones of the command line in their place. -/
def override (arguments : Arguments) (settings : Settings) : Settings :=
  ⟨arguments.terminator.getD settings.terminator,
    arguments.strictConstraints || settings.strictConstraints⟩

/-- The settings of a run. -/
def loadSettings (arguments : Arguments) (contentOf : String → Option ByteArray) :
    Except Report Settings :=
  match arguments.config with
  | none => .ok (arguments.override .standard)
  | some path =>
      match fileText (contentOf path) with
      | .error fault => .error (.failure ("failed to read config file " ++ path) fault.message)
      | .ok text =>
          match Settings.ofText? text with
          | some settings => .ok (arguments.override settings)
          | none =>
              .error (.failure ("invalid config file " ++ path) "the text describes no settings")

/-- The report on statements that were read from the command line or from a file. -/
def report (arguments : Arguments) (settings : Settings) :
    Except ScriptError (List Statement) → Report
  | .ok statements =>
      .success [.output ((arguments.format.getD .sql).write settings.terminator statements)]
  | .error (.file fault) =>
      .failure ("failed to read " ++ arguments.file.getD "") fault.message
  | .error (.parse error) => ⟨1, [.errors ("Error parsing DDL: " ++ error.message ++ "\n")]⟩

/-- The arguments ask for the prompt: there is neither a text nor a file to read. -/
def isConversation (arguments : Arguments) : Bool :=
  arguments.query.isNone && arguments.file.isNone && arguments.interactive

/-- What the program does with settings. -/
def runWith (arguments : Arguments) (settings : Settings)
    (contentOf : String → Option ByteArray) (lines : List String) : Report :=
  match arguments.query, arguments.file with
  | some text, _ => arguments.report settings (Statement.parseText settings text)
  | none, some path => arguments.report settings (Statement.parseFile settings (contentOf path))
  | none, none =>
      if arguments.interactive then
        .success (Prompt.session settings (arguments.format.getD .sql) lines)
      else ⟨1, [.lines ["Please provide --query, --file or --interactive"]]⟩

/-- What the program does with arguments. -/
def run (arguments : Arguments) (contentOf : String → Option ByteArray) (lines : List String) :
    Report :=
  match arguments.loadSettings contentOf with
  | .error report => report
  | .ok settings => arguments.runWith settings contentOf lines

/-- The options of the program. -/
def usage : List String := [
  "Prism DDL - MySQL CREATE/ALTER TABLE parser and normalizer", "",
  "Usage: prism-ddl [OPTIONS]", "",
  "Options:",
  "  -q, --query <QUERY>            DDL statements to parse",
  "  -f, --file <FILE>              File containing DDL statements",
  "  -i, --interactive              Run in interactive mode",
  "      --format <FORMAT>          Output format [default: sql] [possible values: sql, json]",
  "  -t, --terminator <TERMINATOR>  Statement terminator",
  "      --strict-constraints       Reject CONSTRAINT clauses that are not foreign keys",
  "  -c, --config <CONFIG>          Parser configuration file (JSON)",
  "  -v, --verbose                  Enable verbose output",
  "  -h, --help                     Print help",
  "  -V, --version                  Print version"]

end Arguments

/-- What the program does with a command line, the files it may read and the lines at its prompt. -/
def Invocation.run (invocation : Invocation) (contentOf : String → Option ByteArray)
    (lines : List String) : Report :=
  match invocation with
  | .read arguments => arguments.run contentOf lines
  | .version => .success [.lines ["prism-ddl " ++ versionText]]
  | .help => .success [.lines Arguments.usage]
  | .misuse =>
      ⟨2, [.errors "error: invalid arguments\n\nFor more information, try '--help'.\n"]⟩

end TableDdl
