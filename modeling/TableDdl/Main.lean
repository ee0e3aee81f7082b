import TableDdl.CommandLine.Run

/-!
# The program

Reads the files that the command line names and the lines at the prompt, and prints what the
definitions of this library make of them.
-/

namespace TableDdl

namespace Program

/-- Prints a text on its channel. -/
def emit (emission : Emission) : IO Unit :=
  match emission.channel with
  | .output => do
      IO.print emission.text
      (← IO.getStdout).flush
  | .errors => IO.eprint emission.text

/-- The bytes of a file, if it can be read. -/
def readFile? (path : String) : IO (Option ByteArray) := do
  try
    return some (← IO.FS.readBinFile path)
  catch _ =>
    return none

/-- The bytes of the files with the given paths, looked up by path. -/
def readFiles (paths : List String) : IO (String → Option ByteArray) := do
  let mut contents : List (String × ByteArray) := []
  for path in paths do
    if let some bytes ← readFile? path then
      contents := (path, bytes) :: contents
  let found := contents
  return fun path => found.lookup path

/-- Shows the prompt where a person reads it. -/
def showPrompt (state : Prompt.State) : IO Unit := do
  if ← (← IO.getStdin).isTty then
    IO.print (if state.gathered.isEmpty then "ddl> " else "  -> ")
    (← IO.getStdout).flush

/-- Reads lines at the prompt until there are no more or a command ends it. -/
partial def converse (state : Prompt.State) : IO Unit := do
  showPrompt state
  let line ← (← IO.getStdin).getLine
  if line.isEmpty then
    emit Prompt.farewell
  else
    let reply := Prompt.step state line
    reply.emissions.forM emit
    match reply.state with
    | some next => converse next
    | none => return

/-- Does what the arguments ask for, and gives the exit code. -/
def perform (arguments : Arguments) : IO UInt32 := do
  let contentOf ← readFiles (arguments.config.toList ++ arguments.file.toList)
  match arguments.loadSettings contentOf, arguments.isConversation with
  | .ok settings, true =>
      emit (Prompt.banner settings)
      converse ⟨settings, arguments.format.getD .sql, ""⟩
      return 0
  | _, _ =>
      let report := arguments.run contentOf []
      report.emissions.forM emit
      return report.code.toUInt32

end Program

end TableDdl

/-- Runs the program with its arguments. -/
def main (arguments : List String) : IO UInt32 := do
  match TableDdl.Arguments.ofList arguments with
  | .read read => TableDdl.Program.perform read
  | invocation =>
      let report := invocation.run (fun _ => none) []
      report.emissions.forM TableDdl.Program.emit
      return report.code.toUInt32
