import TableDdl.CommandLine.Output

/-!
# Arguments of the command line

Options have a long name after two dashes, and most of them a short one after a single dash. The
value of an option follows it as the next argument, or after an equals sign, or directly after its
short name; short names may be written together. An option occurs at most once, and there are no
arguments besides options and their values.
-/

namespace TableDdl

/-- What the arguments ask for. -/
structure Arguments where
  /-- The text to read. -/
  query : Option String := none
  /-- The file to read. -/
  file : Option String := none
  /-- Whether to read lines at the prompt. -/
  interactive : Bool := false
  /-- How statements are printed. -/
  format : Option OutputFormat := none
  /-- The token that ends a statement. -/
  terminator : Option String := none
  /-- Whether constraints other than foreign keys are refused. -/
  strictConstraints : Bool := false
  /-- The file with the settings. -/
  config : Option String := none
  /-- Whether more is reported. -/
  verbose : Bool := false
deriving DecidableEq, Repr

/-- What the command line asks for. -/
inductive Invocation where
  /-- Read something. -/
  | read (arguments : Arguments)
  /-- Show the version. -/
  | version
  /-- Show the options. -/
  | help
  /-- Nothing: the arguments make no sense. -/
  | misuse
deriving DecidableEq, Repr

namespace Arguments

/-- The options without a value. -/
inductive Flag where
  /-- Read lines at the prompt. -/
  | interactive
  /-- Refuse constraints other than foreign keys. -/
  | strictConstraints
  /-- Report more. -/
  | verbose
  /-- Show the version. -/
  | version
  /-- Show the options. -/
  | help
deriving DecidableEq, Repr

/-- The options with a value. -/
inductive Setting where
  /-- The text to read. -/
  | query
  /-- The file to read. -/
  | file
  /-- How statements are printed. -/
  | format
  /-- The token that ends a statement. -/
  | terminator
  /-- The file with the settings. -/
  | config
deriving DecidableEq, Repr

/-- An option. -/
inductive Key where
  /-- One without a value. -/
  | flag (flag : Flag)
  /-- One with a value. -/
  | setting (setting : Setting)
deriving DecidableEq, Repr

/-- The option with the given long name. -/
def longKey? (name : String) : Option Key :=
  [("query", Key.setting .query), ("file", .setting .file), ("interactive", .flag .interactive),
    ("format", .setting .format), ("terminator", .setting .terminator),
    ("strict-constraints", .flag .strictConstraints), ("config", .setting .config),
    ("verbose", .flag .verbose), ("version", .flag .version), ("help", .flag .help)].lookup name

/-- The option with the given short name. -/
def shortKey? (name : Char) : Option Key :=
  [('q', Key.setting .query), ('f', .setting .file), ('i', .flag .interactive),
    ('t', .setting .terminator), ('c', .setting .config), ('v', .flag .verbose),
    ('V', .flag .version), ('h', .flag .help)].lookup name

/-- What comes of an option: further arguments, or the end of reading them. -/
abbrev Progress := Except Invocation Arguments

/-- The arguments with a value in a place that must be empty. -/
def place {α : Type} (old : Option α) (change : Arguments) : Progress :=
  if old.isSome then .error .misuse else .ok change

/-- The arguments with a flag, which must not be there yet. -/
def raise (arguments : Arguments) : Flag → Progress
  | .interactive =>
      if arguments.interactive then .error .misuse else .ok { arguments with interactive := true }
  | .strictConstraints =>
      if arguments.strictConstraints then .error .misuse
      else .ok { arguments with strictConstraints := true }
  | .verbose => if arguments.verbose then .error .misuse else .ok { arguments with verbose := true }
  | .version => .error .version
  | .help => .error .help

/-- The arguments with the value of an option, which must not be there yet. A file has a name, and a
format one of the known names. -/
def assign (arguments : Arguments) (value : String) : Setting → Progress
  | .query => place arguments.query { arguments with query := some value }
  | .terminator => place arguments.terminator { arguments with terminator := some value }
  | .file =>
      if value.isEmpty then .error .misuse
      else place arguments.file { arguments with file := some value }
  | .config =>
      if value.isEmpty then .error .misuse
      else place arguments.config { arguments with config := some value }
  | .format =>
      match OutputFormat.ofName? value with
      | some format => place arguments.format { arguments with format := some format }
      | none => .error .misuse

/-- The argument is an option or ends the options, and so is no value of the option before it. -/
def isOption (argument : String) : Bool :=
  match argument.toList with
  | '-' :: _ :: _ => true
  | _ => false

/-- What stands in an argument before and after its first equals sign. -/
def splitValue (characters : List Char) : String × Option String :=
  (String.ofList (characters.takeWhile (· ≠ '=')),
    match characters.dropWhile (· ≠ '=') with
    | _ :: value => some (String.ofList value)
    | [] => none)

/-- What follows a short name in its argument, as a value. -/
def attachedValue? : List Char → Option String
  | [] => none
  | '=' :: value => some (String.ofList value)
  | value => some (String.ofList value)

/-- What an argument says by itself: what the arguments become, or which option lacks its value. -/
inductive Effect where
  /-- The arguments are these. -/
  | done (progress : Progress)
  /-- The next argument is the value of the option. -/
  | awaiting (arguments : Arguments) (setting : Setting)

/-- The effect of an option with its long name. -/
def longOption (arguments : Arguments) (characters : List Char) : Effect :=
  let (name, value?) := splitValue characters
  match longKey? name, value? with
  | some (.flag flag), none => .done (arguments.raise flag)
  | some (.setting setting), some value => .done (arguments.assign value setting)
  | some (.setting setting), none => .awaiting arguments setting
  | some (.flag _), some _ | none, _ => .done (.error .misuse)

/-- The effect of options with their short names. -/
def shortOptions (arguments : Arguments) : List Char → Effect
  | [] => .done (.ok arguments)
  | name :: rest =>
      match shortKey? name with
      | none => .done (.error .misuse)
      | some (.flag flag) =>
          match arguments.raise flag with
          | .ok raised => shortOptions raised rest
          | .error invocation => .done (.error invocation)
      | some (.setting setting) =>
          match attachedValue? rest with
          | some value => .done (arguments.assign value setting)
          | none => .awaiting arguments setting

/-- The effect of an argument that is no value. -/
def effect (arguments : Arguments) (argument : String) : Effect :=
  match argument.toList with
  | '-' :: '-' :: name => longOption arguments name
  | '-' :: name :: names => shortOptions arguments (name :: names)
  | _ => .done (.error .misuse)

mutual

/-- What the command line asks for, after the arguments so far. -/
def readFrom (arguments : Arguments) : List String → Invocation
  | [] => .read arguments
  | argument :: rest =>
      if argument = "--" then if rest.isEmpty then .read arguments else .misuse
      else match arguments.effect argument with
        | .done (.error invocation) => invocation
        | .done (.ok next) => readFrom next rest
        | .awaiting next setting => readValue next setting rest

/-- What the command line asks for, after an option that lacks its value. -/
def readValue (arguments : Arguments) (setting : Setting) : List String → Invocation
  | [] => .misuse
  | value :: rest =>
      if isOption value then .misuse
      else match arguments.assign value setting with
        | .error invocation => invocation
        | .ok next => readFrom next rest

end

/-- What the command line asks for. -/
def ofList (arguments : List String) : Invocation := readFrom {} arguments

end Arguments

end TableDdl
