import ProtocolBindings.Workspace.Command

namespace ProtocolBindings

/-- What is wrong with a command line. -/
inductive UsageError where
  | unexpectedArgument (argument : String)
  | unexpectedValue (option : String)
  | missingValue (option : String)
  | repeated (option : String)
  | missingCommand
  | missingOption (option : String)
  deriving DecidableEq, Repr

def UsageError.message : UsageError → String
  | .unexpectedArgument argument => "unexpected argument '" ++ argument ++ "'"
  | .unexpectedValue option => "unexpected value for '--" ++ option ++ "'"
  | .missingValue option => "a value is required for '--" ++ option ++ "'"
  | .repeated option => "'--" ++ option ++ "' cannot be used multiple times"
  | .missingCommand => "a command is required"
  | .missingOption option => "'--" ++ option ++ "' is required"

/-- Why no command is run. -/
inductive Usage where
  | help
  | wrong (error : UsageError)
  deriving DecidableEq, Repr

def usageText : String :=
  "Usage: lspbind [-v] [--config <FILE>] " ++
    "(generate -i <FILE> -o <DIR> [--single-file] | check -i <FILE> [--json] | order -i <FILE>)"

inductive CommandName where
  | generate
  | check
  | order
  deriving DecidableEq, Repr

def CommandName.ofWord? : String → Option CommandName
  | "generate" => some .generate
  | "check" => some .check
  | "order" => some .order
  | _ => none

/-- Options without a value. -/
inductive Flag where
  | verbose
  | help
  | singleFile
  | json
  deriving DecidableEq, Repr

/-- Options with a value. -/
inductive Setting where
  | config
  | input
  | output
  deriving DecidableEq, Repr

namespace Flag

def long : Flag → String
  | .verbose => "verbose"
  | .help => "help"
  | .singleFile => "single-file"
  | .json => "json"

def short? : Flag → Option Char
  | .verbose => some 'v'
  | .help => some 'h'
  | .singleFile | .json => none

/-- The flags known before a command, or after one. -/
def known : Option CommandName → List Flag
  | some .generate => [.verbose, .help, .singleFile]
  | some .check => [.verbose, .help, .json]
  | some .order | none => [.verbose, .help]

end Flag

namespace Setting

def long : Setting → String
  | .config => "config"
  | .input => "input"
  | .output => "output"

def short? : Setting → Option Char
  | .config => none
  | .input => some 'i'
  | .output => some 'o'

/-- The settings known before a command, or after one. -/
def known : Option CommandName → List Setting
  | some .generate => [.config, .input, .output]
  | some .check | some .order => [.config, .input]
  | none => [.config]

end Setting

/-- The arguments read so far. -/
structure Arguments where
  command : Option CommandName := none
  /-- The flags raised since the command, or before there is one. -/
  flags : List Flag := []
  /-- The settings made since the command, or before there is one. -/
  settings : List (Setting × String) := []
  /-- The options file named before the command. -/
  outerConfig : Option String := none
  /-- The setting whose value has to come next. -/
  pending : Option Setting := none
  /-- Options are over. -/
  closed : Bool := false
  /-- The words that follow a request for help. -/
  help : Option (List String) := none

namespace Arguments

def set (a : Arguments) (setting : Setting) (value : String) : Except Usage Arguments :=
  if value.isEmpty then .error (.wrong (.missingValue setting.long))
  else if (a.settings.lookup setting).isSome then .error (.wrong (.repeated setting.long))
  else .ok { a with settings := (setting, value) :: a.settings, pending := none }

/-- Only verbosity may be raised more than once. -/
def raise (a : Arguments) (flag : Flag) : Except Usage Arguments :=
  match flag with
  | .help => .error .help
  | .verbose => .ok { a with flags := flag :: a.flags }
  | _ =>
    if flag ∈ a.flags then .error (.wrong (.repeated flag.long))
    else .ok { a with flags := flag :: a.flags }

/-- Short options that are run together; one with a value takes the rest. -/
def cluster (argument : String) (a : Arguments) : List Char → Except Usage Arguments
  | [] => .ok a
  | c :: rest =>
    match (Flag.known a.command).find? (·.short? = some c) with
    | some flag => do (← a.raise flag).cluster argument rest
    | none =>
      match (Setting.known a.command).find? (·.short? = some c) with
      | none => .error (.wrong (.unexpectedArgument argument))
      | some setting =>
        match rest with
        | [] => .ok { a with pending := some setting }
        | '=' :: value => a.set setting (String.ofList value)
        | value => a.set setting (String.ofList value)

/-- A long option, given without its dashes. -/
def long (argument : String) (a : Arguments) (text : List Char) : Except Usage Arguments :=
  let name := String.ofList (text.takeWhile (· ≠ '='))
  let value? := (text.dropWhile (· ≠ '=')).tail?.map String.ofList
  match (Flag.known a.command).find? (·.long = name) with
  | some flag =>
    if value?.isSome then .error (.wrong (.unexpectedValue name)) else a.raise flag
  | none =>
    match (Setting.known a.command).find? (·.long = name), value? with
    | some setting, some value => a.set setting value
    | some setting, none => .ok { a with pending := some setting }
    | none, _ => .error (.wrong (.unexpectedArgument argument))

/-- An argument that is no option: a value, or the name of the command. -/
def plain (a : Arguments) (argument : String) : Except Usage Arguments :=
  match a.pending, a.command with
  | some setting, _ => a.set setting argument
  | none, some _ => .error (.wrong (.unexpectedArgument argument))
  | none, none =>
    match CommandName.ofWord? argument with
    | some name => .ok { command := some name, outerConfig := a.settings.lookup .config }
    | none =>
      if argument = "help" then .ok { a with help := some [] }
      else .error (.wrong (.unexpectedArgument argument))

/-- What follows a request for help: the name of one command, help itself included. -/
def topic (a : Arguments) (topics : List String) (argument : String) : Except Usage Arguments :=
  if topics.isEmpty && ((CommandName.ofWord? argument).isSome || argument = "help") then
    .ok { a with help := some [argument] }
  else .error (.wrong (.unexpectedArgument argument))

/-- Reads one argument. An option where a value has to come leaves the value missing. -/
def step (a : Arguments) (argument : String) : Except Usage Arguments :=
  if let some topics := a.help then a.topic topics argument
  else if a.closed then .error (.wrong (.unexpectedArgument argument))
  else
    match argument.toList, a.pending with
    | '-' :: _ :: _, some setting => .error (.wrong (.missingValue setting.long))
    | ['-', '-'], none => .ok { a with closed := true }
    | '-' :: '-' :: text, none => a.long argument text
    | '-' :: c :: rest, none => a.cluster argument (c :: rest)
    | _, _ => a.plain argument

def require (a : Arguments) (setting : Setting) : Except Usage String :=
  match a.settings.lookup setting with
  | some value => .ok value
  | none => .error (.wrong (.missingOption setting.long))

/-- The options file: the one named after the command comes before the one named ahead of it. -/
def config (a : Arguments) : Option String :=
  (a.settings.lookup .config).or a.outerConfig

def finish (a : Arguments) : Except Usage Command := do
  if a.help.isSome then throw .help
  if let some setting := a.pending then throw (.wrong (.missingValue setting.long))
  match a.command with
  | none => throw (.wrong .missingCommand)
  | some .generate =>
    return .generate (← a.require .input) (← a.require .output) (.singleFile ∈ a.flags)
  | some .check => return .check (← a.require .input) (.json ∈ a.flags)
  | some .order => return .order (← a.require .input)

end Arguments

/-- A command with its options file. -/
structure Invocation where
  config : Option String
  command : Command
  deriving DecidableEq, Repr

def Invocation.ofArguments (arguments : List String) : Except Usage Invocation := do
  let a ← arguments.foldlM Arguments.step {}
  return { command := ← a.finish, config := a.config }

/-- How a run of the program ends. -/
structure Ending where
  exitCode : UInt32
  /-- The text on standard output. -/
  output : String := ""
  failure : Option Failure := none
  deriving DecidableEq, Repr

namespace Ending

def ofLines (lines : List String) : Ending :=
  { exitCode := 0, output := String.join (lines.map (· ++ "\n")) }

def ofUsage : Usage → Ending
  | .help => ofLines [usageText]
  | .wrong _ => { exitCode := 2 }

def ofReport (command : Command) : Except Failure Report → Ending
  | .ok report => ofLines (command.lines report)
  | .error failure => { exitCode := 1, failure }

end Ending

/-- Runs the program on a file tree. -/
def FileTree.runProgram (t : FileTree) (arguments : List String) : FileTree × Ending :=
  match Invocation.ofArguments arguments with
  | .error usage => (t, .ofUsage usage)
  | .ok { config, command } =>
    let (t, outcome) := command.run config t
    (t, .ofReport command outcome)

end ProtocolBindings
