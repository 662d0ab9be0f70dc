import ProtocolBindings.Bindings
import ProtocolBindings.Json.Printer
import ProtocolBindings.Schema.Codec
import ProtocolBindings.Workspace.Disk

namespace ProtocolBindings

/-- Why a command failed. -/
inductive Failure where
  | schema (error : SchemaError)
  | unreadableModel (error : FileError)
  | undecodableModel (error : DecodeError)
  | undecodableOptions (error : DecodeError)
  /-- The options cannot be read, or an artifact cannot be written. -/
  | file (error : FileError)
  deriving DecidableEq, Repr

def DecodeError.message : DecodeError → String
  | .endOfText => "unexpected end of text"
  | .malformed => "malformed text"
  | .wrongShape => "unexpected value"

def Failure.message : Failure → String
  | .schema e => "Schema error: " ++ e.message
  | .unreadableModel e | .file e => "I/O error: " ++ e.message
  | .undecodableModel e => "Meta-model decode error: " ++ e.message
  | .undecodableOptions e => "Options error: " ++ e.message

inductive Command where
  | generate (input output : String) (singleFile : Bool)
  | check (input : String) (json : Bool)
  | order (input : String)
  deriving DecidableEq, Repr

/-- What a command comes to. -/
inductive Report where
  | generated (artifacts : List Artifact) (gaps : List Gap)
  | checked (gaps : List Gap)
  | ordered (names : List String)
  deriving DecidableEq

def Report.artifacts : Report → List Artifact
  | .generated artifacts _ => artifacts
  | .checked _ | .ordered _ => []

/-- The files that hold bindings, below a directory. -/
def Bindings.artifacts (bindings : Bindings) (options : Options) (output : String) :
    List Artifact :=
  { path := Path.join output options.headerPath, content := bindings.header } ::
    match bindings.source, options.sourcePath with
    | some source, some path => [{ path := Path.join output path, content := source }]
    | _, _ => []

/-- Gaps as the text of a JSON array. -/
def Gap.listing (gaps : List Gap) : String :=
  (Json.array (gaps.map Gap.toJson)).pretty

section Reading

variable {m : Type → Type} [Monad m] (read : String → m (Except FileError String))

/-- The options in a file, or the default ones. -/
def Options.load : Option String → m (Except Failure Options)
  | none => return .ok {}
  | some path => do
    match ← read path with
    | .error e => return .error (.file e)
    | .ok text => return (Options.ofText text).mapError .undecodableOptions

def Schema.load (path : String) : m (Except Failure Schema) := do
  match ← read path with
  | .error e => return .error (.unreadableModel e)
  | .ok text => return (Schema.ofText text).mapError .undecodableModel

end Reading

namespace Command

def input : Command → String
  | .generate input _ _ | .check input _ | .order input => input

/-- The options that the command works with. -/
def adjust : Command → Options → Options
  | .generate _ _ true, options => options.combined
  | _, options => options

def report (ctx : Context) : Command → Except SchemaError Report
  | .generate _ output _ => do
    let bindings ← ctx.compile
    return .generated (bindings.artifacts ctx.options output) bindings.gaps
  | .check _ _ => do return .checked (← ctx.compile).gaps
  | .order _ => do return .ordered (← ctx.emissionNames)

/-- Reads the model, and works out the report. -/
def prepareWith {m : Type → Type} [Monad m] (read : String → m (Except FileError String))
    (options : Options) (command : Command) : m (Except Failure Report) := do
  match ← Schema.load read command.input with
  | .error e => return .error e
  | .ok schema => return (command.report { schema, options }).mapError .schema

/-- Reads the options, then the model, and works out the report. -/
def prepare {m : Type → Type} [Monad m] (read : String → m (Except FileError String))
    (config : Option String) (command : Command) : m (Except Failure Report) := do
  match ← Options.load read config with
  | .error e => return .error e
  | .ok options => command.prepareWith read (command.adjust options)

/-- Runs the command with some options on a file tree. Gives the disks passed through, last one
last. -/
def execute (system : System) (options : Options) (command : Command) (t : FileTree) :
    List Disk × Except Failure Report :=
  match command.prepareWith t.reader options with
  | .error e => ([], .error e)
  | .ok report =>
    match Disk.performAll system 0 (Artifact.allActions report.artifacts) { tree := t } with
    | (passed, .ok _) => (passed, .ok report)
    | (passed, .error e) => (passed, .error (.file e))

/-- Reads the options, and runs the command on a file tree. -/
def run (config : Option String) (command : Command) (t : FileTree) :
    FileTree × Except Failure Report :=
  match Options.load t.reader config with
  | .error e => (t, .error e)
  | .ok options =>
    let (passed, outcome) := command.execute .plain (command.adjust options) t
    ((passed.getLast?.map Disk.tree).getD t, outcome)

def gapCount (gaps : List Gap) : String :=
  toString gaps.length ++ " unsupported construct(s)"

/-- The lines that the command prints. -/
def lines (command : Command) : Report → List String
  | .generated artifacts gaps =>
    artifacts.map ("Generated " ++ ·.path) ++
      if gaps.isEmpty then [] else [gapCount gaps ++ ", run `lspbind check` for details"]
  | .checked gaps =>
    if command matches .check _ true then [Gap.listing gaps]
    else gaps.map Gap.message ++ [command.input ++ " OK, " ++ gapCount gaps]
  | .ordered names => names

end Command

end ProtocolBindings
