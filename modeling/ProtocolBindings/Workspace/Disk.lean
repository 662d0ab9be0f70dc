import ProtocolBindings.Workspace.FileTree

namespace ProtocolBindings

/-- A file to write. -/
structure Artifact where
  path : String
  content : String
  deriving DecidableEq

/-- One change on the way to an artifact. -/
inductive Action where
  /-- Makes sure that a path can be used. -/
  | checkPath (path : String)
  | makeDirectory (path : String)
  /-- Creates an empty temporary file beside a path. -/
  | openTemporary (path : String)
  /-- Writes the content of the temporary file. -/
  | fill (content : String)
  /-- Moves the temporary file to a path. -/
  | place (path : String)
  deriving DecidableEq

namespace Artifact

/-- The actions that write an artifact, with the directories that it lies in. The content goes to a
temporary file beside the artifact, which then takes the artifact's place in one step. -/
def actions (artifact : Artifact) : List Action :=
  .checkPath (Path.directory artifact.path) ::
    (Path.directories artifact.path).map .makeDirectory ++
    [.openTemporary artifact.path, .fill artifact.content, .place artifact.path]

/-- The actions that write artifacts one after the other. -/
def allActions (artifacts : List Artifact) : List Action :=
  artifacts.flatMap actions

end Artifact

/-- Is this a name for temporary files: six letters or digits after the mark of such files? -/
def isTemporaryName (name : String) : Bool :=
  name.toList.take 4 = ".tmp".toList && (name.toList.drop 4).length = 6 &&
    (name.toList.drop 4).all Char.isAlphanum

/-- What a run depends on beside the files. Actions are known by number. -/
structure System where
  /-- Is the action not allowed? -/
  refuses : Nat → Bool
  /-- The name drawn for a temporary file in a directory, if there is one. -/
  draw : Nat → FileTree → Location → Option String
  draw_temporary : ∀ number t directory name, draw number t directory = some name →
    isTemporaryName name = true
  draw_new : ∀ number t directory name, draw number t directory = some name →
    t.get? (directory ++ [name]) = none

namespace System

/-- The names of temporary files in order. -/
def temporaryName (number : Nat) : String :=
  let digits := toString number
  ".tmp" ++ String.ofList (List.replicate (6 - digits.length) '0') ++ digits

/-- The first name that no entry of a directory has. -/
def firstName? (t : FileTree) (directory : Location) : Option String :=
  ((List.range (t.nodes.length + 1)).map temporaryName).find? fun name =>
    isTemporaryName name && (t.get? (directory ++ [name])).isNone

/-- A system that allows everything, and draws names in order. -/
def plain : System where
  refuses _ := false
  draw _ := firstName?
  draw_temporary := by
    intro _ t directory name h
    have hname := List.find?_some h
    exact (Bool.and_eq_true_iff.mp hname).1
  draw_new := by
    intro _ t directory name h
    have hname := List.find?_some h
    exact Option.isNone_iff_eq_none.mp (Bool.and_eq_true_iff.mp hname).2

end System

/-- A file tree, and the place of the temporary file in it if there is one. -/
structure Disk where
  tree : FileTree
  temporary : Option Location := none
  deriving DecidableEq

namespace Disk

def perform (system : System) (number : Nat) (d : Disk) : Action → Except FileError Disk
  | .checkPath path => do
    let _ ← d.tree.route path
    return d
  | .makeDirectory path => do return { d with tree := ← d.tree.makeDirectory path }
  | .openTemporary path => do
    let directory ← d.tree.locate (← d.tree.route (Path.directory path))
    match system.draw number d.tree directory with
    | none => throw .refused
    | some name =>
      let _ ← d.tree.route (Path.join (Path.directory path) name)
      let place := directory ++ [name]
      return { tree := d.tree.put place (.file .empty), temporary := some place }
  | .fill content =>
    match d.temporary with
    | some place => .ok { d with tree := d.tree.put place (.file content.toUTF8) }
    | none => .error .notFound
  | .place path =>
    match d.temporary.bind fun place => (d.tree.get? place).map (place, ·) with
    | some (place, .file content) => do
      return { tree := ← (d.tree.remove place).write path content }
    | _ => .error .notFound

/-- Removes the temporary file. -/
def abandon (d : Disk) : Disk :=
  match d.temporary with
  | some place => { tree := d.tree.remove place }
  | none => d

/-- Performs actions, numbered from the given one on, until one fails, and then removes the
temporary file. Gives the disks passed through, last one last. -/
def performAll (system : System) :
    Nat → List Action → Disk → List Disk × Except FileError Unit
  | _, [], _ => ([], .ok ())
  | number, action :: actions, d =>
    match if system.refuses number then .error .refused else d.perform system number action with
    | .error e => ([d.abandon], .error e)
    | .ok next =>
      let (passed, outcome) := performAll system (number + 1) actions next
      (next :: passed, outcome)

end Disk

end ProtocolBindings
