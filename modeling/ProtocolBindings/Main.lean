import ProtocolBindings.CommandLine

namespace ProtocolBindings

/-- The cause of a failed operation. -/
def FileError.ofSystem : IO.Error → FileError
  | .noFileOrDirectory .. | .noSuchThing .. => .notFound
  | .inappropriateType .. => .notDirectory
  | .invalidArgument .. => .invalidPath
  | _ => .refused

/-- An operation with its failure as a value. -/
def attempt {α : Type} (operation : IO α) : IO (Except FileError α) := do
  try return .ok (← operation) catch e => return .error (.ofSystem e)

/-- The content of a file, which has to be text. -/
def readTextFile (path : String) : IO (Except FileError String) := do
  match ← attempt (IO.FS.readBinFile path) with
  | .error e => return .error e
  | .ok content =>
    match String.fromUTF8? content with
    | some text => return .ok text
    | none => return .error .notText

/-- Makes a directory. If something is there already, whether it can hold files shows later. -/
def ensureDirectory (path : String) : IO Unit := do
  try IO.FS.createDir path
  catch
    | .alreadyExists .. => return
    | e => throw e

/-- Creates a temporary file in a directory, under a name that is not in use, and gives its path. -/
def openTemporaryFile (directory : String) : Nat → IO String
  | 0 => throw (IO.userError "no name for a temporary file")
  | attempts + 1 => do
    let number ← IO.rand 0 999999
    let fresh := Path.join directory (System.temporaryName number)
    try
      discard (IO.FS.Handle.mk fresh .writeNew)
      return fresh
    catch
      | .alreadyExists .. => openTemporaryFile directory attempts
      | e => throw e

/-- Writes artifacts one action after the other, with the path of the temporary file if there is
one, and gives the first failure. -/
def performActions (temporary : Option String) : List Action → IO (Option FileError)
  | [] => return none
  | action :: actions => do
    let performed ← attempt do
      match action, temporary with
      | .checkPath path, _ =>
        if !Path.isUsable path then throw (IO.userError "invalid path")
        return temporary
      | .makeDirectory path, _ =>
        ensureDirectory path
        return temporary
      | .openTemporary path, _ => return some (← openTemporaryFile (Path.directory path) 1000)
      | .fill content, some fresh =>
        IO.FS.writeFile fresh content
        return temporary
      | .place path, some fresh =>
        IO.FS.rename fresh path
        return none
      | _, none => return none
    match performed with
    | .ok temporary => performActions temporary actions
    | .error e =>
      if let some fresh := temporary then
        discard (attempt (IO.FS.removeFile fresh))
      return some e

/-- Runs a command on the files of the machine. -/
def Command.runOnMachine (config : Option String) (command : Command) :
    IO (Except Failure Report) := do
  match ← command.prepare readTextFile config with
  | .error failure => return .error failure
  | .ok report =>
    match ← performActions none (Artifact.allActions report.artifacts) with
    | none => return .ok report
    | some e => return .error (.file e)

end ProtocolBindings

open ProtocolBindings in
def main (arguments : List String) : IO UInt32 := do
  let ending ←
    match Invocation.ofArguments arguments with
    | .error usage =>
      if let .wrong e := usage then
        IO.eprintln ("error: " ++ e.message ++ "\n" ++ usageText)
      pure (Ending.ofUsage usage)
    | .ok invocation =>
      let outcome ← invocation.command.runOnMachine invocation.config
      pure (Ending.ofReport invocation.command outcome)
  if let some failure := ending.failure then
    IO.eprintln ("ERROR " ++ failure.message)
  IO.print ending.output
  return ending.exitCode
