import ScriptCheck.Command.Run

/-! The command: runs on the files of the working directory. -/
namespace ScriptCheck

def fileError : IO.Error → FileError
  | .noFileOrDirectory .. => .missing
  | .permissionDenied .. => .denied
  | .inappropriateType .. => .notDirectory
  | e => .other (toString e)

def attempt {α : Type} (act : IO α) : IO (Except FileError α) := do
  try return .ok (← act)
  catch e => return .error (fileError e)

def readSystemFile (path : String) : IO (Except FileError String) := do
  let file := (← IO.currentDir) / path
  if path.isEmpty then return .error .missing
  if ← file.isDir then return .error .directory
  attempt (IO.FS.readFile file)

def systemFileKind (path : String) : IO (Option FileKind) := do
  let file := (← IO.currentDir) / path
  if path.isEmpty then return none
  match ← attempt file.metadata with
  | .error _ => return none
  | .ok found =>
    match found.type with
    | .dir => return some .directory
    | .file => return some .file
    | _ => return some .other

def systemEntries (path : String) : IO (Except FileError (List DirEntry)) := do
  let dir := (← IO.currentDir) / path
  attempt do
    (← dir.readDir).toList.mapM fun e => return ⟨e.fileName, ← e.path.isDir⟩

def systemFiles : FileSystem IO := ⟨readSystemFile, systemFileKind, systemEntries⟩

def systemHost : Command.Host IO where
  read := systemFiles.read
  kind := systemFiles.kind
  search := systemFiles.search
  write path content := do
    let file := (← IO.currentDir) / path
    attempt (IO.FS.writeFile file content)
  config := Config.parse

end ScriptCheck

open ScriptCheck in
def main (args : List String) : IO UInt32 := do
  let outcome ← Command.run systemHost args
  IO.print outcome.stdout
  IO.eprint outcome.stderr
  return outcome.status.toUInt32
