import ScriptCheck.Files.Path

/-! What the command sees of a file system, and one that is held in memory. -/
namespace ScriptCheck

inductive FileError where
  | missing
  | denied
  | notDirectory
  | directory
  | nameTooLong
  | other (text : String)
  deriving DecidableEq

def FileError.message : FileError → String
  | .missing => "No such file or directory (os error 2)"
  | .denied => "Permission denied (os error 13)"
  | .notDirectory => "Not a directory (os error 20)"
  | .directory => "Is a directory (os error 21)"
  | .nameTooLong => "File name too long (os error 36)"
  | .other text => text

/-- What a path leads to. A device is neither a file nor a directory. -/
inductive FileKind where
  | file
  | directory
  | other
  deriving DecidableEq

/-- A name in a directory. Whether it is a directory itself is known without access to it. -/
structure DirEntry where
  name : String
  isDirectory : Bool

structure FileSystem (m : Type → Type) where
  read : String → m (Except FileError String)
  kind : String → m (Option FileKind)
  entries : String → m (Except FileError (List DirEntry))

/-- Files in memory, by the names that lead to them from the working directory. The directories are
those that hold files. The names in a locked one cannot be listed. -/
structure FileTree where
  files : List (List String × String) := []
  locked : List (List String) := []

namespace FileTree

def contentAt (t : FileTree) (place : List String) : Option String :=
  (t.files.find? fun f => f.1 = place).map Prod.snd

def isDirectoryAt (t : FileTree) (place : List String) : Bool :=
  place = [] || t.files.any fun f => place.isPrefixOf f.1 && place.length < f.1.length

def kindAt (t : FileTree) (place : List String) : Option FileKind :=
  if (t.contentAt place).isSome then some .file
  else if t.isDirectoryAt place then some .directory
  else none

def pathLimit : Nat := 4096
def nameLimit : Nat := 256

def follow (t : FileTree) : List String → List String → Except FileError (List String)
  | place, [] => .ok place
  | place, segment :: rest =>
    match t.kindAt place with
    | none => .error .missing
    | some .directory =>
      if nameLimit ≤ segment.utf8ByteSize then .error .nameTooLong
      else if segment = "" || segment = "." then t.follow place rest
      else if segment = ".." then
        if place = [] then .error .missing else t.follow place.dropLast rest
      else t.follow (place ++ [segment]) rest
    | some _ => .error .notDirectory

def locate (t : FileTree) (path : String) : Except FileError (List String) :=
  if pathLimit ≤ path.utf8ByteSize then .error .nameTooLong
  else if path = "" || Path.isAbsolute path then .error .missing
  else t.follow [] (Path.segments path)

def read (t : FileTree) (path : String) : Except FileError String := do
  let place ← t.locate path
  match t.contentAt place with
  | some content => return content
  | none => .error (if t.isDirectoryAt place then .directory else .missing)

def kind (t : FileTree) (path : String) : Option FileKind :=
  match t.locate path with
  | .ok place => t.kindAt place
  | .error _ => none

def namesAt (t : FileTree) (place : List String) : List String :=
  (t.files.filterMap fun f => if place.isPrefixOf f.1 then (f.1.drop place.length).head?
    else none).eraseDups

def entries (t : FileTree) (path : String) : Except FileError (List DirEntry) := do
  let place ← t.locate path
  match t.kindAt place with
  | none => .error .missing
  | some .directory =>
    if t.locked.contains place then .error .denied
    else return (t.namesAt place).map fun name => ⟨name, t.isDirectoryAt (place ++ [name])⟩
  | some _ => .error .notDirectory

def put (t : FileTree) (path content : String) : FileTree :=
  let place := (Path.segments path).filter fun s => s ≠ "" && s ≠ "."
  { t with files := t.files.filter (fun f => f.1 ≠ place) ++ [(place, content)] }

def write (t : FileTree) (path content : String) : Except FileError FileTree := do
  let place ← t.locate path
  if t.isDirectoryAt place then .error .directory
  else if t.kindAt place.dropLast = some .directory then return t.put path content
  else .error .missing

def system (t : FileTree) : FileSystem Id := ⟨t.read, t.kind, t.entries⟩

end FileTree
end ScriptCheck
