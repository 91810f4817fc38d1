import ScriptCheck.Files.Basic
import ScriptCheck.Pattern.Basic

/-! Patterns for files. Such a pattern is matched name by name: a wildcard does not reach beyond a
slash, and two stars stand for any number of directories. A search goes through directories in the
order of their names. One that cannot be read is an item of the result, in place of what it holds,
and the search goes on behind it. -/
namespace ScriptCheck

structure SearchError where
  path : String
  cause : FileError
  deriving DecidableEq

def SearchError.message (e : SearchError) : String :=
  "attempting to read `" ++ e.path ++ "` resulted in an error: " ++ e.cause.message

abbrev Found := Except SearchError String

/-- A pattern for each name on the way from a directory. Behind a slash at the end only directories
are meant. -/
structure FilePattern where
  start : String
  pieces : List Pattern
  directoriesOnly : Bool

namespace FilePattern

def fillerLength (text : String) : Nat :=
  let names := (Path.components text).filter (· ≠ .root)
  text.length - ("/".intercalate (names.map Path.Component.text)).length

def piecesOf (text : String) : List String :=
  let all := Path.segments text
  if all.getLast? = some "" then all.dropLast else all

/-- The whole text and each piece of it have to be patterns. As many characters as name nothing are
cut off the front: they are meant to be the root, where the search starts then. -/
def parse (text : String) : Except PatternError FilePattern := do
  let _ ← Pattern.parse text
  let cut := fillerLength text
  let start := String.ofList (text.toList.take cut)
  let rest := String.ofList (text.toList.drop cut)
  let pieces ← (if rest = "" then [""] else piecesOf rest).mapM Pattern.parse
  return ⟨if start = "" then "." else start, pieces, text.toList.getLast? == some '/'⟩

structure Spot where
  path : String
  isDirectory : Bool

def enter (path name : String) : String :=
  if Path.components path = [.current] then name else Path.join path name

def isDots (name : String) : Bool := name = "." || name = ".."

/-- Dots are matched only by a pattern that begins with one. -/
def dots (p : Pattern) : List String :=
  if p.head? = some (.char '.') then ["..", "."].filter p.accepting else []

def depthLimit : Nat := 4096

section
variable {m : Type → Type} [Monad m]

def spotAt (fs : FileSystem m) (path : String) : m Spot :=
  return ⟨path, (← fs.kind path) = some .directory⟩

def children (fs : FileSystem m) (spot : Spot) : m (Except SearchError (List (String × Spot))) := do
  if !spot.isDirectory then return .ok []
  match ← fs.entries spot.path with
  | .error cause => return .error ⟨spot.path, cause⟩
  | .ok entries =>
    let inOrder := sortBy (fun a b => a.name ≤ b.name) entries
    return .ok (inOrder.map fun e => (e.name, ⟨enter spot.path e.name, e.isDirectory⟩))

/-- Visits all that lies below a directory, each thing before what it holds. -/
def below (fs : FileSystem m) (visit : String × Spot → m (List Found)) :
    Nat → Spot → m (List Found)
  | 0, spot => return if spot.isDirectory then [.error ⟨spot.path, .nameTooLong⟩] else []
  | depth + 1, spot => do
    match ← children fs spot with
    | .error e => return [.error e]
    | .ok found =>
      let found ← found.mapM fun child =>
        return (← visit child) ++ (← below fs visit depth child.2)
      return found.flatten

def isRecursive (p : Pattern) : Bool := p == [.directories]

def collapse : List Pattern → List Pattern
  | p :: q :: rest =>
    if isRecursive p && isRecursive q then collapse (q :: rest) else p :: collapse (q :: rest)
  | ps => ps

def follow (fs : FileSystem m) (directoriesOnly : Bool) : List Pattern → Spot → m (List Found)
  | [], spot => return if directoriesOnly && !spot.isDirectory then [] else [.ok spot.path]
  | p :: rest, spot =>
    match p.literal? with
    | some chars => do
      let name := String.ofList chars
      let path := enter spot.path name
      let kind ← fs.kind path
      let there := if isDots name then spot.isDirectory else kind.isSome
      if there then follow fs directoriesOnly rest ⟨path, kind = some .directory⟩ else return []
    | none =>
      if isRecursive p then
        match rest with
        | [] =>
          below fs (fun child => return if child.2.isDirectory then [.ok child.2.path] else [])
            depthLimit spot
        | q :: others => below fs (fun child => if q.accepting child.1
            then follow fs directoriesOnly others child.2 else return []) depthLimit spot
      else do
        match ← children fs spot with
        | .error e => return [.error e]
        | .ok found =>
          let dotted ← (if spot.isDirectory then dots p else []).mapM fun name => do
            follow fs directoriesOnly rest (← spotAt fs (Path.join spot.path name))
          let named ← (found.filter fun child => p.accepting child.1).mapM fun child =>
            follow fs directoriesOnly rest child.2
          return (dotted ++ named).flatten

def find (fs : FileSystem m) (p : FilePattern) : m (List Found) := do
  follow fs p.directoriesOnly (collapse p.pieces) (← spotAt fs p.start)

end
end FilePattern

def FileSystem.search {m : Type → Type} [Monad m] (fs : FileSystem m) (text : String) :
    m (Except PatternError (List Found)) :=
  match FilePattern.parse text with
  | .error e => return .error e
  | .ok p => return .ok (← p.find fs)

end ScriptCheck
