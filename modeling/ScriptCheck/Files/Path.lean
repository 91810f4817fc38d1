/-! Paths, as texts and as the components they name. -/
namespace ScriptCheck

def insertBy {α : Type} (notAfter : α → α → Bool) (a : α) : List α → List α
  | [] => [a]
  | b :: rest => if notAfter a b then a :: b :: rest else b :: insertBy notAfter a rest

def sortBy {α : Type} (notAfter : α → α → Bool) (as : List α) : List α :=
  as.foldr (insertBy notAfter) []

namespace Path

inductive Component where
  | root
  | current
  | parent
  | name (s : String)
  deriving DecidableEq

def Component.text : Component → String
  | .root => "/"
  | .current => "."
  | .parent => ".."
  | .name s => s

def splitAtSlash : List Char → List (List Char)
  | [] => [[]]
  | c :: cs =>
    if c = '/' then [] :: splitAtSlash cs
    else match splitAtSlash cs with
    | piece :: rest => (c :: piece) :: rest
    | [] => [[c]]

def segments (path : String) : List String := (splitAtSlash path.toList).map String.ofList

def isAbsolute (path : String) : Bool := path.toList.head? == some '/'

/-- What a piece names inside a path. Doubled slashes and single dots name nothing. -/
def inner? (segment : String) : Option Component :=
  if segment = "" || segment = "." then none
  else if segment = ".." then some .parent
  else some (.name segment)

/-- A dot at the begin is kept, since it marks a path from the working directory. -/
def components (path : String) : List Component :=
  if isAbsolute path then .root :: (segments path).filterMap inner?
  else match segments path with
  | "." :: rest => .current :: rest.filterMap inner?
  | all => all.filterMap inner?

def join (base path : String) : String :=
  if isAbsolute path || base = "" then path
  else if base.toList.getLast? == some '/' then base ++ path
  else base ++ "/" ++ path

def isFiller (segment : String) : Bool := (inner? segment).isNone

def leadLength (path : String) : Nat :=
  match components path with
  | .root :: _ | .current :: _ => 1
  | _ => 0

/-- The path without its last component, as it is written. -/
def parent? (path : String) : Option String :=
  match (components path).getLast? with
  | none | some .root => none
  | some .current => some ""
  | some _ =>
    let lead := (segments path).take (leadLength path)
    let names := (segments path).drop (leadLength path)
    let above := ((names.reverse.dropWhile isFiller).drop 1).dropWhile isFiller
    let text := "/".intercalate (lead ++ above.reverse)
    some (if text = "" && isAbsolute path then "/" else text)

def behind : Nat → List String → List String
  | 0, segments => segments.dropWhile isFiller
  | _ + 1, [] => []
  | n + 1, s :: rest => if isFiller s then behind (n + 1) rest else behind n rest

/-- The path as seen from `base`, or the path itself if it does not lie below. -/
def relative (base path : String) : String :=
  let above := components base
  if above ≠ [] && above.isPrefixOf (components path) then
    let lead := leadLength path
    "/".intercalate (behind (above.length - lead) ((segments path).drop lead))
  else path

def Component.rank : Component → Nat
  | .root => 0
  | .current => 1
  | .parent => 2
  | .name _ => 3

def Component.order : Component → Component → Ordering
  | .name a, .name b => compare a b
  | a, b => compare a.rank b.rank

def orderComponents : List Component → List Component → Ordering
  | [], [] => .eq
  | [], _ :: _ => .lt
  | _ :: _, [] => .gt
  | a :: as, b :: bs => (a.order b).then (orderComponents as bs)

/-- Component by component, so a directory's files stand together. -/
def notAfter (a b : String) : Bool := orderComponents (components a) (components b) ≠ .gt

def dropRepeats : List String → List String
  | [] => []
  | [a] => [a]
  | a :: b :: rest =>
    match dropRepeats (b :: rest) with
    | [] => [a]
    | c :: more => if components a = components c then a :: more else a :: c :: more

def sorted (paths : List String) : List String := dropRepeats (sortBy notAfter paths)

end Path
end ScriptCheck
