import ScriptCheck.Yaml.Scalar

/-! Block scalars: whole lines behind a bar or an angle, indented further than what is around them.
Behind a bar the line breaks are kept. Behind an angle a single break between two lines that do not
begin with white space is read as a blank. -/
namespace ScriptCheck.Yaml

inductive Chomping where
  | strip
  | clip
  | keep

/-- The marks behind the bar; an indentation counts from the collection around the scalar. -/
structure Header where
  chomping : Chomping
  indentation : Option Nat

def takeChomping : List Char → Option Chomping × List Char
  | '+' :: cs => (some .keep, cs)
  | '-' :: cs => (some .strip, cs)
  | cs => (none, cs)

def takeIndentation : List Char → Except Fault (Option Nat × List Char)
  | [] => .ok (none, [])
  | c :: cs =>
    if c == '0' then .error .badHeader
    else if c.isDigit then .ok (some (Json.digitValue c), cs)
    else .ok (none, c :: cs)

def readHeader (cs : List Char) : Except Fault (Header × List Char) := do
  let (chomping, cs) := takeChomping cs
  let (indentation, cs) ← takeIndentation cs
  let (chomping, cs) := if chomping.isNone && indentation.isSome then takeChomping cs
    else (chomping, cs)
  return (⟨chomping.getD .clip, indentation⟩, cs)

def lineEnd (cs : List Char) : Option (List Char) :=
  match cs.dropWhile isSpace with
  | '#' :: cs => some (cs.dropWhile fun c => !isBreak c)
  | [] => some []
  | c :: cs => if isBreak c then some (c :: cs) else none

def takeBreak (cs : List Char) (place : Place) : Option Char × List Char × Place :=
  match cs with
  | '\r' :: '\n' :: cs => (some '\n', cs, place.nextLine 2)
  | c :: cs =>
    if isBreak c then (some (keptBreak c), cs, place.nextLine 1) else (none, c :: cs, place)
  | [] => (none, [], place)

structure LineStart where
  rest : List Char
  place : Place
  breaks : List Char
  widest : Nat

/-- Passes empty lines and the indentation, which goes as far as it can if it is not known yet. -/
def toLineStart (indentation : Option Nat) :
    List Char → Place → List Char → Nat → Except Fault LineStart
  | [], place, breaks, widest => .ok ⟨[], place, breaks, max widest place.column⟩
  | '\r' :: '\n' :: cs, place, breaks, widest =>
    toLineStart indentation cs (place.nextLine 2) (breaks ++ ['\n']) (max widest place.column)
  | c :: cs, place, breaks, widest =>
    let inside := indentation.all fun n => place.column < n
    let widest := max widest place.column
    if inside && c == ' ' then toLineStart indentation cs place.next breaks widest
    else if inside && c == '\t' then .error .tabIndentation
    else if isBreak c then
      toLineStart indentation cs (place.nextLine 1) (breaks ++ [keptBreak c]) widest
    else .ok ⟨c :: cs, place, breaks, widest⟩

structure Lines where
  text : List Char
  ending : Option Char
  spaced : Bool

def Lines.gap (ls : Lines) (folded : Bool) (breaks : List Char) (spaced : Bool) : List Char :=
  if folded && ls.ending == some '\n' && !ls.spaced && !spaced then
    if breaks.isEmpty then [' '] else breaks
  else ls.ending.toList ++ breaks

def Lines.finish (ls : Lines) (breaks : List Char) : Chomping → List Char
  | .strip => ls.text
  | .clip => ls.text ++ ls.ending.toList
  | .keep => ls.text ++ ls.ending.toList ++ breaks

def readLines (folded : Bool) (chomping : Chomping) (indentation : Nat) :
    Nat → Lines → LineStart → Except Fault Scanned
  | 0, ls, here => .ok ⟨ls.finish here.breaks chomping, here.rest, here.place, true⟩
  | bound + 1, ls, here =>
    if here.rest.isEmpty || here.place.column ≠ indentation then
      .ok ⟨ls.finish here.breaks chomping, here.rest, here.place, true⟩
    else do
      let line := here.rest.takeWhile fun c => !isBreak c
      let spaced := line.head?.any isSpace
      let text := ls.text ++ ls.gap folded here.breaks spaced ++ line
      let (ending, rest, place) :=
        takeBreak (here.rest.drop line.length) (here.place.skip line.length)
      let next ← toLineStart (some indentation) rest place [] 0
      readLines folded chomping indentation bound ⟨text, ending, spaced⟩ next

/-- Reads a block scalar from behind its bar, inside a collection at column `level - 1`. -/
def readBlock (folded : Bool) (level : Nat) (cs : List Char) (place : Place) :
    Except Fault Scanned := do
  let (header, behind) ← readHeader cs
  let some rest := lineEnd behind | .error .badHeader
  let (_, rest, place) := takeBreak rest (place.skip (cs.length - rest.length))
  let given := header.indentation.map fun n => level - 1 + n
  let first ← toLineStart given rest place [] 0
  let indentation := given.getD (max first.widest (max level 1))
  readLines folded header.chomping indentation (cs.length + 1) ⟨[], none, false⟩ first

end ScriptCheck.Yaml
