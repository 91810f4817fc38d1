import ScriptCheck.Yaml.Token

/-! YAML values. A missing value is the empty plain scalar. An alias stands for the value at its
anchor, which may be one that it stands in itself, so it is not put in its place. -/
namespace ScriptCheck

inductive Yaml where
  | scalar (text : String) (style : Yaml.Style) (tag : Option String)
  | sequence (items : List Yaml)
  | mapping (entries : List (Yaml × Yaml))
  | alias (anchor : Nat)

namespace Yaml

def missing : Yaml := .scalar "" .plain none

def isMissing : Yaml → Bool
  | .scalar "" .plain _ => true
  | _ => false

structure Document where
  root : Yaml
  anchored : List (Nat × Yaml)

/-- The value that is meant. No alias has an anchor, so one step is enough. -/
def Document.value (d : Document) : Yaml → Yaml
  | .alias anchor => ((d.anchored.find? fun a => a.1 = anchor).map Prod.snd).getD missing
  | y => y

/-- The words to be read, what the handles of tags stand for, and the anchors passed, the last one
first. Anchors are counted as they are met; a name means the last one that has it. -/
structure Reading where
  tokens : List Token
  handles : List (String × String)
  anchors : List (String × Nat) := []
  anchored : List (Nat × Yaml) := []

abbrev Reads := StateT Reading (Except Fault)

namespace Reads

def peek : Reads (Option Token) := return (← get).tokens.head?

def skip : Reads Unit := modify fun r => { r with tokens := r.tokens.drop 1 }

def accept (t : Token) : Reads Bool := do
  if (← peek) = some t then
    skip
    return true
  else return false

def atEnd (ends : List Token) : Reads Bool := return (← peek).all ends.contains

def aliasOf (name : String) : Reads Yaml := do
  match (← get).anchors.find? fun a => a.1 = name with
  | some (_, anchor) => return .alias anchor
  | none => throw (.undefinedAnchor name)

def declare (name : String) : Reads Nat := do
  let count := (← get).anchors.length
  modify fun r => { r with anchors := (name, count) :: r.anchors }
  return count

def anchorAt (anchor : Nat) (y : Yaml) : Reads Unit :=
  modify fun r => { r with anchored := (anchor, y) :: r.anchored }

def tagOf (t : TagText) : Reads String := do
  if t.handle = "" then return t.suffix
  match (← get).handles.find? fun h => h.1 = t.handle with
  | some (_, text) => return text ++ t.suffix
  | none => throw (.undefinedHandle t.handle)

def anchor? : Reads (Option String) := do
  match ← peek with
  | some (.anchor name) =>
    skip
    return some name
  | _ => return none

def tag? : Reads (Option String) := do
  match ← peek with
  | some (.tag t) =>
    skip
    return some (← tagOf t)
  | _ => return none

def properties : Reads (Option String × Option String) := do
  let anchor ← anchor?
  let tag ← tag?
  if anchor.isNone && tag.isSome then return (← anchor?, tag) else return (anchor, tag)

end Reads

open Reads

/- Every function below takes a word or hands on to one that does, so a multiple of the number of
words bounds the calls. Block collections are read only where `block` is set. A list may stand at
the column of the key that it belongs to; it has no words for its begin and end then, and is read
only where `flush` is set. -/
mutual
def readNode : Nat → Bool → Bool → Reads Yaml
  | 0, _, _ => throw .expectedContent
  | bound + 1, block, flush => do
    if let some (.alias name) ← peek then
      skip
      return ← aliasOf name
    let (name, tag) ← properties
    let anchor ← name.mapM declare
    let y ← readContent bound block flush (name.isSome || tag.isSome) tag
    anchor.forM fun anchor => anchorAt anchor y
    return y

def readContent : Nat → Bool → Bool → Bool → Option String → Reads Yaml
  | 0, _, _, _, _ => throw .expectedContent
  | bound + 1, block, flush, optional, tag => do
    match ← peek, block, flush with
    | some (.scalar text style), _, _ =>
      skip
      return .scalar text style (if tag = some "!" then none else tag)
    | some .openBracket, _, _ =>
      skip
      return .sequence (← readFlowItems bound true)
    | some .openBrace, _, _ =>
      skip
      return .mapping (← readFlowEntries bound true)
    | some .blockSequence, true, _ =>
      skip
      return .sequence (← readBlockItems bound)
    | some .blockMapping, true, _ =>
      skip
      return .mapping (← readBlockEntries bound)
    | some .entry, _, true => return .sequence (← readFlushItems bound)
    | _, _, _ => if optional then return .scalar "" .plain tag else throw .expectedContent

def readOptional : Nat → Bool → Bool → List Token → Reads Yaml
  | 0, _, _, _ => throw .expectedContent
  | bound + 1, block, flush, ends => do
    if ← atEnd ends then return missing else readNode bound block flush

def readBlockItems : Nat → Reads (List Yaml)
  | 0 => throw .expectedContent
  | bound + 1 => do
    if ← accept .blockEnd then return []
    else if ← accept .entry then
      let item ← readOptional bound true false [.entry, .blockEnd]
      return item :: (← readBlockItems bound)
    else throw .expectedEntry

def readFlushItems : Nat → Reads (List Yaml)
  | 0 => throw .expectedContent
  | bound + 1 => do
    if ← accept .entry then
      let item ← readOptional bound true false [.entry, .key, .value, .blockEnd]
      return item :: (← readFlushItems bound)
    else return []

def readBlockEntries : Nat → Reads (List (Yaml × Yaml))
  | 0 => throw .expectedContent
  | bound + 1 => do
    if ← accept .blockEnd then return []
    else if ← accept .key then
      let key ← readOptional bound true true [.key, .value, .blockEnd]
      let value ← readValue bound true [.key, .value, .blockEnd]
      return (key, value) :: (← readBlockEntries bound)
    else throw .expectedKey

def readValue : Nat → Bool → List Token → Reads Yaml
  | 0, _, _ => throw .expectedContent
  | bound + 1, block, ends => do
    if ← accept .value then readOptional bound block block ends else return missing

/-- The key behind a question mark in a list. Where a colon, a comma or the closing bracket comes
next, the key is missing and that word is used up in its place. -/
def readItemKey : Nat → Reads Yaml
  | 0 => throw .expectedContent
  | bound + 1 => do
    if (← accept .value) || (← accept .comma) || (← accept .closeBracket) then return missing
    else readNode bound false false

/-- The items up to a closing bracket, with a comma before each but the first. A key makes an item a
mapping of one entry. -/
def readFlowItems : Nat → Bool → Reads (List Yaml)
  | 0, _ => throw .expectedContent
  | bound + 1, first => do
    if ← accept .closeBracket then return []
    if !first && !(← accept .comma) then throw .expectedComma
    if ← accept .closeBracket then return []
    else if ← accept .key then
      let key ← readItemKey bound
      let value ← readValue bound false [.comma, .closeBracket]
      return .mapping [(key, value)] :: (← readFlowItems bound false)
    else
      let item ← readNode bound false false
      return item :: (← readFlowItems bound false)

def readFlowEntries : Nat → Bool → Reads (List (Yaml × Yaml))
  | 0, _ => throw .expectedContent
  | bound + 1, first => do
    if ← accept .closeBrace then return []
    if !first && !(← accept .comma) then throw .expectedComma
    if ← accept .closeBrace then return []
    else if ← accept .key then
      let key ← readOptional bound false false [.value, .comma, .closeBrace]
      let value ← readValue bound false [.comma, .closeBrace]
      return (key, value) :: (← readFlowEntries bound false)
    else
      let key ← readNode bound false false
      return (key, missing) :: (← readFlowEntries bound false)
end

def commonHandles : List (String × String) := [("!", "!"), ("!!", "tag:yaml.org,2002:")]

/-- The directives in front of a document, with the handles that they define. There may be one
version, and one meaning for a handle. -/
def takeDirectives (versioned : Bool) (handles : List (String × String)) :
    List Token → Except Fault (List (String × String) × List Token)
  | .directive (.version major minor) :: rest =>
    if versioned || major ≠ 1 || (minor ≠ 1 && minor ≠ 2) then .error .badDirective
    else takeDirectives true handles rest
  | .directive (.tag handle text) :: rest =>
    if handles.any fun h => h.1 = handle then .error .badDirective
    else takeDirectives versioned ((handle, text) :: handles) rest
  | rest => .ok (handles, rest)

/-- The one document of a text; a text of comments only has none. Directives need a line of dashes
behind them. -/
def ofTokens (tokens : List Token) : Except Fault (Option Document) := do
  let bound := 4 * tokens.length + 4
  let (handles, rest) ← takeDirectives false [] tokens
  let read (r : Reads Yaml) (rest : List Token) : Except Fault (Option Document) := do
    let (root, after) ← r.run { tokens := rest, handles := handles ++ commonHandles }
    if after.tokens.all (· == .documentEnd) then return some ⟨root, after.anchored⟩
    else .error .secondDocument
  match rest with
  | .documentStart :: rest =>
    read (readOptional bound true false [.documentStart, .documentEnd]) rest
  | _ =>
    if rest.length < tokens.length then .error .badDirective
    else if rest.isEmpty then return none
    else read (readNode bound true false) rest

def parse (text : String) : Except Fault (Option Document) := scan text >>= ofTokens

end Yaml
end ScriptCheck
