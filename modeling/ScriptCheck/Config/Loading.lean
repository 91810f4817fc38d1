import ScriptCheck.Config.Basic
import ScriptCheck.Text.Blank
import ScriptCheck.Yaml.Basic

/-! Reading a configuration. All keys are optional and unknown keys are passed over. A key without a
value stands for an empty collection. Where text is expected every scalar is taken as written. -/
namespace ScriptCheck.Config

inductive LoadError where
  | malformed (cause : Yaml.Fault)
  | notMapping
  | notList
  | notText
  | notBool (text : String)
  | unknownFormat (name : String)
  | repeatedKey (name : String)
  deriving DecidableEq

def LoadError.message : LoadError → String
  | .malformed cause => cause.message
  | .notMapping => "expected a mapping"
  | .notList => "expected a list"
  | .notText => "expected a text"
  | .notBool text => "expected a boolean, found '" ++ text ++ "'"
  | .unknownFormat name => "unknown format '" ++ name ++ "'"
  | .repeatedKey name => "repeated key '" ++ name ++ "'"

section

variable (d : Yaml.Document)

def textOf (y : Yaml) : Except LoadError String :=
  match d.value y with
  | .scalar text _ _ => .ok text
  | _ => .error .notText

/-- A tag makes the lines behind a bar a boolean too. -/
def boolOf (y : Yaml) : Except LoadError Bool :=
  match d.value y with
  | .scalar text style tag =>
    let bare := style = .plain || style = .literal && tag = some "tag:yaml.org,2002:bool"
    match Yaml.boolWord? text, bare with
    | some b, true => .ok b
    | _, _ => .error (.notBool text)
  | _ => .error .notText

/-- The format is the text or, in front of nothing, the tag. -/
def formatOf (y : Yaml) : Except LoadError Format :=
  match d.value y with
  | .scalar text style tag =>
    let name := match tag with
      | some tag => if tag.startsWith "!" then (tag.drop 1).toString else tag
      | none => text
    match Format.ofName? name, tag.isNone || style = .plain && Yaml.isNullWord text with
    | some f, true => .ok f
    | _, _ => .error (.unknownFormat name)
  | _ => .error .notText

def listOf (y : Yaml) : Except LoadError (List String) :=
  let y := d.value y
  if y.isMissing then .ok []
  else match y with
  | .sequence items => items.mapM (textOf d)
  | _ => .error .notList

def membersOf (y : Yaml) : Except LoadError (List (String × Yaml)) :=
  let y := d.value y
  if y.isMissing then .ok []
  else match y with
  | .mapping entries => entries.mapM fun (key, value) => do return (← textOf d key, value)
  | _ => .error .notMapping

/-- A repeated key keeps its place and takes the last value. -/
def setText (key value : String) : List (String × String) → List (String × String)
  | [] => [(key, value)]
  | (k, v) :: rest => if k = key then (k, value) :: rest else (k, v) :: setText key value rest

def textsOf (y : Yaml) : Except LoadError (List (String × String)) := do
  (← membersOf d y).foldlM
    (fun texts (key, value) => return setText key (← textOf d value) texts) []

def member? (name : String) (members : List (String × Yaml)) : Except LoadError (Option Yaml) :=
  match members.filter fun m => m.1 = name with
  | [] => .ok none
  | [(_, value)] => .ok (some value)
  | _ => .error (.repeatedKey name)

def memberOr {α : Type} (name : String) (default : α) (read : Yaml → Except LoadError α)
    (members : List (String × Yaml)) : Except LoadError α := do
  match ← member? name members with
  | some value => read value
  | none => return default

def ofMembers (members : List (String × Yaml)) : Except LoadError Config := do
  let base : Config := {}
  let options ← memberOr "compilerOptions" [] (membersOf d) members
  return {
    stdlib := ← memberOr "stdlib" base.stdlib (boolOf d) options
    pretty := ← memberOr "pretty" base.pretty (boolOf d) options
    format := ← memberOr "format" base.format (formatOf d) options
    globals := ← memberOr "globals" base.globals (textsOf d) members
    types := ← memberOr "types" base.types (textsOf d) members
    included := ← memberOr "include" base.included (listOf d) members
    excluded := ← memberOr "exclude" base.excluded (listOf d) members }

end

def parse (text : String) : Except LoadError Config :=
  if text.toList.all Text.isBlank then .ok {}
  else match Yaml.parse text with
  | .error cause => .error (.malformed cause)
  | .ok none => .ok {}
  | .ok (some d) => membersOf d d.root >>= ofMembers d

end ScriptCheck.Config
