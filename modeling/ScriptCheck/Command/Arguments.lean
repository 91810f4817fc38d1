import ScriptCheck.Config.Basic

/-! The arguments of the command. They are read from left to right. An option takes its value from
the text behind an equals sign or from the next argument; what it was given is looked at when the
next option, flag or file shows that it is complete. -/
namespace ScriptCheck.Command

inductive Setting where
  | project
  | source
  | format
  deriving DecidableEq

def Setting.label : Setting → String
  | .project => "--project <FILE>"
  | .source => "--source <FILE>"
  | .format => "--format <FORMAT>"

inductive Flag where
  | noPretty
  | noStdlib
  | init
  | help
  | version
  deriving DecidableEq

def Flag.label : Flag → String
  | .noPretty => "--no-pretty"
  | .noStdlib => "--no-stdlib"
  | .init => "--init"
  | .help => "--help"
  | .version => "--version"

def filesLabel : String := "[FILE]..."

structure Options where
  files : List String := []
  project : Option String := none
  source : Option String := none
  format : Option Format := none
  noPretty : Bool := false
  noStdlib : Bool := false
  init : Bool := false

inductive ArgumentError where
  | unexpected (arg : String)
  | unexpectedValue (value label : String)
  | missingValue (label : String)
  | invalidValue (value label : String)
  | repeated (label : String)
  deriving DecidableEq

def ArgumentError.message : ArgumentError → String
  | .unexpected arg => "unexpected argument '" ++ arg ++ "' found"
  | .unexpectedValue value label =>
    "unexpected value '" ++ value ++ "' for '" ++ label ++ "' found; no more were expected"
  | .missingValue label => "a value is required for '" ++ label ++ "' but none was supplied"
  | .invalidValue value label => "invalid value '" ++ value ++ "' for '" ++ label ++ "'"
  | .repeated label => "the argument '" ++ label ++ "' cannot be used multiple times"

inductive Request where
  | help
  | version
  | run (options : Options)

inductive Pending where
  | nothing
  | setting (s : Setting) (value : Option String)
  | files (values : List String)

structure Parsing where
  options : Options := {}
  pending : Pending := .nothing
  filesOnly : Bool := false

def Options.has (o : Options) : Setting → Bool
  | .project => o.project.isSome
  | .source => o.source.isSome
  | .format => o.format.isSome

def Options.assign (o : Options) (s : Setting) (value : String) : Except ArgumentError Options :=
  if o.has s then .error (.repeated s.label)
  else if value = "" then .error (.missingValue s.label)
  else match s with
  | .project => .ok { o with project := some value }
  | .source => .ok { o with source := some value }
  | .format =>
    match Format.ofName? value with
    | some f => .ok { o with format := some f }
    | none => .error (.invalidValue value s.label)

def Options.raise (o : Options) (f : Flag) : Except ArgumentError Options :=
  match f with
  | .noPretty => if o.noPretty then .error (.repeated f.label) else .ok { o with noPretty := true }
  | .noStdlib => if o.noStdlib then .error (.repeated f.label) else .ok { o with noStdlib := true }
  | .init => if o.init then .error (.repeated f.label) else .ok { o with init := true }
  | .help | .version => .ok o

def Options.addFiles (o : Options) (values : List String) : Except ArgumentError Options :=
  if values.contains "" then .error (.missingValue filesLabel)
  else .ok { o with files := o.files ++ values }

namespace Parsing

def settle (p : Parsing) : Except ArgumentError Parsing := do
  let options ← match p.pending with
    | .nothing => .ok p.options
    | .setting s none => .error (.missingValue s.label)
    | .setting s (some value) => p.options.assign s value
    | .files values => p.options.addFiles values
  return { p with options, pending := .nothing }

def addFile (p : Parsing) (value : String) : Except ArgumentError Parsing :=
  match p.pending with
  | .files values => .ok { p with pending := .files (values ++ [value]) }
  | _ => do return { ← p.settle with pending := .files [value] }

/-- An option, with the value that is attached to it if any. -/
def setting (p : Parsing) (s : Setting) (attached : Option String) :
    Except ArgumentError Parsing := do
  let p ← p.settle
  match attached with
  | some value => return { p with options := ← p.options.assign s value }
  | none => return { p with pending := .setting s none }

/-- An argument that is no option: the value of the option before it, or else a file. -/
def plain (p : Parsing) (arg : String) : Except ArgumentError Parsing :=
  match p.pending with
  | .setting s none => .ok { p with pending := .setting s (some arg) }
  | _ => p.addFile arg

end Parsing

def longSetting? (name : String) : Option Setting :=
  if name = "project" then some .project
  else if name = "source" then some .source
  else if name = "format" then some .format
  else none

def longFlag? (name : String) : Option Flag :=
  if name = "no-pretty" then some .noPretty
  else if name = "no-stdlib" then some .noStdlib
  else if name = "init" then some .init
  else if name = "help" then some .help
  else if name = "version" then some .version
  else none

def splitLong (cs : List Char) : String × Option String :=
  let name := String.ofList (cs.takeWhile (· ≠ '='))
  match cs.dropWhile (· ≠ '=') with
  | _ :: value => (name, some (String.ofList value))
  | [] => (name, none)

def shortValue : List Char → Option String
  | [] => none
  | '=' :: value => some (String.ofList value)
  | value => some (String.ofList value)

inductive Argument where
  | separator
  | setting (s : Setting) (value : Option String)
  | flag (f : Flag)
  | plain
  | refused (e : ArgumentError)

def longArgument (cs : List Char) : Argument :=
  let (name, value) := splitLong cs
  match longSetting? name, longFlag? name, value with
  | some s, _, _ => .setting s value
  | none, some f, none => .flag f
  | none, some f, some v => .refused (.unexpectedValue v f.label)
  | none, none, _ => .refused (.unexpected ("--" ++ name))

def shortArgument (c : Char) (rest : List Char) : Argument :=
  if c = 'p' then .setting .project (shortValue rest)
  else if c = 'h' then .flag .help
  else if c = 'V' then .flag .version
  else .refused (.unexpected (String.ofList ['-', c]))

def classify (arg : String) : Argument :=
  match arg.toList with
  | ['-', '-'] => .separator
  | '-' :: '-' :: cs => longArgument cs
  | '-' :: c :: rest => shortArgument c rest
  | _ => .plain

def parseFrom : List String → Parsing → Except ArgumentError Request
  | [], p => do return .run (← p.settle).options
  | arg :: rest, p =>
    if p.filesOnly then do parseFrom rest (← p.addFile arg)
    else match classify arg with
    | .separator => parseFrom rest { p with filesOnly := true }
    | .setting s value => do parseFrom rest (← p.setting s value)
    | .flag .help => do
      let _ ← p.settle
      return .help
    | .flag .version => do
      let _ ← p.settle
      return .version
    | .flag f => do
      let p ← p.settle
      parseFrom rest { p with options := ← p.options.raise f }
    | .plain => do parseFrom rest (← p.plain arg)
    | .refused e => .error e

def parse (args : List String) : Except ArgumentError Request := parseFrom args {}

end ScriptCheck.Command
