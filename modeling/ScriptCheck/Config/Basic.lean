import ScriptCheck.Standard
import ScriptCheck.Ty.Reader

/-! The configuration of a project: how programs are checked and reported, what the host provides to
them, and which files hold them. -/
namespace ScriptCheck

inductive Format where
  | text
  | json
  deriving DecidableEq

def Format.name : Format → String
  | .text => "text"
  | .json => "json"

def Format.ofName? (name : String) : Option Format :=
  if name = "text" then some .text else if name = "json" then some .json else none

structure Config where
  stdlib : Bool := true
  pretty : Bool := true
  format : Format := .text
  /-- Variables that the host provides, with their types as expressions. -/
  globals : List (String × String) := []
  types : List (String × String) := []
  included : List String := ["**/*.is.json"]
  excluded : List String := []

structure Overrides where
  stdlib : Option Bool := none
  pretty : Option Bool := none
  format : Option Format := none

structure TypeEntryError where
  name : String
  text : String
  cause : Ty.SyntaxError

def TypeEntryError.message (e : TypeEntryError) : String :=
  "Invalid type expression '" ++ e.text ++ "' for '" ++ e.name ++ "': " ++ e.cause.message

namespace Config

def override (c : Config) (o : Overrides) : Config :=
  { c with
    stdlib := o.stdlib.getD c.stdlib
    pretty := o.pretty.getD c.pretty
    format := o.format.getD c.format }

def readEntry (name text : String) : Except TypeEntryError Ty :=
  (Ty.parse text).mapError fun cause => ⟨name, text, cause⟩

/-- Binds every entry in turn, up to the first that is no type. -/
def bindEntries (bind : Scope → String → Ty → Scope) :
    List (String × String) → Scope → Except TypeEntryError Scope
  | [], s => .ok s
  | (name, text) :: rest, s => do
    let t ← readEntry name text
    bindEntries bind rest (bind s name t)

def rootScope (c : Config) : Except TypeEntryError Scope := do
  let base := if c.stdlib then Standard.scope else {}
  let withTypes ← bindEntries Scope.setType c.types base
  bindEntries Scope.setVariable c.globals withTypes

end Config
end ScriptCheck
