import ScriptCheck.Scope.Bindings

/-! Lexical scopes. All scopes opened while checking stand in one table in the order of their
opening and refer to the scope around them by its place; the first is the root, which is the scope
of the program itself. Around the root lie the globals, which are only read. -/
namespace ScriptCheck

abbrev ScopeId := Nat

structure Scope where
  vars : Bindings := []
  types : Bindings := []
  parent : Option ScopeId := none

namespace Scope

def setVariable (s : Scope) (name : String) (t : Ty) : Scope :=
  { s with vars := s.vars.set name t }

def setType (s : Scope) (name : String) (t : Ty) : Scope :=
  { s with types := s.types.set name t }

end Scope

structure ScopeTree where
  globals : Scope
  scopes : Array Scope

namespace ScopeTree

def new (globals : Scope) : ScopeTree := ⟨globals, #[{}]⟩

def root : ScopeId := 0

def size (t : ScopeTree) : Nat := t.scopes.size

def openChild (t : ScopeTree) (parent : ScopeId) : ScopeId × ScopeTree :=
  (t.size, { t with scopes := t.scopes.push { parent := some parent } })

/-- The scope and those around it, innermost first. A parent stands before its children, so a
chain from place `s` has at most `s + 1` scopes. -/
def chainWithin (t : ScopeTree) : Nat → ScopeId → List Scope
  | 0, _ => []
  | bound + 1, s =>
    match t.scopes[s]? with
    | none => []
    | some scope =>
      match scope.parent with
      | none => [scope]
      | some parent => scope :: chainWithin t bound parent

def chain (t : ScopeTree) (s : ScopeId) : List Scope := t.chainWithin (s + 1) s

/-- The variable as seen from a scope: the innermost binding, the globals last. -/
def getVariable (t : ScopeTree) (s : ScopeId) (name : String) : Option Ty :=
  (t.chain s ++ [t.globals]).findSome? fun scope => scope.vars.get? name

def getType (t : ScopeTree) (s : ScopeId) (name : String) : Option Ty :=
  (t.chain s ++ [t.globals]).findSome? fun scope => scope.types.get? name

def scope (t : ScopeTree) (s : ScopeId) : Scope := t.scopes[s]?.getD {}

def setVariable (t : ScopeTree) (s : ScopeId) (name : String) (u : Ty) : ScopeTree :=
  { t with scopes := t.scopes.modify s (·.setVariable name u) }

def setType (t : ScopeTree) (s : ScopeId) (name : String) (u : Ty) : ScopeTree :=
  { t with scopes := t.scopes.modify s (·.setType name u) }

end ScopeTree
end ScriptCheck
