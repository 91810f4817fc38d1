import ScriptCheck.Ty.Basic

/-! Names bound to types, in the order in which the names were first bound. -/
namespace ScriptCheck

abbrev Bindings := List (String × Ty)

namespace Bindings

def get? (name : String) : Bindings → Option Ty
  | [] => none
  | (n, t) :: rest => if n = name then some t else get? name rest

/-- A name that is bound already keeps its place; a new one goes to the end. -/
def set (name : String) (t : Ty) : Bindings → Bindings
  | [] => [(name, t)]
  | (n, u) :: rest => if n = name then (n, t) :: rest else (n, u) :: set name t rest

def names (b : Bindings) : List String := b.map Prod.fst

end Bindings
end ScriptCheck
