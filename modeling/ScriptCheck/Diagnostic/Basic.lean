import ScriptCheck.Source.Span
import ScriptCheck.Ty.Compatibility

/-! Diagnostics: what the checker finds wrong in a program, and where. -/
namespace ScriptCheck

inductive Problem where
  | mismatch (m : Mismatch)
  | notCallable (t : Ty)
  | argumentCount (expected actual : Nat)
  deriving DecidableEq

def Problem.message : Problem → String
  | .mismatch m => m.message
  | .notCallable t => "Type '" ++ t.text ++ "' is not callable"
  | .argumentCount expected actual =>
    "Expected " ++ toString expected ++ " arguments but got " ++ toString actual

structure Diagnostic where
  problem : Problem
  location : Span
  deriving DecidableEq

namespace Diagnostic

def message (d : Diagnostic) : String := d.problem.message

/-- A message with its place as bare offsets, for when the source is not at hand. -/
def located (message : String) (location : Span) : String :=
  message ++ " start: " ++ toString location.start.toNat ++ " end: " ++
    toString location.stop.toNat

def text (d : Diagnostic) : String := located d.message d.location

end Diagnostic
end ScriptCheck
