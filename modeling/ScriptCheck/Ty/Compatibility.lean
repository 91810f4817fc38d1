import ScriptCheck.Ty.Text

/-! Whether a value of one type can be used where another is expected, and every reason why not.
Reasons are collected, so one comparison can report a wrong count and a wrong element together. -/
namespace ScriptCheck

inductive Mismatch where
  | moreMembers (actual expected : Ty)
  | notContained (member union : Ty)
  | elementCount (expected actual : Nat)
  | notAssignable (actual expected : Ty)
  deriving DecidableEq

def Mismatch.message : Mismatch → String
  | .moreMembers actual expected =>
    "Union '" ++ actual.text ++ "' has more members than '" ++ expected.text ++ "'"
  | .notContained member union =>
    "Type '" ++ member.text ++ "' is not contained in '" ++ union.text ++ "'"
  | .elementCount expected actual =>
    "Expected " ++ toString expected ++ " elements but got " ++ toString actual
  | .notAssignable actual expected =>
    "Type '" ++ actual.text ++ "' is not assignable to type '" ++ expected.text ++ "'"

namespace Ty

mutual
/-- Every reason why `actual` cannot stand where `expected` is required; none means it can.
Unions are counted before their members are looked up. -/
def mismatches (expected actual : Ty) : List Mismatch :=
  if expected.isAny || actual.isAny then []
  else match expected, actual with
    | .function params result, .function params' result' =>
      mismatches result result' ++ mismatches params params'
    | .union members, .union members' =>
      if members.length < members'.length then [.moreMembers actual expected]
      else (members'.filter fun m => !anyAccepts members m).map (.notContained · expected)
    | .union members, _ => if anyAccepts members actual then [] else [.notContained actual expected]
    | .tuple items, .tuple items' =>
      (if items.length = items'.length then [] else [.elementCount items.length items'.length]) ++
        pairwise items items'
    | .name n, .name n' => if n = n' then [] else [.notAssignable actual expected]
    | _, _ => [.notAssignable actual expected]

def anyAccepts : List Ty → Ty → Bool
  | [], _ => false
  | m :: members, t => (mismatches m t).isEmpty || anyAccepts members t

/-- Reasons position by position, as far as both lists go. -/
def pairwise : List Ty → List Ty → List Mismatch
  | t :: ts, u :: us => mismatches t u ++ pairwise ts us
  | _, _ => []
end

def accepts (expected actual : Ty) : Bool := (mismatches expected actual).isEmpty

end Ty
end ScriptCheck
