/-! Structural types. Two types are compared purely by shape and by the names at their leaves. -/
namespace ScriptCheck

inductive Ty where
  | name (text : String)
  | tuple (items : List Ty)
  | union (members : List Ty)
  | function (params result : Ty)

namespace Ty

def num : Ty := .name "num"
def str : Ty := .name "str"
def bool : Ty := .name "bool"
def arr : Ty := .name "arr"
def obj : Ty := .name "obj"
def null : Ty := .name "null"

/-- The type about which nothing is known. It is compatible with every type, both ways. -/
def any : Ty := .name "any"

def builtin : List String := ["num", "str", "bool", "arr", "obj", "null", "any"]

def signature (params : List Ty) (result : Ty) : Ty := .function (.tuple params) result

def variadic (result : Ty) : Ty := .function any result

def isAny : Ty → Bool
  | .name n => n == "any"
  | _ => false

def isFunction : Ty → Bool
  | .function .. => true
  | _ => false

mutual
def decEq : (s t : Ty) → Decidable (s = t)
  | .name a, .name b => decidable_of_iff (a = b) (by simp)
  | .tuple as, .tuple bs =>
    match decEqList as bs with
    | isTrue h => isTrue (by rw [h])
    | isFalse h => isFalse (by simpa using h)
  | .union as, .union bs =>
    match decEqList as bs with
    | isTrue h => isTrue (by rw [h])
    | isFalse h => isFalse (by simpa using h)
  | .function p r, .function q s =>
    match decEq p q, decEq r s with
    | isTrue h, isTrue k => isTrue (by rw [h, k])
    | isFalse h, _ => isFalse (by simp [h])
    | _, isFalse k => isFalse (by simp [k])
  | .name _, .tuple _ | .name _, .union _ | .name _, .function .. => isFalse (by simp)
  | .tuple _, .name _ | .tuple _, .union _ | .tuple _, .function .. => isFalse (by simp)
  | .union _, .name _ | .union _, .tuple _ | .union _, .function .. => isFalse (by simp)
  | .function .., .name _ | .function .., .tuple _ | .function .., .union _ => isFalse (by simp)

def decEqList : (ss ts : List Ty) → Decidable (ss = ts)
  | [], [] => isTrue rfl
  | s :: ss, t :: ts =>
    match decEq s t, decEqList ss ts with
    | isTrue h, isTrue k => isTrue (by rw [h, k])
    | isFalse h, _ => isFalse (by simp [h])
    | _, isFalse k => isFalse (by simp [k])
  | [], _ :: _ | _ :: _, [] => isFalse (by simp)
end

instance : DecidableEq Ty := decEq

end Ty
end ScriptCheck
