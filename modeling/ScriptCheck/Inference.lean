import ScriptCheck.Scope.Basic
import ScriptCheck.Tree.Node

/-! Types of expressions. What has no rule, and any name that is not bound, has type `any`. A
function literal is inferred in a scope of its own, which stays in the tree; no other scope is
touched. -/
namespace ScriptCheck

abbrev Inferred := Ty × ScopeTree

mutual
/-- The type of an expression, or what a type expression stands for, as seen from scope `s`. -/
def infer : Node → ScopeId → ScopeTree → Inferred
  | .mk (.str _) _, _, t => (.str, t)
  | .mk (.num _) _, _, t => (.num, t)
  | .mk (.bool _) _, _, t => (.bool, t)
  | .mk .null _, _, t => (.null, t)
  | .mk (.arr _) _, _, t => (.arr, t)
  | .mk (.obj _) _, _, t => (.obj, t)
  | .mk (.ident name) _, s, t => ((t.getVariable s name).getD .any, t)
  | .mk (.namedType name _) _, s, t => ((t.getType s name).getD .any, t)
  | .mk (.fnType params result) _, s, t =>
    let (ps, t) := inferAll params s t
    let (r, t) := infer result s t
    (.signature ps r, t)
  | .mk (.function params result body) _, s, t =>
    let (inner, t) := t.openChild s
    let (ps, t) := inferParams params s inner t
    let (r, t) := match result with
      | some declared => infer declared s t
      | none => (inferReturn body inner t).getD (.any, t)
    (.signature ps r, t)
  | .mk (.call target _) _, s, t =>
    match infer target s t with
    | (.function _ r, t) => (r, t)
    | (_, t) => (.any, t)
  | _, _, t => (.any, t)

def inferAll : List Node → ScopeId → ScopeTree → List Ty × ScopeTree
  | [], _, t => ([], t)
  | n :: rest, s, t =>
    let (u, t) := infer n s t
    let (us, t) := inferAll rest s t
    (u :: us, t)

def inferParams : List Param → ScopeId → ScopeId → ScopeTree → List Ty × ScopeTree
  | [], _, _, t => ([], t)
  | .mk name declared :: rest, s, inner, t =>
    let (u, t) := match declared with
      | some n => infer n s t
      | none => (.any, t)
    let (us, t) := inferParams rest s inner (t.setVariable inner name u)
    (u :: us, t)

/-- The type of the first `return` among some statements, in source order. Function literals own
their returns and are not entered. -/
def inferReturn : List Node → ScopeId → ScopeTree → Option Inferred
  | [], _, _ => none
  | n :: rest, s, t => inferReturnIn n s t <|> inferReturn rest s t

def inferReturnIn : Node → ScopeId → ScopeTree → Option Inferred
  | .mk (.ret value) _, s, t => some (infer value s t)
  | .mk (.block body) _, s, t => inferReturn body s t
  | .mk (.loop body) _, s, t => inferReturn body s t
  | .mk (.forLoop _ _ _ _ body) _, s, t => inferReturnIn body s t
  | .mk (.eachLoop _ _ body) _, s, t => inferReturnIn body s t
  | .mk (.ifElse _ yes elseifs no) _, s, t =>
    inferReturnIn yes s t <|> inferReturnBranches elseifs s t <|> inferReturnMaybe no s t
  | .mk (.select _ arms default) _, s, t =>
    inferReturnBranches arms s t <|> inferReturnMaybe default s t
  | _, _, _ => none

def inferReturnMaybe : Option Node → ScopeId → ScopeTree → Option Inferred
  | none, _, _ => none
  | some n, s, t => inferReturnIn n s t

def inferReturnBranches : List Branch → ScopeId → ScopeTree → Option Inferred
  | [], _, _ => none
  | .mk _ body :: rest, s, t => inferReturnIn body s t <|> inferReturnBranches rest s t
end

def inferReturnType (body : List Node) (s : ScopeId) (t : ScopeTree) : Inferred :=
  (inferReturn body s t).getD (.any, t)

end ScriptCheck
