import ScriptCheck.Diagnostic.Basic
import ScriptCheck.Inference
import ScriptCheck.Standard

/-! Checking programs. The checker visits every statement and expression once, in source order, and
collects what it finds; it never stops at a problem. -/
namespace ScriptCheck

structure Checker where
  scopes : ScopeTree
  diagnostics : List Diagnostic

namespace Checker

def new (globals : Scope) : Checker := ⟨ScopeTree.new globals, []⟩

def report (c : Checker) (problem : Problem) (location : Span) : Checker :=
  { c with diagnostics := c.diagnostics ++ [⟨problem, location⟩] }

def compare (c : Checker) (expected actual : Ty) (location : Span) : Checker :=
  { c with
    diagnostics := c.diagnostics ++
      (Ty.mismatches expected actual).map fun m => ⟨.mismatch m, location⟩ }

def infer (c : Checker) (n : Node) (s : ScopeId) : Ty × Checker :=
  let (u, scopes) := ScriptCheck.infer n s c.scopes
  (u, { c with scopes })

def inferAll (c : Checker) (ns : List Node) (s : ScopeId) : List Ty × Checker :=
  let (us, scopes) := ScriptCheck.inferAll ns s c.scopes
  (us, { c with scopes })

def bind (c : Checker) (s : ScopeId) (name : String) (u : Ty) : Checker :=
  { c with scopes := c.scopes.setVariable s name u }

def openChild (c : Checker) (parent : ScopeId) : ScopeId × Checker :=
  let (s, scopes) := c.scopes.openChild parent
  (s, { c with scopes })

def bindParams (c : Checker) (params : List Param) (s inner : ScopeId) : Checker :=
  let (_, scopes) := inferParams params s inner c.scopes
  { c with scopes }

def compareArgs (c : Checker) : List Ty → List Node → List Ty → Checker
  | expected :: es, arg :: args, actual :: us =>
    (c.compare expected actual arg.span).compareArgs es args us
  | _, _, _ => c

/-- Makes the variables of a finished namespace visible outside under qualified names. -/
def exportFrom (c : Checker) (inner s : ScopeId) (ns : String) : Checker :=
  (c.scopes.scope inner).vars.foldl (fun c (name, u) => c.bind s (ns ++ ":" ++ name) u) c

def checkReturn (c : Checker) (n : Node) (s : ScopeId) (parent : Option Node) : Checker :=
  match parent, n.kind with
  | some (.mk (.function params result body) loc), .ret value =>
    match c.infer (.mk (.function params result body) loc) s with
    | (.function _ expected, c) =>
      let (actual, c) := c.infer value s
      c.compare expected actual (value.loc.getD n.span)
    | (_, c) => c
  | _, _ => c

mutual
/-- Checks a node in scope `s`. `parent` is the innermost function or loop around it. -/
def checkNode : Node → ScopeId → Option Node → Checker → Checker
  | .mk (.define name declared value _) loc, s, parent, c =>
    let (actual, c) := c.infer value s
    let c := checkNode value s parent c
    match declared with
    | some d =>
      let (expected, c) := c.infer d s
      (c.compare expected actual (loc.getD Span.none)).bind s name expected
    | none => c.bind s name actual
  | .mk (.assign dest value) _, s, parent, c =>
    let (expected, c) := c.infer dest s
    let (actual, c) := c.infer value s
    let c := checkNode value s parent c
    c.compare expected actual dest.span
  | .mk (.adjust _ dest value) _, s, parent, c =>
    let (changed, c) := c.infer dest s
    let (amount, c) := c.infer value s
    let c := checkNode value s parent c
    (c.compare changed .num dest.span).compare amount .num value.span
  | .mk (.call target args) loc, s, parent, c =>
    let (callee, c) := c.infer target s
    let c := checkNode target s parent c
    match callee with
    | .function params _ =>
      let c := match params with
        | .tuple ps =>
          if ps.length = args.length then c
          else c.report (.argumentCount ps.length args.length) (loc.getD Span.none)
        | _ => c
      let (actual, c) := c.inferAll args s
      let c := checkEach args s parent c
      match params with
      | .tuple ps => c.compareArgs ps args actual
      | _ => c.compare params (.tuple actual) (loc.getD Span.none)
    | _ =>
      let c := if callee.isAny then c else c.report (.notCallable callee) target.span
      checkEach args s parent c
  | .mk (.forLoop var low high times body) _, s, parent, c =>
    let c := checkMaybe low s parent c
    let c := checkMaybe high s parent c
    let c := checkMaybe times s parent c
    let (inner, c) := c.openChild s
    let c := match var with
      | some name => c.bind inner name .num
      | none => c
    checkNode body inner parent c
  | .mk (.eachLoop var items body) _, s, parent, c =>
    let c := checkNode items s parent c
    let (inner, c) := c.openChild s
    checkNode body inner parent (c.bind inner var .any)
  | .mk (.loop body) loc, s, _, c =>
    let (inner, c) := c.openChild s
    checkBlock body inner (some (.mk (.loop body) loc)) c
  | .mk (.block body) _, s, parent, c =>
    let (inner, c) := c.openChild s
    checkBlock body inner parent c
  | .mk (.ifElse cond yes elseifs no) _, s, parent, c =>
    let (inner, c) := c.openChild s
    let c := checkNode cond inner parent c
    let (inner, c) := c.openChild s
    let c := checkNode yes inner parent c
    let c := checkApart elseifs s parent c
    match no with
    | some n =>
      let (inner, c) := c.openChild s
      checkNode n inner parent c
    | none => c
  | .mk (.ns name members) _, s, parent, c =>
    let (inner, c) := c.openChild s
    (checkBlock members inner parent c).exportFrom inner s name
  | .mk (.function params result body) loc, s, _, c =>
    let (inner, c) := c.openChild s
    let c := c.bindParams params s inner
    checkBlock body inner (some (.mk (.function params result body) loc)) c
  | .mk (.ret value) _, s, parent, c => checkNode value s parent c
  | .mk (.arr items) _, s, parent, c => checkEach items s parent c
  | .mk (.obj entries) _, s, parent, c => checkEntries entries s parent c
  | .mk (.not operand) _, s, parent, c => checkNode operand s parent c
  | .mk (.logic _ left right) _, s, parent, c =>
    checkNode right s parent (checkNode left s parent c)
  | .mk (.template parts) _, s, parent, c => checkParts parts s parent c
  | .mk (.index target index) _, s, parent, c =>
    checkNode index s parent (checkNode target s parent c)
  | .mk (.prop target _) _, s, parent, c => checkNode target s parent c
  | .mk (.select about arms default) _, s, parent, c =>
    let c := checkNode about s parent c
    let c := checkBranches arms s parent c
    checkMaybe default s parent c
  | .mk .brk _, _, _, c | .mk .cont _, _, _, c | .mk (.str _) _, _, _, c
  | .mk (.num _) _, _, _, c | .mk (.bool _) _, _, _, c | .mk .null _, _, _, c
  | .mk (.ident _) _, _, _, c | .mk (.namedType ..) _, _, _, c | .mk (.fnType ..) _, _, _, c
  | .mk .other _, _, _, c => c
termination_by structural n => n

/-- Statements in order; each `return` among them is also held against the function around it. -/
def checkBlock : List Node → ScopeId → Option Node → Checker → Checker
  | [], _, _, c => c
  | n :: rest, s, parent, c =>
    checkBlock rest s parent ((checkNode n s parent c).checkReturn n s parent)
termination_by structural n => n

def checkEach : List Node → ScopeId → Option Node → Checker → Checker
  | [], _, _, c => c
  | n :: rest, s, parent, c => checkEach rest s parent (checkNode n s parent c)
termination_by structural n => n

def checkMaybe : Option Node → ScopeId → Option Node → Checker → Checker
  | none, _, _, c => c
  | some n, s, parent, c => checkNode n s parent c
termination_by structural n => n

def checkBranches : List Branch → ScopeId → Option Node → Checker → Checker
  | [], _, _, c => c
  | .mk test body :: rest, s, parent, c =>
    let c := checkNode test s parent c
    let c := checkNode body s parent c
    checkBranches rest s parent c
termination_by structural n => n

/-- Tests and bodies each in a scope of their own, so that nothing leaks between them. -/
def checkApart : List Branch → ScopeId → Option Node → Checker → Checker
  | [], _, _, c => c
  | .mk test body :: rest, s, parent, c =>
    let (inner, c) := c.openChild s
    let c := checkNode test inner parent c
    let (inner, c) := c.openChild s
    let c := checkNode body inner parent c
    checkApart rest s parent c
termination_by structural n => n

def checkParts : List Part → ScopeId → Option Node → Checker → Checker
  | [], _, _, c => c
  | .text _ :: rest, s, parent, c => checkParts rest s parent c
  | .expr e :: rest, s, parent, c => checkParts rest s parent (checkNode e s parent c)
termination_by structural n => n

def checkEntries : List Entry → ScopeId → Option Node → Checker → Checker
  | [], _, _, c => c
  | .mk _ value :: rest, s, parent, c => checkEntries rest s parent (checkNode value s parent c)
termination_by structural n => n
end

def take (c : Checker) : List Diagnostic × Checker := (c.diagnostics, { c with diagnostics := [] })

/-- Checks a program in the root scope and takes the diagnostics, with any left from before. -/
def checkProgram (c : Checker) (p : Program) : List Diagnostic × Checker :=
  (checkBlock p ScopeTree.root none c).take

end Checker

def Program.check (p : Program) (globals : Scope) : List Diagnostic :=
  ((Checker.new globals).checkProgram p).1

structure Rejection where
  diagnostics : List Diagnostic

def Rejection.message (r : Rejection) : String :=
  "type check failed with " ++ toString r.diagnostics.length ++ " error(s)"

def Program.admit (p : Program) : Except Rejection Program :=
  let diagnostics := p.check Standard.scope
  if diagnostics.isEmpty then .ok p else .error ⟨diagnostics⟩

end ScriptCheck
