import ScriptCheck.Checker
import ScriptCheck.Proofs.Nodes

/-! A checker without a table of scopes. What a name stands for is a function, the names of a region
are an ordered map that is laid over the function from around it, and both are plain values: the map
of a region is forgotten when the region ends. Types are read off a node and the two lookups. -/
namespace ScriptCheck

/-- What variables and type aliases stand for, as seen from some place. -/
structure Lookups where
  var : String → Option Ty
  type : String → Option Ty

namespace Lookups

def extend (v : Lookups) (locals : Bindings) : Lookups :=
  { v with var := fun x => (locals.get? x).or (v.var x) }

def ofGlobals (globals : Scope) : Lookups :=
  ⟨fun x => globals.vars.get? x, fun x => globals.types.get? x⟩

end Lookups

def bindAll : List Param → List Ty → Bindings → Bindings
  | p :: ps, u :: us, b => bindAll ps us (b.set p.name u)
  | _, _, b => b

mutual
def typeOf : Node → Lookups → Ty
  | .mk (.str _) _, _ => .str
  | .mk (.num _) _, _ => .num
  | .mk (.bool _) _, _ => .bool
  | .mk .null _, _ => .null
  | .mk (.arr _) _, _ => .arr
  | .mk (.obj _) _, _ => .obj
  | .mk (.ident name) _, v => (v.var name).getD .any
  | .mk (.namedType name _) _, v => (v.type name).getD .any
  | .mk (.fnType params result) _, v => .signature (typeOfAll params v) (typeOf result v)
  | .mk (.function params result body) _, v =>
    let us := typeOfParams params v
    .signature us <|
      match result with
      | some declared => typeOf declared v
      | none => (typeOfReturn body (v.extend (bindAll params us []))).getD .any
  | .mk (.call target _) _, v =>
    match typeOf target v with
    | .function _ r => r
    | _ => .any
  | _, _ => .any
termination_by structural n => n

def typeOfAll : List Node → Lookups → List Ty
  | [], _ => []
  | n :: rest, v => typeOf n v :: typeOfAll rest v
termination_by structural ns => ns

def typeOfMaybe : Option Node → Lookups → Ty
  | some n, v => typeOf n v
  | none, _ => .any
termination_by structural o => o

def typeOfParams : List Param → Lookups → List Ty
  | [], _ => []
  | .mk _ declared :: rest, v => typeOfMaybe declared v :: typeOfParams rest v
termination_by structural ps => ps

def typeOfReturn : List Node → Lookups → Option Ty
  | [], _ => none
  | n :: rest, v => (typeOfReturnIn n v).or (typeOfReturn rest v)
termination_by structural ns => ns

def typeOfReturnIn : Node → Lookups → Option Ty
  | .mk (.ret value) _, v => some (typeOf value v)
  | .mk (.block body) _, v => typeOfReturn body v
  | .mk (.loop body) _, v => typeOfReturn body v
  | .mk (.forLoop _ _ _ _ body) _, v => typeOfReturnIn body v
  | .mk (.eachLoop _ _ body) _, v => typeOfReturnIn body v
  | .mk (.ifElse _ yes elseifs no) _, v =>
    (typeOfReturnIn yes v).or ((typeOfReturnBranches elseifs v).or (typeOfReturnMaybe no v))
  | .mk (.select _ arms default) _, v =>
    (typeOfReturnBranches arms v).or (typeOfReturnMaybe default v)
  | _, _ => none
termination_by structural n => n

def typeOfReturnMaybe : Option Node → Lookups → Option Ty
  | none, _ => none
  | some n, v => typeOfReturnIn n v
termination_by structural o => o

def typeOfReturnBranches : List Branch → Lookups → Option Ty
  | [], _ => none
  | .mk _ body :: rest, v => (typeOfReturnIn body v).or (typeOfReturnBranches rest v)
termination_by structural bs => bs
end

def resultType (params : List Param) (result : Option Node) (body : List Node) (v : Lookups) : Ty :=
  match result with
  | some declared => typeOf declared v
  | none => (typeOfReturn body (v.extend (bindAll params (typeOfParams params v) []))).getD .any

theorem typeOf_function (params : List Param) (result : Option Node) (body : List Node)
    (loc : Option Span) (v : Lookups) :
    typeOf (.mk (.function params result body) loc) v =
      .function (.tuple (typeOfParams params v)) (resultType params result body v) := by
  cases result <;> rfl

/-- What is left of checking something: the names of the region it stands in, and what was found. -/
structure Outcome where
  locals : Bindings
  found : List Diagnostic

namespace Outcome

def andThen (o : Outcome) (next : Bindings → Outcome) : Outcome :=
  ⟨(next o.locals).locals, o.found ++ (next o.locals).found⟩

def also (o : Outcome) (more : List Diagnostic) : Outcome := { o with found := o.found ++ more }

/-- Leaves a region: its names are forgotten and those around it are as before. -/
def leave (o : Outcome) (locals : Bindings) : Outcome := { o with locals }

end Outcome

def misfits (expected actual : Ty) (location : Span) : List Diagnostic :=
  (Ty.mismatches expected actual).map fun m => ⟨.mismatch m, location⟩

def calleeProblems (callee : Ty) (args : Nat) (target place : Span) : List Diagnostic :=
  match callee with
  | .function (.tuple ps) _ =>
    if ps.length = args then [] else [⟨.argumentCount ps.length args, place⟩]
  | .function _ _ => []
  | _ => if callee.isAny then [] else [⟨.notCallable callee, target⟩]

def positionProblems : List Ty → List Node → List Ty → List Diagnostic
  | expected :: es, arg :: args, actual :: us =>
    misfits expected actual arg.span ++ positionProblems es args us
  | _, _, _ => []

def argumentProblems (callee : Ty) (args : List Node) (actual : List Ty) (place : Span) :
    List Diagnostic :=
  match callee with
  | .function (.tuple ps) _ => positionProblems ps args actual
  | .function params _ => misfits params (.tuple actual) place
  | _ => []

def returnProblems (n : Node) (v : Lookups) (parent : Option Node) : List Diagnostic :=
  match parent, n.kind with
  | some (.mk (.function params result body) loc), .ret value =>
    match typeOf (.mk (.function params result body) loc) v with
    | .function _ expected => misfits expected (typeOf value v) (value.loc.getD n.span)
    | _ => []
  | _, _ => []

def qualify (ns name : String) : String := ns ++ ":" ++ name

def exported (ns : String) (inner b : Bindings) : Bindings :=
  inner.foldl (fun b (name, u) => b.set (qualify ns name) u) b

mutual
/-- Checks a node among names `b` of its region, `v` being what names stand for around it. -/
def walk : Node → Lookups → Option Node → Bindings → Outcome
  | .mk (.define name declared value _) loc, v, parent, b =>
    let actual := typeOf value (v.extend b)
    (walk value v parent b).andThen fun b =>
      match declared with
      | some d =>
        let expected := typeOf d (v.extend b)
        ⟨b.set name expected, misfits expected actual (loc.getD Span.none)⟩
      | none => ⟨b.set name actual, []⟩
  | .mk (.assign dest value) _, v, parent, b =>
    (walk value v parent b).also
      (misfits (typeOf dest (v.extend b)) (typeOf value (v.extend b)) dest.span)
  | .mk (.adjust _ dest value) _, v, parent, b =>
    (walk value v parent b).also
      (misfits (typeOf dest (v.extend b)) .num dest.span ++
        misfits (typeOf value (v.extend b)) .num value.span)
  | .mk (.call target args) loc, v, parent, b =>
    let callee := typeOf target (v.extend b)
    let place := loc.getD Span.none
    ((walk target v parent b).also
        (calleeProblems callee args.length target.span place)).andThen fun b =>
      (walkEach args v parent b).also
        (argumentProblems callee args (typeOfAll args (v.extend b)) place)
  | .mk (.forLoop var low high times body) _, v, parent, b =>
    (walkMaybe low v parent b).andThen fun b =>
    (walkMaybe high v parent b).andThen fun b =>
    (walkMaybe times v parent b).andThen fun b =>
      let own := match var with
        | some name => [(name, Ty.num)]
        | none => []
      (walk body (v.extend b) parent own).leave b
  | .mk (.eachLoop var items body) _, v, parent, b =>
    (walk items v parent b).andThen fun b =>
      (walk body (v.extend b) parent [(var, .any)]).leave b
  -- a loop stands between its statements and the function around, so no `return` in it is held
  -- against that function
  | .mk (.loop body) loc, v, _, b =>
    (walkBlock body (v.extend b) (some (.mk (.loop body) loc)) []).leave b
  | .mk (.block body) _, v, parent, b => (walkBlock body (v.extend b) parent []).leave b
  | .mk (.ifElse cond yes elseifs no) _, v, parent, b =>
    ((walk cond (v.extend b) parent []).leave b).andThen fun b =>
    ((walk yes (v.extend b) parent []).leave b).andThen fun b =>
    (walkApart elseifs v parent b).andThen fun b =>
      match no with
      | some n => (walk n (v.extend b) parent []).leave b
      | none => ⟨b, []⟩
  | .mk (.ns name members) _, v, parent, b =>
    let inner := walkBlock members (v.extend b) parent []
    inner.leave (exported name inner.locals b)
  | .mk (.function params result body) loc, v, _, b =>
    let own := bindAll params (typeOfParams params (v.extend b)) []
    (walkBlock body (v.extend b) (some (.mk (.function params result body) loc)) own).leave b
  | .mk (.ret value) _, v, parent, b => walk value v parent b
  | .mk (.arr items) _, v, parent, b => walkEach items v parent b
  | .mk (.obj entries) _, v, parent, b => walkEntries entries v parent b
  | .mk (.not operand) _, v, parent, b => walk operand v parent b
  | .mk (.logic _ left right) _, v, parent, b =>
    (walk left v parent b).andThen fun b => walk right v parent b
  | .mk (.template parts) _, v, parent, b => walkParts parts v parent b
  | .mk (.index target index) _, v, parent, b =>
    (walk target v parent b).andThen fun b => walk index v parent b
  | .mk (.prop target _) _, v, parent, b => walk target v parent b
  | .mk (.select about arms default) _, v, parent, b =>
    (walk about v parent b).andThen fun b =>
    (walkBranches arms v parent b).andThen fun b => walkMaybe default v parent b
  | .mk .brk _, _, _, b | .mk .cont _, _, _, b | .mk (.str _) _, _, _, b
  | .mk (.num _) _, _, _, b | .mk (.bool _) _, _, _, b | .mk .null _, _, _, b
  | .mk (.ident _) _, _, _, b | .mk (.namedType ..) _, _, _, b | .mk (.fnType ..) _, _, _, b
  | .mk .other _, _, _, b => ⟨b, []⟩
termination_by structural n => n

/-- Statements in order; each `return` among them is also held against the function around it. -/
def walkBlock : List Node → Lookups → Option Node → Bindings → Outcome
  | [], _, _, b => ⟨b, []⟩
  | n :: rest, v, parent, b =>
    (walk n v parent b).andThen fun b =>
      Outcome.andThen ⟨b, returnProblems n (v.extend b) parent⟩ fun b => walkBlock rest v parent b
termination_by structural ns => ns

def walkEach : List Node → Lookups → Option Node → Bindings → Outcome
  | [], _, _, b => ⟨b, []⟩
  | n :: rest, v, parent, b => (walk n v parent b).andThen fun b => walkEach rest v parent b
termination_by structural ns => ns

def walkMaybe : Option Node → Lookups → Option Node → Bindings → Outcome
  | none, _, _, b => ⟨b, []⟩
  | some n, v, parent, b => walk n v parent b
termination_by structural o => o

def walkBranches : List Branch → Lookups → Option Node → Bindings → Outcome
  | [], _, _, b => ⟨b, []⟩
  | .mk test body :: rest, v, parent, b =>
    (walk test v parent b).andThen fun b =>
    (walk body v parent b).andThen fun b => walkBranches rest v parent b
termination_by structural bs => bs

def walkApart : List Branch → Lookups → Option Node → Bindings → Outcome
  | [], _, _, b => ⟨b, []⟩
  | .mk test body :: rest, v, parent, b =>
    ((walk test (v.extend b) parent []).leave b).andThen fun b =>
    ((walk body (v.extend b) parent []).leave b).andThen fun b => walkApart rest v parent b
termination_by structural bs => bs

def walkParts : List Part → Lookups → Option Node → Bindings → Outcome
  | [], _, _, b => ⟨b, []⟩
  | .text _ :: rest, v, parent, b => walkParts rest v parent b
  | .expr e :: rest, v, parent, b =>
    (walk e v parent b).andThen fun b => walkParts rest v parent b
termination_by structural ps => ps

def walkEntries : List Entry → Lookups → Option Node → Bindings → Outcome
  | [], _, _, b => ⟨b, []⟩
  | .mk _ value :: rest, v, parent, b =>
    (walk value v parent b).andThen fun b => walkEntries rest v parent b
termination_by structural es => es
end

def Program.walk (p : Program) (globals : Scope) : Outcome :=
  walkBlock p (Lookups.ofGlobals globals) none []

end ScriptCheck
