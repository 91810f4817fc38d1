import ScriptCheck.Proofs.FirstReturn
import ScriptCheck.Proofs.Rules

/-! Locations are carried from the tree to the diagnostics and decide nothing on the way. Moving
every location of a program by some function moves the locations of what is found in it, and changes
nothing else. As the function is any that leaves the start of the source where it is, no location
can be made up by the checker. -/
namespace ScriptCheck

mutual
/-- The same tree with every place in it changed by `f`; what has no place stays without one. -/
def Node.relocate (f : Span → Span) : Node → Node
  | .mk kind loc => .mk (kind.relocate f) (loc.map f)
termination_by structural n => n

def Kind.relocate (f : Span → Span) : Kind → Kind
  | .define name declared value mutable =>
    .define name (relocateMaybe f declared) (value.relocate f) mutable
  | .assign dest value => .assign (dest.relocate f) (value.relocate f)
  | .adjust how dest value => .adjust how (dest.relocate f) (value.relocate f)
  | .ret value => .ret (value.relocate f)
  | .forLoop var low high times body =>
    .forLoop var (relocateMaybe f low) (relocateMaybe f high) (relocateMaybe f times)
      (body.relocate f)
  | .eachLoop var items body => .eachLoop var (items.relocate f) (body.relocate f)
  | .loop body => .loop (relocateAll f body)
  | .brk => .brk
  | .cont => .cont
  | .ns name members => .ns name (relocateAll f members)
  | .ifElse cond yes elseifs no =>
    .ifElse (cond.relocate f) (yes.relocate f) (relocateBranches f elseifs) (relocateMaybe f no)
  | .function params result body =>
    .function (relocateParams f params) (relocateMaybe f result) (relocateAll f body)
  | .select about arms default =>
    .select (about.relocate f) (relocateBranches f arms) (relocateMaybe f default)
  | .block body => .block (relocateAll f body)
  | .call target args => .call (target.relocate f) (relocateAll f args)
  | .not operand => .not (operand.relocate f)
  | .logic how left right => .logic how (left.relocate f) (right.relocate f)
  | .template parts => .template (relocateParts f parts)
  | .index target key => .index (target.relocate f) (key.relocate f)
  | .prop target name => .prop (target.relocate f) name
  | .str value => .str value
  | .num value => .num value
  | .bool value => .bool value
  | .null => .null
  | .arr items => .arr (relocateAll f items)
  | .obj entries => .obj (relocateEntries f entries)
  | .ident name => .ident name
  | .namedType name inner => .namedType name (relocateMaybe f inner)
  | .fnType params result => .fnType (relocateAll f params) (result.relocate f)
  | .other => .other
termination_by structural k => k

def relocateAll (f : Span → Span) : List Node → List Node
  | [] => []
  | n :: rest => n.relocate f :: relocateAll f rest
termination_by structural ns => ns

def relocateMaybe (f : Span → Span) : Option Node → Option Node
  | none => none
  | some n => some (n.relocate f)
termination_by structural o => o

def relocateBranches (f : Span → Span) : List Branch → List Branch
  | [] => []
  | .mk test body :: rest =>
    .mk (test.relocate f) (body.relocate f) :: relocateBranches f rest
termination_by structural bs => bs

def relocateParams (f : Span → Span) : List Param → List Param
  | [] => []
  | .mk name declared :: rest => .mk name (relocateMaybe f declared) :: relocateParams f rest
termination_by structural ps => ps

def relocateParts (f : Span → Span) : List Part → List Part
  | [] => []
  | .text s :: rest => .text s :: relocateParts f rest
  | .expr e :: rest => .expr (e.relocate f) :: relocateParts f rest
termination_by structural ps => ps

def relocateEntries (f : Span → Span) : List Entry → List Entry
  | [] => []
  | .mk key value :: rest => .mk key (value.relocate f) :: relocateEntries f rest
termination_by structural es => es
end

theorem relocateAll_eq (f : Span → Span) (ns : List Node) :
    relocateAll f ns = ns.map (Node.relocate f) := by
  induction ns with
  | nil => rfl
  | cons n rest ih => rw [relocateAll, ih, List.map_cons]

theorem relocateMaybe_toList (f : Span → Span) (o : Option Node) :
    (relocateMaybe f o).toList = o.toList.map (Node.relocate f) := by
  cases o <;> rfl

theorem relocateBranches_nodes (f : Span → Span) (bs : List Branch) :
    (relocateBranches f bs).flatMap Branch.nodes =
      (bs.flatMap Branch.nodes).map (Node.relocate f) := by
  induction bs with
  | nil => rfl
  | cons b rest ih =>
    obtain ⟨test, body⟩ := b
    simp only [relocateBranches, List.flatMap_cons, Branch.nodes, ih, List.map_append,
      List.map_cons, List.map_nil]

theorem relocateParts_nodes (f : Span → Span) (ps : List Part) :
    (relocateParts f ps).flatMap Part.nodes = (ps.flatMap Part.nodes).map (Node.relocate f) := by
  induction ps with
  | nil => rfl
  | cons p rest ih =>
    cases p <;> simp only [relocateParts, List.flatMap_cons, Part.nodes, ih, List.map_append,
      List.map_cons, List.map_nil]

theorem relocateEntries_values (f : Span → Span) (es : List Entry) :
    (relocateEntries f es).map Entry.value = (es.map Entry.value).map (Node.relocate f) := by
  induction es with
  | nil => rfl
  | cons e rest ih =>
    obtain ⟨key, value⟩ := e
    simp only [relocateEntries, List.map_cons, Entry.value, ih]

theorem Kind.relocate_inline {kind : Kind} {ms : List Node} (passes : kind.inline = some ms)
    (f : Span → Span) : (kind.relocate f).inline = some (ms.map (Node.relocate f)) := by
  cases kind <;> simp only [inline, Option.some.injEq, reduceCtorEq] at passes <;>
    subst passes <;>
    simp only [relocate, inline, relocateAll_eq, relocateMaybe_toList, relocateBranches_nodes,
      relocateParts_nodes, relocateEntries_values, List.map_append, List.map_cons, List.map_nil]

section Inference

variable {f : Span → Span}

def Placeless (f : Span → Span) (n : Node) : Prop :=
  ∀ s t, infer (n.relocate f) s t = infer n s t

theorem inferAll_relocate {ns : List Node} (each : ∀ n ∈ ns, Placeless f n) (s : ScopeId)
    (t : ScopeTree) : inferAll (relocateAll f ns) s t = inferAll ns s t := by
  induction ns generalizing t with
  | nil => rfl
  | cons n rest ih =>
    obtain ⟨head, tail⟩ := List.forall_mem_cons.mp each
    simp only [relocateAll, inferAll, head s t, ih tail]

theorem firstReturn_relocate (f : Span → Span) (ns : List Node) :
    firstReturn (relocateAll f ns) = (firstReturn ns).map (Node.relocate f) := by
  have scan : Scan (Node.relocate f) (fun n => firstReturnIn (n.relocate f))
      (fun ns => firstReturn (relocateAll f ns)) (fun o => firstReturnMaybe (relocateMaybe f o))
      (fun bs => firstReturnBranches (relocateBranches f bs)) :=
    { nil := rfl
      cons := fun _ _ => rfl
      absent := rfl
      present := fun _ => rfl
      empty := rfl
      branch := fun _ _ _ => rfl
      step := fun kind _ => by cases kind <;> rfl }
  exact scan.list_eq ns

theorem inferParams_relocate {params : List Param}
    (each : ∀ n ∈ params.flatMap fun p => p.declared.toList, Placeless f n) (s inner : ScopeId)
    (t : ScopeTree) :
    inferParams (relocateParams f params) s inner t = inferParams params s inner t := by
  induction params generalizing t with
  | nil => rfl
  | cons p rest ih =>
    obtain ⟨name, declared⟩ := p
    simp only [List.flatMap_cons, List.forall_mem_append, Param.declared] at each
    cases declared with
    | none => simp only [relocateParams, relocateMaybe, inferParams, ih each.2]
    | some n =>
      have annotation := each.1 n (by simp)
      simp only [relocateParams, relocateMaybe, inferParams, annotation s t, ih each.2]

theorem infer_function_relocate {params : List Param} {result : Option Node} {body : List Node}
    (each : ∀ n ∈ (Kind.function params result body).parts, Placeless f n)
    (value : ∀ e, firstReturn body = some e → Placeless f e) (loc : Option Span)
    (s : ScopeId) (t : ScopeTree) :
    infer (Node.relocate f (.mk (.function params result body) loc)) s t =
      infer (.mk (.function params result body) loc) s t := by
  simp only [Kind.parts, List.forall_mem_append] at each
  obtain ⟨⟨annotations, returned⟩, -⟩ := each
  have bound := inferParams_relocate annotations s
  cases result with
  | none =>
    simp only [Node.relocate, Kind.relocate, relocateMaybe, infer, bound, inferReturn_eq,
      firstReturn_relocate]
    cases found : firstReturn body with
    | none => rfl
    | some e => simp only [Option.map_some, value e found _ _]
  | some declared =>
    have answer := returned declared (by simp)
    simp only [Node.relocate, Kind.relocate, relocateMaybe, infer, bound, answer _ _]

theorem placeless (f : Span → Span) (n : Node) : Placeless f n := by
  induction n using Node.valueInduction with
  | step n each value =>
    obtain ⟨kind, loc⟩ := n
    change ∀ m ∈ kind.parts, Placeless f m at each
    intro s t
    cases kind with
    | fnType params result =>
      simp only [Kind.parts, List.forall_mem_append, List.forall_mem_singleton] at each
      simp only [Node.relocate, Kind.relocate, infer, inferAll_relocate each.1, each.2 _ _]
    | function params result body => exact infer_function_relocate each value loc s t
    | call target args =>
      have callee := each target (by simp [Kind.parts])
      simp only [Node.relocate, Kind.relocate, infer, callee s t]
    | _ => rfl

end Inference

def Diagnostic.relocate (f : Span → Span) (d : Diagnostic) : Diagnostic :=
  { d with location := f d.location }

theorem misfits_relocate (f : Span → Span) (expected actual : Ty) (place : Span) :
    (misfits expected actual place).map (Diagnostic.relocate f) =
      misfits expected actual (f place) := by
  simp only [misfits, List.map_map]
  rfl

theorem calleeProblems_relocate (f : Span → Span) (callee : Ty) (args : Nat)
    (target place : Span) :
    (calleeProblems callee args target place).map (Diagnostic.relocate f) =
      calleeProblems callee args (f target) (f place) := by
  unfold calleeProblems
  split
  · split <;> rfl
  · rfl
  · split <;> rfl

section

variable {f : Span → Span} (still : f Span.none = Span.none)
include still

theorem place_relocate (loc : Option Span) :
    (loc.map f).getD Span.none = f (loc.getD Span.none) := by
  cases loc with
  | none => exact still.symm
  | some place => rfl

theorem Node.span_relocate (n : Node) : (n.relocate f).span = f n.span := by
  obtain ⟨kind, loc⟩ := n
  exact place_relocate still loc

theorem positionProblems_relocate (es : List Ty) (args : List Node) (us : List Ty) :
    (positionProblems es args us).map (Diagnostic.relocate f) =
      positionProblems es (relocateAll f args) us := by
  induction es generalizing args us with
  | nil => rfl
  | cons e es ih =>
    cases args with
    | nil => rfl
    | cons arg args =>
      cases us with
      | nil => rfl
      | cons u us =>
        simp only [positionProblems, relocateAll, List.map_append, misfits_relocate,
          Node.span_relocate still, ih]

theorem argumentProblems_relocate (callee : Ty) (args : List Node) (us : List Ty) (place : Span) :
    (argumentProblems callee args us place).map (Diagnostic.relocate f) =
      argumentProblems callee (relocateAll f args) us (f place) := by
  unfold argumentProblems
  split
  · exact positionProblems_relocate still _ args us
  · exact misfits_relocate f _ _ place
  · rfl

end

namespace Checker

def relocate (f : Span → Span) (c : Checker) : Checker :=
  { c with diagnostics := c.diagnostics.map (Diagnostic.relocate f) }

variable {f : Span → Span}

theorem tell_relocate (c : Checker) (more : List Diagnostic) :
    (c.tell more).relocate f = (c.relocate f).tell (more.map (Diagnostic.relocate f)) := by
  simp only [relocate, tell, List.map_append]

theorem bind_relocate (c : Checker) (s : ScopeId) (name : String) (u : Ty) :
    (c.relocate f).bind s name u = (c.bind s name u).relocate f := rfl

theorem openChild_relocate (c : Checker) (s : ScopeId) :
    (c.relocate f).openChild s = ((c.openChild s).1, (c.openChild s).2.relocate f) := rfl

theorem infer_relocate (c : Checker) (n : Node) (s : ScopeId) :
    (c.relocate f).infer (n.relocate f) s = ((c.infer n s).1, (c.infer n s).2.relocate f) := by
  simp only [infer, relocate, placeless f n _ _]

theorem inferAll_relocate (c : Checker) (ns : List Node) (s : ScopeId) :
    (c.relocate f).inferAll (relocateAll f ns) s =
      ((c.inferAll ns s).1, (c.inferAll ns s).2.relocate f) := by
  simp only [inferAll, relocate, ScriptCheck.inferAll_relocate fun n _ => placeless f n]

theorem bindParams_relocate (c : Checker) (params : List Param) (s inner : ScopeId) :
    (c.relocate f).bindParams (relocateParams f params) s inner =
      (c.bindParams params s inner).relocate f := by
  simp only [bindParams, relocate, inferParams_relocate fun n _ => placeless f n]

theorem exportFrom_relocate (c : Checker) (inner s : ScopeId) (ns : String) :
    (c.relocate f).exportFrom inner s ns = (c.exportFrom inner s ns).relocate f := by
  unfold exportFrom
  change List.foldl _ (c.relocate f) (c.scopes.scope inner).vars = _
  generalize (c.scopes.scope inner).vars = members
  induction members generalizing c with
  | nil => rfl
  | cons entry rest ih => exact ih (c.bind s (ns ++ ":" ++ entry.1) entry.2)

theorem checkReturn_relocate (still : f Span.none = Span.none) (c : Checker) (n : Node)
    (s : ScopeId) (parent : Option Node) :
    (c.relocate f).checkReturn (n.relocate f) s (parent.map (Node.relocate f)) =
      (c.checkReturn n s parent).relocate f := by
  obtain ⟨kind, loc⟩ := n
  cases parent with
  | none => rfl
  | some outer =>
    obtain ⟨outer, place⟩ := outer
    cases outer with
    | function params result body =>
      cases kind with
      | ret value =>
        have typed := infer_relocate (f := f) c (.mk (.function params result body) place) s
        have told :
            (value.relocate f).loc.getD (Node.mk (.ret (value.relocate f)) (loc.map f)).span =
            f (value.loc.getD (Node.mk (.ret value) loc).span) := by
          obtain ⟨kind, own⟩ := value
          cases own with
          | none => exact place_relocate still loc
          | some place => rfl
        simp only [Option.map_some, Node.relocate, Kind.relocate, checkReturn, Node.kind]
          at typed told ⊢
        rw [typed]
        generalize c.infer (.mk (.function params result body) place) s = answer
        obtain ⟨u, d⟩ := answer
        cases u with
        | function ps expected =>
          simp only [infer_relocate, compare_eq, tell_relocate, misfits_relocate, told]
        | _ => rfl
      | _ => rfl
    | _ => rfl

/-- Checking the node moved finds the same, moved. -/
def Carries (f : Span → Span) (n : Node) : Prop :=
  ∀ (s : ScopeId) (parent : Option Node) (c : Checker),
    checkNode (n.relocate f) s (parent.map (Node.relocate f)) (c.relocate f) =
      (checkNode n s parent c).relocate f

theorem checkEach_relocate {ns : List Node} (each : ∀ n ∈ ns, Carries f n) (s : ScopeId)
    (parent : Option Node) (c : Checker) :
    checkEach (ns.map (Node.relocate f)) s (parent.map (Node.relocate f)) (c.relocate f) =
      (checkEach ns s parent c).relocate f := by
  induction ns generalizing c with
  | nil => rfl
  | cons n rest ih =>
    obtain ⟨head, tail⟩ := List.forall_mem_cons.mp each
    rw [List.map_cons, checkEach, head, ih tail, checkEach]

theorem checkIsolated_relocate {ns : List Node} (each : ∀ n ∈ ns, Carries f n) (s : ScopeId)
    (parent : Option Node) (c : Checker) :
    checkIsolated (ns.map (Node.relocate f)) s (parent.map (Node.relocate f)) (c.relocate f) =
      (checkIsolated ns s parent c).relocate f := by
  induction ns generalizing c with
  | nil => rfl
  | cons n rest ih =>
    obtain ⟨head, tail⟩ := List.forall_mem_cons.mp each
    rw [List.map_cons, checkIsolated, openChild_relocate, head, ih tail, checkIsolated]

theorem checkBlock_relocate (still : f Span.none = Span.none) {ns : List Node}
    (each : ∀ n ∈ ns, Carries f n) (s : ScopeId) (parent : Option Node) (c : Checker) :
    checkBlock (ns.map (Node.relocate f)) s (parent.map (Node.relocate f)) (c.relocate f) =
      (checkBlock ns s parent c).relocate f := by
  induction ns generalizing c with
  | nil => rfl
  | cons n rest ih =>
    obtain ⟨head, tail⟩ := List.forall_mem_cons.mp each
    rw [List.map_cons, checkBlock, head, checkReturn_relocate still, ih tail, checkBlock]

theorem carries (still : f Span.none = Span.none) (n : Node) : Carries f n := by
  induction n using Node.ruleInduction with
  | define name annotation value mutable loc ih =>
    intro s parent c
    cases annotation with
    | none =>
      simp only [Node.relocate, Kind.relocate, relocateMaybe, checkNode, infer_relocate]
      rw [ih, bind_relocate]
    | some d =>
      simp only [Node.relocate, Kind.relocate, relocateMaybe, checkNode, infer_relocate]
      rw [ih]
      simp only [infer_relocate, compare_eq, place_relocate still, ← misfits_relocate,
        ← tell_relocate, bind_relocate]
  | assign dest value loc ih =>
    intro s parent c
    simp only [Node.relocate, Kind.relocate, checkNode, infer_relocate]
    rw [ih]
    simp only [compare_eq, Node.span_relocate still, ← misfits_relocate, ← tell_relocate]
  | adjust how dest value loc ih =>
    intro s parent c
    simp only [Node.relocate, Kind.relocate, checkNode, infer_relocate]
    rw [ih]
    simp only [compare_eq, Node.span_relocate still, ← misfits_relocate, ← tell_relocate]
  | call target args loc ih each =>
    intro s parent c
    have count : (relocateAll f args).length = args.length := by
      rw [relocateAll_eq, List.length_map]
    simp only [Node.relocate, Kind.relocate]
    rw [checkNode_call, checkNode_call]
    simp only [infer_relocate, Node.span_relocate still, place_relocate still, count]
    rw [ih, ← calleeProblems_relocate, ← tell_relocate]
    generalize (checkNode target s parent (c.infer target s).2).tell _ = d
    split
    · rw [inferAll_relocate, relocateAll_eq, checkEach_relocate each, ← relocateAll_eq,
        ← argumentProblems_relocate still, ← tell_relocate]
    · rw [relocateAll_eq, checkEach_relocate each]
  | forLoop var low high times body loc each ih =>
    intro s parent c
    simp only [Node.relocate, Kind.relocate]
    rw [checkNode_forLoop, checkNode_forLoop]
    simp only [relocateMaybe_toList, ← List.map_append]
    rw [checkEach_relocate each, openChild_relocate]
    cases var with
    | none => exact ih _ parent _
    | some name =>
      simp only [bindCounter, bind_relocate]
      exact ih _ parent _
  | eachLoop var items body loc first ih =>
    intro s parent c
    simp only [Node.relocate, Kind.relocate, checkNode]
    rw [first, openChild_relocate, bind_relocate, ih]
  | loop body loc each =>
    intro s parent c
    have inner := checkBlock_relocate still each (c.openChild s).1
      (some (.mk (.loop body) loc)) (c.openChild s).2
    rw [← relocateAll_eq] at inner
    exact inner
  | block body loc each =>
    intro s parent c
    have inner := checkBlock_relocate still each (c.openChild s).1 parent (c.openChild s).2
    rw [← relocateAll_eq] at inner
    exact inner
  | ifElse cond yes elseifs no loc each =>
    intro s parent c
    simp only [Node.relocate, Kind.relocate]
    rw [checkNode_ifElse, checkNode_ifElse, relocateBranches_nodes, relocateMaybe_toList]
    have parts := checkIsolated_relocate each s parent c
    simpa only [List.map_cons, List.map_append] using parts
  | ns name members loc each =>
    intro s parent c
    have inner := checkBlock_relocate still each (c.openChild s).1 parent (c.openChild s).2
    rw [← relocateAll_eq] at inner
    have shown := congrArg (fun d => d.exportFrom (c.openChild s).1 s name) inner
    exact shown.trans (exportFrom_relocate _ _ s name)
  | function params result body loc each =>
    intro s parent c
    have bound := bindParams_relocate (f := f) (c.openChild s).2 params s (c.openChild s).1
    have inner := checkBlock_relocate still each (c.openChild s).1
      (some (.mk (.function params result body) loc))
      ((c.openChild s).2.bindParams params s (c.openChild s).1)
    rw [← relocateAll_eq, ← bound] at inner
    exact inner
  | inline kind loc ms passes each =>
    intro s parent c
    simp only [Node.relocate]
    rw [checkNode_inline (Kind.relocate_inline passes f), checkNode_inline passes,
      checkEach_relocate each]

theorem checkProgram_relocate (still : f Span.none = Span.none) (p : Program) (globals : Scope) :
    (Checker.new globals).checkProgram (p.map (Node.relocate f)) =
      (((Checker.new globals).checkProgram p).1.map (Diagnostic.relocate f),
        ((Checker.new globals).checkProgram p).2) := by
  have carried := checkBlock_relocate still (fun n (_ : n ∈ p) => carries still n) ScopeTree.root
    none (Checker.new globals)
  exact congrArg take carried

end Checker

section Unmoved

variable {f : Span → Span}

theorem relocateAll_eq_self {ns : List Node} (each : ∀ m ∈ ns, m.relocate f = m) :
    relocateAll f ns = ns := by
  rw [relocateAll_eq, List.map_congr_left each, List.map_id']

theorem relocateMaybe_eq_self {o : Option Node} (each : ∀ m ∈ o.toList, m.relocate f = m) :
    relocateMaybe f o = o := by
  cases o with
  | none => rfl
  | some n => rw [relocateMaybe, each n (by simp)]

theorem relocateBranches_eq_self {bs : List Branch}
    (each : ∀ m ∈ bs.flatMap Branch.nodes, m.relocate f = m) : relocateBranches f bs = bs := by
  induction bs with
  | nil => rfl
  | cons b rest ih =>
    obtain ⟨test, body⟩ := b
    simp only [List.flatMap_cons, List.forall_mem_append, Branch.nodes, List.forall_mem_cons]
      at each
    rw [relocateBranches, each.1.1, each.1.2.1, ih each.2]

theorem relocateParams_eq_self {ps : List Param}
    (each : ∀ m ∈ ps.flatMap fun p => p.declared.toList, m.relocate f = m) :
    relocateParams f ps = ps := by
  induction ps with
  | nil => rfl
  | cons p rest ih =>
    obtain ⟨name, declared⟩ := p
    simp only [List.flatMap_cons, List.forall_mem_append, Param.declared] at each
    rw [relocateParams, relocateMaybe_eq_self each.1, ih each.2]

theorem relocateParts_eq_self {ps : List Part}
    (each : ∀ m ∈ ps.flatMap Part.nodes, m.relocate f = m) : relocateParts f ps = ps := by
  induction ps with
  | nil => rfl
  | cons p rest ih =>
    simp only [List.flatMap_cons, List.forall_mem_append] at each
    cases p with
    | text s => rw [relocateParts, ih each.2]
    | expr e => rw [relocateParts, each.1 e (by simp [Part.nodes]), ih each.2]

theorem relocateEntries_eq_self {es : List Entry}
    (each : ∀ m ∈ es.map Entry.value, m.relocate f = m) : relocateEntries f es = es := by
  induction es with
  | nil => rfl
  | cons e rest ih =>
    obtain ⟨key, value⟩ := e
    simp only [List.map_cons, List.forall_mem_cons, Entry.value] at each
    rw [relocateEntries, each.1, ih each.2]

theorem Kind.relocate_eq_self {kind : Kind} (each : ∀ m ∈ kind.parts, m.relocate f = m) :
    kind.relocate f = kind := by
  cases kind <;>
    simp only [parts, List.forall_mem_append, List.forall_mem_cons] at each <;>
    simp +contextual only [relocate, each, relocateAll_eq_self, relocateMaybe_eq_self,
      relocateBranches_eq_self, relocateParams_eq_self, relocateParts_eq_self,
      relocateEntries_eq_self, implies_true]

end Unmoved

theorem Node.relocate_eq_self {f : Span → Span} {n : Node}
    (fixed : ∀ m x, Node.Within m n → m.loc = some x → f x = x) : n.relocate f = n := by
  induction n using Node.induction with
  | step n ih =>
    obtain ⟨kind, loc⟩ := n
    have each : ∀ m ∈ kind.parts, m.relocate f = m := fun m direct =>
      ih m direct fun k x inside => fixed k x (.part direct inside)
    have place : loc.map f = loc := by
      cases loc with
      | none => rfl
      | some x => rw [Option.map_some, fixed _ x .self rfl]
    rw [Node.relocate, Kind.relocate_eq_self each, place]

/-- Moving all locations of a program by a function that keeps the start of the source moves the
locations of the diagnostics and leaves their order, their messages, the names and types of the
root and the number of scopes as they are. So each diagnostic stands where some node of the program
stands, or at the start of the source. -/
theorem Program.check_carries_locations (p : Program) (globals : Scope) :
    (∀ f : Span → Span, f Span.none = Span.none →
      let checked := (Checker.new globals).checkProgram p
      let moved := (Checker.new globals).checkProgram (p.map (Node.relocate f))
      moved.1 = checked.1.map (fun d => { d with location := f d.location }) ∧
        (moved.2.scopes.scope ScopeTree.root).vars =
          (checked.2.scopes.scope ScopeTree.root).vars ∧
        moved.2.scopes.size = checked.2.scopes.size) ∧
    ∀ d ∈ p.check globals, d.location = Span.none ∨
      ∃ n ∈ p, ∃ m, Node.Within m n ∧ m.loc = some d.location := by
  refine ⟨fun f still => ?_, fun d found => ?_⟩
  · dsimp only
    rw [Checker.checkProgram_relocate still]
    exact ⟨rfl, rfl, rfl⟩
  · -- a function that keeps the locations of the program and sends all others to the start moves
    -- neither the program nor, therefore, what is found in it
    classical
    let Known (x : Span) : Prop := ∃ n ∈ p, ∃ m, Node.Within m n ∧ m.loc = some x
    let f (x : Span) : Span := if Known x then x else Span.none
    have still : f Span.none = Span.none := ite_self Span.none
    have same : p.map (Node.relocate f) = p := by
      rw [List.map_congr_left (g := id), List.map_id]
      intro n there
      exact Node.relocate_eq_self fun m x inside loc => if_pos ⟨n, there, m, inside, loc⟩
    have moved := congrArg Prod.fst (Checker.checkProgram_relocate still p globals)
    rw [same] at moved
    have kept : d.relocate f = d :=
      List.map_inj_left.mp (moved.symm.trans (List.map_id _).symm) d found
    by_cases known : Known d.location
    · exact .inr known
    · have start := congrArg Diagnostic.location kept
      exact .inl (start.symm.trans (if_neg known))

theorem Program.check_carries_locations_shifted :
    let text : Node := .mk (.str "t") (some ⟨4, 7⟩)
    let number : Node := .mk (.namedType "num" none) (some ⟨0, 3⟩)
    let p : Program := [.mk (.function [] (some number) [.mk (.ret text) none]) (some ⟨0, 9⟩),
      .mk (.call text []) (some ⟨4, 9⟩), .mk (.call (.mk .null none) [text]) (some ⟨9, 12⟩)]
    let globals : Scope := ⟨[], [("num", .num)], none⟩
    let f (x : Span) : Span := if x = Span.none then x else ⟨x.stop + 10, x.start⟩
    f Span.none = Span.none ∧
      (p.check globals).map Diagnostic.location = [⟨4, 7⟩, ⟨4, 7⟩, Span.none] ∧
      (Program.check (p.map (Node.relocate f)) globals).map Diagnostic.location =
        [⟨17, 4⟩, ⟨17, 4⟩, Span.none] := by
  intro text number p globals f
  have still : f Span.none = Span.none := rfl
  have places : (p.check globals).map Diagnostic.location = [⟨4, 7⟩, ⟨4, 7⟩, Span.none] := by
    decide +kernel
  obtain ⟨moved, -⟩ := (check_carries_locations p globals).1 f still
  have shifted : (Program.check (p.map (Node.relocate f)) globals).map Diagnostic.location =
      ((p.check globals).map Diagnostic.location).map f := by
    simp only [Program.check, moved, List.map_map]
    rfl
  exact ⟨still, places, by rw [shifted, places]; rfl⟩

end ScriptCheck
