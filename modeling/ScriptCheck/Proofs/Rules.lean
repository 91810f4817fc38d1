import ScriptCheck.Proofs.Environment

/-! Both checkers pass on to the parts of a node in few ways: one after the other in the scope of
the node, each in a scope of its own, or as the statements of a block. -/
namespace ScriptCheck

namespace Checker

def tell (c : Checker) (more : List Diagnostic) : Checker :=
  { c with diagnostics := c.diagnostics ++ more }

@[simp] theorem tell_nil (c : Checker) : c.tell [] = c := by simp [tell]

@[simp] theorem tell_tell (c : Checker) (first second : List Diagnostic) :
    (c.tell first).tell second = c.tell (first ++ second) := by simp [tell]

theorem compare_eq (c : Checker) (expected actual : Ty) (location : Span) :
    c.compare expected actual location = c.tell (misfits expected actual location) := rfl

theorem report_eq (c : Checker) (problem : Problem) (location : Span) :
    c.report problem location = c.tell [⟨problem, location⟩] := rfl

theorem compareArgs_eq (c : Checker) (es : List Ty) (args : List Node) (us : List Ty) :
    c.compareArgs es args us = c.tell (positionProblems es args us) := by
  induction es generalizing c args us with
  | nil => simp [compareArgs, positionProblems]
  | cons e es ih =>
    cases args with
    | nil => simp [compareArgs, positionProblems]
    | cons arg args =>
      cases us with
      | nil => simp [compareArgs, positionProblems]
      | cons u us => simp only [compareArgs, positionProblems, ih, compare_eq, tell_tell]

theorem checkNode_call (target : Node) (args : List Node) (loc : Option Span) (s : ScopeId)
    (parent : Option Node) (c : Checker) :
    checkNode (.mk (.call target args) loc) s parent c =
      let callee := (c.infer target s).1
      let place := loc.getD Span.none
      let c := (checkNode target s parent (c.infer target s).2).tell
        (calleeProblems callee args.length target.span place)
      if callee.isFunction then
        (checkEach args s parent (c.inferAll args s).2).tell
          (argumentProblems callee args (c.inferAll args s).1 place)
      else checkEach args s parent c := by
  simp only [checkNode]
  generalize c.infer target s = answer
  obtain ⟨callee, c⟩ := answer
  cases callee with
  | function params result =>
    cases params with
    | tuple ps =>
      by_cases same : ps.length = args.length <;>
        simp [calleeProblems, argumentProblems, Ty.isFunction, same, compareArgs_eq, report_eq]
    | _ => simp [calleeProblems, argumentProblems, Ty.isFunction, compare_eq]
  | name n =>
    by_cases any : (Ty.name n).isAny <;>
      simp [calleeProblems, Ty.isFunction, any, report_eq]
  | _ => simp [calleeProblems, Ty.isFunction, Ty.isAny, report_eq]

theorem checkEach_append (first second : List Node) (s : ScopeId) (parent : Option Node)
    (c : Checker) :
    checkEach (first ++ second) s parent c =
      checkEach second s parent (checkEach first s parent c) := by
  induction first generalizing c with
  | nil => rfl
  | cons n rest ih => simp only [List.cons_append, checkEach, ih]

theorem checkMaybe_eq (o : Option Node) (s : ScopeId) (parent : Option Node) (c : Checker) :
    checkMaybe o s parent c = checkEach o.toList s parent c := by
  cases o <;> rfl

theorem checkBranches_eq (bs : List Branch) (s : ScopeId) (parent : Option Node) (c : Checker) :
    checkBranches bs s parent c = checkEach (bs.flatMap Branch.nodes) s parent c := by
  induction bs generalizing c with
  | nil => rfl
  | cons b rest ih =>
    obtain ⟨test, body⟩ := b
    simp only [checkBranches, List.flatMap_cons, Branch.nodes, List.cons_append, List.nil_append,
      checkEach, ih]

theorem checkParts_eq (ps : List Part) (s : ScopeId) (parent : Option Node) (c : Checker) :
    checkParts ps s parent c = checkEach (ps.flatMap Part.nodes) s parent c := by
  induction ps generalizing c with
  | nil => rfl
  | cons p rest ih =>
    cases p <;> simp only [checkParts, List.flatMap_cons, Part.nodes, List.cons_append,
      List.nil_append, checkEach, ih]

theorem checkEntries_eq (es : List Entry) (s : ScopeId) (parent : Option Node) (c : Checker) :
    checkEntries es s parent c = checkEach (es.map Entry.value) s parent c := by
  induction es generalizing c with
  | nil => rfl
  | cons e rest ih =>
    obtain ⟨key, value⟩ := e
    simp only [checkEntries, List.map_cons, Entry.value, checkEach, ih]

theorem checkNode_inline {kind : Kind} {ms : List Node} (passes : kind.inline = some ms)
    (loc : Option Span) (s : ScopeId) (parent : Option Node) (c : Checker) :
    checkNode (.mk kind loc) s parent c = checkEach ms s parent c := by
  cases kind <;> simp only [Kind.inline, Option.some.injEq, reduceCtorEq] at passes <;>
    subst passes <;>
    simp only [checkNode, checkEach, checkEach_append, checkMaybe_eq, checkBranches_eq,
      checkParts_eq, checkEntries_eq]

def checkIsolated : List Node → ScopeId → Option Node → Checker → Checker
  | [], _, _, c => c
  | n :: rest, s, parent, c =>
    checkIsolated rest s parent (checkNode n (c.openChild s).1 parent (c.openChild s).2)

theorem checkIsolated_append (first second : List Node) (s : ScopeId) (parent : Option Node)
    (c : Checker) :
    checkIsolated (first ++ second) s parent c =
      checkIsolated second s parent (checkIsolated first s parent c) := by
  induction first generalizing c with
  | nil => rfl
  | cons n rest ih => simp only [List.cons_append, checkIsolated, ih]

theorem checkApart_eq (bs : List Branch) (s : ScopeId) (parent : Option Node) (c : Checker) :
    checkApart bs s parent c = checkIsolated (bs.flatMap Branch.nodes) s parent c := by
  induction bs generalizing c with
  | nil => rfl
  | cons b rest ih =>
    obtain ⟨test, body⟩ := b
    simp only [checkApart, List.flatMap_cons, Branch.nodes, List.cons_append, List.nil_append,
      checkIsolated, ih]

theorem checkNode_ifElse (cond yes : Node) (elseifs : List Branch) (no : Option Node)
    (loc : Option Span) (s : ScopeId) (parent : Option Node) (c : Checker) :
    checkNode (.mk (.ifElse cond yes elseifs no) loc) s parent c =
      checkIsolated (cond :: yes :: (elseifs.flatMap Branch.nodes ++ no.toList)) s parent c := by
  cases no <;> simp only [checkNode, checkIsolated, checkIsolated_append, checkApart_eq,
    Option.toList_none, Option.toList_some]

def bindCounter (c : Checker) (inner : ScopeId) : Option String → Checker
  | some name => c.bind inner name .num
  | none => c

theorem checkNode_forLoop (var : Option String) (low high times : Option Node) (body : Node)
    (loc : Option Span) (s : ScopeId) (parent : Option Node) (c : Checker) :
    checkNode (.mk (.forLoop var low high times body) loc) s parent c =
      let c := checkEach (low.toList ++ high.toList ++ times.toList) s parent c
      checkNode body (c.openChild s).1 parent
        ((c.openChild s).2.bindCounter (c.openChild s).1 var) := by
  cases var <;> simp only [checkNode, checkEach_append, checkMaybe_eq, bindCounter]

end Checker

namespace Outcome

@[simp] theorem start_andThen (b : Bindings) (next : Bindings → Outcome) :
    (Outcome.mk b []).andThen next = next b := rfl

@[simp] theorem andThen_stop (o : Outcome) : (o.andThen fun b => ⟨b, []⟩) = o := by
  simp [andThen]

@[simp] theorem also_nil (o : Outcome) : o.also [] = o := by simp [also]

theorem andThen_assoc (o : Outcome) (next last : Bindings → Outcome) :
    (o.andThen next).andThen last = o.andThen fun b => (next b).andThen last := by
  simp [andThen, List.append_assoc]

end Outcome

@[simp] theorem argumentProblems_of_not_function {callee : Ty} (h : callee.isFunction = false)
    (args : List Node) (us : List Ty) (place : Span) :
    argumentProblems callee args us place = [] := by
  cases callee <;> simp_all [argumentProblems, Ty.isFunction]

theorem walkEach_append (first second : List Node) (v : Lookups) (parent : Option Node)
    (b : Bindings) :
    walkEach (first ++ second) v parent b =
      (walkEach first v parent b).andThen fun b => walkEach second v parent b := by
  induction first generalizing b with
  | nil => simp [walkEach]
  | cons n rest ih => simp only [List.cons_append, walkEach, ih, Outcome.andThen_assoc]

theorem walkMaybe_eq (o : Option Node) (v : Lookups) (parent : Option Node) (b : Bindings) :
    walkMaybe o v parent b = walkEach o.toList v parent b := by
  cases o <;> simp [walkMaybe, walkEach]

theorem walkBranches_eq (bs : List Branch) (v : Lookups) (parent : Option Node) (b : Bindings) :
    walkBranches bs v parent b = walkEach (bs.flatMap Branch.nodes) v parent b := by
  induction bs generalizing b with
  | nil => rfl
  | cons branch rest ih =>
    obtain ⟨test, body⟩ := branch
    simp only [walkBranches, List.flatMap_cons, Branch.nodes, List.cons_append, List.nil_append,
      walkEach, ih]

theorem walkParts_eq (ps : List Part) (v : Lookups) (parent : Option Node) (b : Bindings) :
    walkParts ps v parent b = walkEach (ps.flatMap Part.nodes) v parent b := by
  induction ps generalizing b with
  | nil => rfl
  | cons p rest ih =>
    cases p <;> simp only [walkParts, List.flatMap_cons, Part.nodes, List.cons_append,
      List.nil_append, walkEach, ih]

theorem walkEntries_eq (es : List Entry) (v : Lookups) (parent : Option Node) (b : Bindings) :
    walkEntries es v parent b = walkEach (es.map Entry.value) v parent b := by
  induction es generalizing b with
  | nil => rfl
  | cons e rest ih =>
    obtain ⟨key, value⟩ := e
    simp only [walkEntries, List.map_cons, Entry.value, walkEach, ih]

theorem walk_inline {kind : Kind} {ms : List Node} (passes : kind.inline = some ms)
    (loc : Option Span) (v : Lookups) (parent : Option Node) (b : Bindings) :
    walk (.mk kind loc) v parent b = walkEach ms v parent b := by
  cases kind <;> simp only [Kind.inline, Option.some.injEq, reduceCtorEq] at passes <;>
    subst passes <;>
    simp only [walk, walkEach, walkEach_append, walkMaybe_eq, walkBranches_eq, walkParts_eq,
      walkEntries_eq, Outcome.andThen_stop]

def walkIsolated : List Node → Lookups → Option Node → Bindings → Outcome
  | [], _, _, b => ⟨b, []⟩
  | n :: rest, v, parent, b =>
    ((walk n (v.extend b) parent []).leave b).andThen fun b => walkIsolated rest v parent b

theorem walkIsolated_append (first second : List Node) (v : Lookups) (parent : Option Node)
    (b : Bindings) :
    walkIsolated (first ++ second) v parent b =
      (walkIsolated first v parent b).andThen fun b => walkIsolated second v parent b := by
  induction first generalizing b with
  | nil => simp [walkIsolated]
  | cons n rest ih => simp only [List.cons_append, walkIsolated, ih, Outcome.andThen_assoc]

theorem walkApart_eq (bs : List Branch) (v : Lookups) (parent : Option Node) (b : Bindings) :
    walkApart bs v parent b = walkIsolated (bs.flatMap Branch.nodes) v parent b := by
  induction bs generalizing b with
  | nil => rfl
  | cons branch rest ih =>
    obtain ⟨test, body⟩ := branch
    simp only [walkApart, List.flatMap_cons, Branch.nodes, List.cons_append, List.nil_append,
      walkIsolated, ih]

theorem walk_ifElse (cond yes : Node) (elseifs : List Branch) (no : Option Node)
    (loc : Option Span) (v : Lookups) (parent : Option Node) (b : Bindings) :
    walk (.mk (.ifElse cond yes elseifs no) loc) v parent b =
      walkIsolated (cond :: yes :: (elseifs.flatMap Branch.nodes ++ no.toList)) v parent b := by
  cases no <;> simp only [walk, walkIsolated, walkIsolated_append, walkApart_eq,
    Option.toList_none, Option.toList_some, Outcome.andThen_stop]

def counter : Option String → Bindings
  | some name => [(name, .num)]
  | none => []

theorem walk_forLoop (var : Option String) (low high times : Option Node) (body : Node)
    (loc : Option Span) (v : Lookups) (parent : Option Node) (b : Bindings) :
    walk (.mk (.forLoop var low high times body) loc) v parent b =
      (walkEach (low.toList ++ high.toList ++ times.toList) v parent b).andThen fun b =>
        (walk body (v.extend b) parent (counter var)).leave b := by
  cases var <;> simp only [walk, walkEach_append, walkMaybe_eq, Outcome.andThen_assoc, counter]

end ScriptCheck
