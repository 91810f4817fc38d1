import ScriptCheck.Proofs.Rules

/-! What a call says about its arguments. The checker counts them and compares them one by one, each
at its own place; compatibility compares the type of the parameters with the tuple of the arguments.
Both give the same reasons in the same order. -/
namespace ScriptCheck

namespace Checker

def behind (c : Checker) (older : List Diagnostic) : Checker :=
  { c with diagnostics := older ++ c.diagnostics }

section Behind

variable (c : Checker) (older : List Diagnostic)

theorem tell_behind (more : List Diagnostic) :
    (c.behind older).tell more = (c.tell more).behind older := by
  simp [tell, behind]

theorem infer_behind (n : Node) (s : ScopeId) :
    (c.behind older).infer n s = ((c.infer n s).1, (c.infer n s).2.behind older) := rfl

theorem bindCounter_behind (inner : ScopeId) (var : Option String) :
    (c.behind older).bindCounter inner var = (c.bindCounter inner var).behind older := by
  cases var <;> rfl

theorem exportFrom_behind (inner s : ScopeId) (ns : String) :
    (c.behind older).exportFrom inner s ns = (c.exportFrom inner s ns).behind older := by
  unfold exportFrom
  change List.foldl _ _ (c.scopes.scope inner).vars = _
  generalize (c.scopes.scope inner).vars = members
  induction members generalizing c with
  | nil => rfl
  | cons entry rest ih => exact ih (c.bind s _ entry.2)

theorem checkReturn_behind (n : Node) (s : ScopeId) (parent : Option Node) :
    (c.behind older).checkReturn n s parent = (c.checkReturn n s parent).behind older := by
  obtain ⟨kind, loc⟩ := n
  cases parent with
  | none => rfl
  | some f =>
    obtain ⟨outer, place⟩ := f
    cases outer with
    | function params result body =>
      cases kind with
      | ret value =>
        simp only [checkReturn, Node.kind, infer_behind]
        generalize c.infer (.mk (.function params result body) place) s = answer
        obtain ⟨u, d⟩ := answer
        cases u with
        | function _ expected => simp only [infer_behind, compare_eq, tell_behind]
        | _ => rfl
      | _ => rfl
    | _ => rfl

end Behind

def Appends (n : Node) : Prop :=
  ∀ s parent (c : Checker) older,
    checkNode n s parent (c.behind older) = (checkNode n s parent c).behind older

section Appends

variable {ns : List Node} (each : ∀ n ∈ ns, Appends n) (s : ScopeId) (parent : Option Node)
  (c : Checker) (older : List Diagnostic)
include each

theorem checkEach_behind :
    checkEach ns s parent (c.behind older) = (checkEach ns s parent c).behind older := by
  induction ns generalizing c with
  | nil => rfl
  | cons n rest ih =>
    obtain ⟨head, tail⟩ := List.forall_mem_cons.mp each
    rw [checkEach, checkEach, head, ih tail]

theorem checkIsolated_behind :
    checkIsolated ns s parent (c.behind older) = (checkIsolated ns s parent c).behind older := by
  induction ns generalizing c with
  | nil => rfl
  | cons n rest ih =>
    obtain ⟨head, tail⟩ := List.forall_mem_cons.mp each
    rw [checkIsolated, checkIsolated, ← ih tail, ← head]
    rfl

theorem checkBlock_behind :
    checkBlock ns s parent (c.behind older) = (checkBlock ns s parent c).behind older := by
  induction ns generalizing c with
  | nil => rfl
  | cons n rest ih =>
    obtain ⟨head, tail⟩ := List.forall_mem_cons.mp each
    rw [checkBlock, checkBlock, head, checkReturn_behind, ih tail]

end Appends

theorem appends (n : Node) : Appends n := by
  induction n using Node.ruleInduction with
  | define name annotation value mutable loc ih =>
    intro s parent c older
    simp only [checkNode, infer_behind, ih s parent]
    cases annotation with
    | none => rfl
    | some d =>
      simp only [compare_eq, tell_behind]
      rfl
  | assign dest value loc ih =>
    intro s parent c older
    simp only [checkNode, infer_behind, ih s parent, compare_eq, tell_behind]
  | adjust how dest value loc ih =>
    intro s parent c older
    simp only [checkNode, infer_behind, ih s parent, compare_eq, tell_behind]
  | call target args loc ih each =>
    intro s parent c older
    rw [checkNode_call, checkNode_call]
    simp only [infer_behind, ih s parent, tell_behind]
    generalize (checkNode target s parent (c.infer target s).2).tell _ = d
    have given := checkEach_behind each s parent
    split
    · rw [← tell_behind, ← given]
      rfl
    · exact given d older
  | forLoop var low high times body loc each ih =>
    intro s parent c older
    rw [checkNode_forLoop, checkNode_forLoop]
    dsimp only
    rw [checkEach_behind each]
    generalize checkEach (low.toList ++ high.toList ++ times.toList) s parent c = d
    rw [← ih, ← bindCounter_behind]
    rfl
  | eachLoop var items body loc first ih =>
    intro s parent c older
    simp only [checkNode, first s parent]
    generalize checkNode items s parent c = d
    exact ih (d.openChild s).1 parent ((d.openChild s).2.bind (d.openChild s).1 var .any) older
  | loop body loc each =>
    intro s parent c older
    exact checkBlock_behind each (c.openChild s).1 _ (c.openChild s).2 older
  | block body loc each =>
    intro s parent c older
    exact checkBlock_behind each (c.openChild s).1 parent (c.openChild s).2 older
  | ifElse cond yes elseifs no loc each =>
    intro s parent c older
    rw [checkNode_ifElse, checkNode_ifElse, checkIsolated_behind each]
  | ns name members loc each =>
    intro s parent c older
    have body := checkBlock_behind each (c.openChild s).1 parent (c.openChild s).2 older
    simp only [checkNode]
    rw [← exportFrom_behind, ← body]
    rfl
  | function params result body loc each =>
    intro s parent c older
    exact checkBlock_behind each (c.openChild s).1 _
      ((c.openChild s).2.bindParams params s (c.openChild s).1) older
  | inline kind loc ms passes each =>
    intro s parent c older
    rw [checkNode_inline passes, checkNode_inline passes, checkEach_behind each]

theorem take_behind (c : Checker) : c.take.2.behind c.diagnostics = c := by
  simp [take, behind]

theorem checkNode_from (n : Node) (s : ScopeId) (parent : Option Node) (c : Checker) :
    checkNode n s parent c = (checkNode n s parent c.take.2).behind c.diagnostics := by
  rw [← appends n, take_behind]

theorem checkEach_from (ns : List Node) (s : ScopeId) (parent : Option Node) (c : Checker) :
    checkEach ns s parent c = (checkEach ns s parent c.take.2).behind c.diagnostics := by
  rw [← checkEach_behind (fun n _ => appends n), take_behind]

theorem call_of_function {target : Node} {s : ScopeId} {c : Checker} {params result : Ty}
    (callee : (c.infer target s).1 = .function params result) (args : List Node)
    (loc : Option Span) (parent : Option Node) :
    let place := loc.getD Span.none
    let called := checkNode target s parent (c.infer target s).2
    let given := checkEach args s parent (called.inferAll args s).2
    let alone := checkEach args s parent (called.inferAll args s).2.take.2
    checkNode (.mk (.call target args) loc) s parent c = { given with
      diagnostics := called.diagnostics ++
        calleeProblems (.function params result) args.length target.span place ++
        alone.diagnostics ++
        argumentProblems (.function params result) args (called.inferAll args s).1 place } := by
  intro place called given alone
  let early := calleeProblems (.function params result) args.length target.span place
  have direct : given = alone.behind called.diagnostics := checkEach_from args s parent _
  have later : checkEach args s parent ((called.tell early).inferAll args s).2 =
      alone.behind (called.diagnostics ++ early) := checkEach_from args s parent _
  rw [checkNode_call, callee]
  change (checkEach args s parent ((called.tell early).inferAll args s).2).tell _ = _
  rw [later, direct]
  rfl

end Checker

theorem length_inferAll (ns : List Node) (s : ScopeId) (t : ScopeTree) :
    (inferAll ns s t).1.length = ns.length := by
  induction ns generalizing t with
  | nil => rfl
  | cons n rest ih => exact congrArg (· + 1) (ih _)

theorem Ty.mismatches_tuple (ps us : List Ty) :
    mismatches (.tuple ps) (.tuple us) =
      (if ps.length = us.length then [] else [.elementCount ps.length us.length]) ++
        pairwise ps us := by
  rw [mismatches]
  rfl

theorem message_misfits (expected actual : Ty) (location : Span) :
    (misfits expected actual location).map Diagnostic.message =
      (Ty.mismatches expected actual).map Mismatch.message := by
  rw [misfits, List.map_map]
  rfl

theorem location_misfits {expected actual : Ty} {location : Span} {d : Diagnostic}
    (told : d ∈ misfits expected actual location) : d.location = location := by
  obtain ⟨m, _, rfl⟩ := List.mem_map.mp told
  rfl

theorem message_positionProblems (ps : List Ty) {args : List Node} {us : List Ty}
    (same : us.length = args.length) :
    (positionProblems ps args us).map Diagnostic.message =
      (Ty.pairwise ps us).map Mismatch.message := by
  induction ps generalizing args us with
  | nil => rfl
  | cons p ps ih =>
    cases args with
    | nil =>
      obtain rfl := List.length_eq_zero_iff.mp same
      rfl
    | cons arg args =>
      cases us with
      | nil => cases same
      | cons u us =>
        rw [positionProblems, Ty.pairwise, List.map_append, List.map_append, message_misfits,
          ih (Nat.succ.inj same)]

theorem positionProblems_eq (ps : List Ty) (args : List Node) (us : List Ty) :
    positionProblems ps args us =
      (ps.zip (args.zip us)).flatMap fun x => misfits x.1 x.2.2 x.2.1.span := by
  induction ps generalizing args us with
  | nil => rfl
  | cons p ps ih =>
    cases args with
    | nil => rfl
    | cons arg args =>
      cases us with
      | nil => rfl
      | cons u us => rw [positionProblems, ih, List.zip_cons_cons, List.zip_cons_cons,
          List.flatMap_cons]

/-- A wrong number of elements in the tuple of the arguments is told as one of arguments. -/
inductive Recounted (params : Ty) (count : Nat) (place : Span) :
    List Mismatch → List Diagnostic → Prop where
  | wrong {ps : List Ty} (tuple : params = .tuple ps) (other : ps.length ≠ count) :
    Recounted params count place [.elementCount ps.length count]
      [⟨.argumentCount ps.length count, place⟩]
  | right (fits : ∀ ps, params = .tuple ps → ps.length = count) :
    Recounted params count place [] []

structure CallReport (params : Ty) (args : List Node) (actual : List Ty) (place : Span)
    (early late : List Diagnostic) : Prop where
  /-- It gives the reasons why the tuple of the arguments does not fit, in the same order and, but
  for the count, in the same words. -/
  reasons : ∃ counted rest, Ty.mismatches params (.tuple actual) = counted ++ rest ∧
    Recounted params args.length place counted early ∧
    late.map Diagnostic.message = rest.map Mismatch.message
  /-- Each argument is compared with its own parameter, at its own place, -/
  positions : ∀ ps, params = .tuple ps →
    late = (ps.zip (args.zip actual)).flatMap fun x => misfits x.1 x.2.2 x.2.1.span
  /-- or all of them at once if the parameters are no tuple. -/
  together : (∀ ps, params ≠ .tuple ps) → ∀ d ∈ late, d.location = place

namespace CallReport

variable {params : Ty} {args : List Node} {actual : List Ty} {place : Span}
  {early late : List Diagnostic}

theorem length (report : CallReport params args actual place early late) :
    (early ++ late).length = (Ty.mismatches params (.tuple actual)).length := by
  obtain ⟨counted, rest, whole, recounted, words⟩ := report.reasons
  have behind : late.length = rest.length := by simpa using congrArg List.length words
  rw [whole, List.length_append, List.length_append, behind]
  cases recounted <;> rfl

theorem nothing_iff (report : CallReport params args actual place early late) :
    early ++ late = [] ↔ Ty.mismatches params (.tuple actual) = [] := by
  rw [← List.length_eq_zero_iff, report.length, List.length_eq_zero_iff]

end CallReport

theorem callReport_tuple (ps : List Ty) (result : Ty) {args : List Node} {actual : List Ty}
    (same : actual.length = args.length) (target place : Span) :
    CallReport (.tuple ps) args actual place
      (calleeProblems (.function (.tuple ps) result) args.length target place)
      (argumentProblems (.function (.tuple ps) result) args actual place) where
  reasons := by
    refine ⟨_, _, Ty.mismatches_tuple ps actual, ?_, message_positionProblems ps same⟩
    rw [same, calleeProblems]
    by_cases fits : ps.length = args.length
    · rw [if_pos fits, if_pos fits]
      exact .right fun _ tuple => Ty.tuple.inj tuple ▸ fits
    · rw [if_neg fits, if_neg fits]
      exact .wrong rfl fits
  positions qs tuple := by
    obtain rfl := Ty.tuple.inj tuple
    exact positionProblems_eq ps args actual
  together other := absurd rfl (other ps)

theorem callReport_other {params : Ty} (other : ∀ ps, params ≠ .tuple ps) (result : Ty)
    (args : List Node) (actual : List Ty) (target place : Span) :
    CallReport params args actual place
      (calleeProblems (.function params result) args.length target place)
      (argumentProblems (.function params result) args actual place) := by
  have silent : calleeProblems (.function params result) args.length target place = [] := by
    cases params with
    | tuple ps => exact absurd rfl (other ps)
    | _ => rfl
  have whole : argumentProblems (.function params result) args actual place =
      misfits params (.tuple actual) place := by
    cases params with
    | tuple ps => exact absurd rfl (other ps)
    | _ => rfl
  rw [silent, whole]
  refine ⟨⟨[], _, rfl, .right fun ps tuple => absurd tuple (other ps), message_misfits _ _ _⟩,
    fun ps tuple => absurd tuple (other ps), fun _ d told => location_misfits told⟩

theorem callReport (params result : Ty) {args : List Node} {actual : List Ty}
    (same : actual.length = args.length) (target place : Span) :
    CallReport params args actual place
      (calleeProblems (.function params result) args.length target place)
      (argumentProblems (.function params result) args actual place) := by
  by_cases tuple : ∃ ps, params = .tuple ps
  · obtain ⟨ps, rfl⟩ := tuple
    exact callReport_tuple ps result same target place
  · exact callReport_other (not_exists.mp tuple) result args actual target place

/-- A call of a function finds that the number of its arguments is wrong before they are checked,
and that they do not fit afterwards; all else is what is found in its target and in its arguments,
each checked alone. What it finds itself are the reasons why the tuple of the types of the arguments
is not compatible with the type of the parameters, and it finds nothing if and only if it is. -/
theorem Checker.call_agrees {target : Node} {s : ScopeId} {c : Checker} {params result : Ty}
    (callee : (c.infer target s).1 = .function params result) (args : List Node)
    (loc : Option Span) (parent : Option Node) :
    let call : Node := .mk (.call target args) loc
    let called := checkNode target s parent (c.infer target s).2
    let actual := (called.inferAll args s).1
    let given := checkEach args s parent (called.inferAll args s).2
    let reasons := Ty.mismatches params (.tuple actual)
    ∃ inTarget early inArgs late,
      called.diagnostics = c.diagnostics ++ inTarget ∧
      given.diagnostics = called.diagnostics ++ inArgs ∧
      checkNode call s parent c = { given with
        diagnostics := c.diagnostics ++ inTarget ++ early ++ inArgs ++ late } ∧
      CallReport params args actual call.span early late ∧
      (early ++ late).length = reasons.length ∧ (early ++ late = [] ↔ reasons = []) := by
  intro call called actual given reasons
  have report := callReport params result (length_inferAll args s called.scopes) target.span
    call.span
  have inTarget : called.diagnostics = c.diagnostics ++ _ := congrArg Checker.diagnostics
    (checkNode_from target s parent (c.infer target s).2)
  have inArgs : given = _ := checkEach_from args s parent (called.inferAll args s).2
  refine ⟨_, _, _, _, inTarget, congrArg Checker.diagnostics inArgs, ?_, report, report.length,
    report.nothing_iff⟩
  rw [← inTarget]
  exact call_of_function callee args loc parent

/-- Two numbers are expected and three arguments given, the second of which is a wrong call itself:
its diagnostic stands between the count and the two misfits. -/
theorem Checker.call_agrees_nested :
    let f : Node := .mk (.ident "f") none
    let inner : Node := .mk (.call f []) (some ⟨5, 8⟩)
    let args : List Node := [.mk (.str "t") (some ⟨2, 4⟩), inner, .mk .null none]
    let call : Node := .mk (.call f args) (some ⟨0, 14⟩)
    let c := Checker.new { vars := [("f", .signature [.num, .num] .bool)] }
    let after := checkNode call ScopeTree.root none c
    (c.infer f ScopeTree.root).1 = .function (.tuple [.num, .num]) .bool ∧
    (∃ inTarget early inArgs late,
      after.diagnostics = inTarget ++ early ++ inArgs ++ late ∧
      CallReport (.tuple [.num, .num]) args [.str, .bool, .null] ⟨0, 14⟩ early late ∧
      (early ++ late).length = 3) ∧
    after.diagnostics.map (fun d => (d.message, d.location)) =
      [("Expected 2 arguments but got 3", ⟨0, 14⟩), ("Expected 2 arguments but got 0", ⟨5, 8⟩),
        ("Type 'str' is not assignable to type 'num'", ⟨2, 4⟩),
        ("Type 'bool' is not assignable to type 'num'", ⟨5, 8⟩)] := by
  intro f inner args call c after
  have callee : (c.infer f ScopeTree.root).1 = .function (.tuple [.num, .num]) .bool := by
    decide +kernel
  have three : (Ty.mismatches (.tuple [.num, .num]) (.tuple [.str, .bool, .null])).length = 3 := by
    decide +kernel
  obtain ⟨inTarget, early, inArgs, late, _, _, whole, report, count, _⟩ :=
    call_agrees callee args (some ⟨0, 14⟩) none
  refine ⟨callee, ⟨inTarget, early, inArgs, late, ?_, report, count.trans three⟩, by decide +kernel⟩
  exact congrArg Checker.diagnostics whole

end ScriptCheck
