import ScriptCheck.Proofs.Isolation

/-! The table of scopes is one way to run the checker that passes its environment along. At every
moment the scope at hand holds the names of the region, and the chain behind it answers as the
lookups from around the region do; scopes that are left over in the table are never seen again. -/
namespace ScriptCheck
open ScopeTree

namespace Checker

/-- Scope `s` stands for a region with names `b` inside surroundings `v`. -/
structure Stands (c : Checker) (s : Nat) (v : Lookups) (b : Bindings) : Prop where
  nested : c.scopes.Nested
  inside : s < c.scopes.size
  around : c.scopes.outside s = v
  locals : (c.scopes.scope s).vars = b

/-- From `c` to `c'` happened in scope `s` what the outcome tells. -/
structure Follows (s : Nat) (v : Lookups) (c c' : Checker) (o : Outcome) : Prop where
  stands : c'.Stands s v o.locals
  diagnostics : c'.diagnostics = c.diagnostics ++ o.found

namespace Stands

variable {c c' : Checker} {s : Nat} {v : Lookups} {b : Bindings}

theorem view (here : c.Stands s v b) : c.scopes.view s = v.extend b := by
  rw [view_eq c.scopes here.nested here.inside, here.around, here.locals]

theorem keep (here : c.Stands s v b) (keeps : Keeps s c.scopes c'.scopes) : c'.Stands s v b where
  nested := keeps.nested here.nested
  inside := keeps.inside here.inside
  around := by rw [keeps.outside here.nested here.inside, here.around]
  locals := by rw [keeps.vars, here.locals]

theorem infer_fst (here : c.Stands s v b) (n : Node) : (c.infer n s).1 = typeOf n (v.extend b) := by
  have agrees := (infer_agrees n here.inside).agrees here.nested
  rw [here.view] at agrees
  exact agrees

theorem infer (here : c.Stands s v b) (n : Node) : (c.infer n s).2.Stands s v b :=
  here.keep (infer_keeps n here.inside)

theorem inferAll_fst (here : c.Stands s v b) (ns : List Node) :
    (c.inferAll ns s).1 = typeOfAll ns (v.extend b) := by
  have agrees := (inferAll_agrees ns here.inside).agrees here.nested
  rw [here.view] at agrees
  exact agrees

theorem inferAll (here : c.Stands s v b) (ns : List Node) : (c.inferAll ns s).2.Stands s v b :=
  here.keep (inferAll_keeps ns here.inside)

theorem bind (here : c.Stands s v b) (name : String) (u : Ty) :
    (c.bind s name u).Stands s v (b.set name u) := by
  have binds := bind_binds here.inside name u
  refine ⟨binds.nested here.nested, binds.inside here.inside, ?_, ?_⟩
  · rw [binds.outside here.nested here.inside, here.around]
  · rw [← here.locals]
    exact congrArg Scope.vars ((scope_setVariable c.scopes here.inside name u s).trans (if_pos rfl))

theorem enter (here : c.Stands s v b) {inner : Nat} (region : Region inner s c.scopes c'.scopes)
    {own : Bindings} (vars : (c'.scopes.scope inner).vars = own) :
    c'.Stands inner (v.extend b) own where
  nested := region.keeps.nested here.nested
  inside := region.inside
  around := by rw [region.outside here.nested here.inside, here.view]
  locals := vars

theorem opened (here : c.Stands s v b) :
    (c.openChild s).2.Stands (c.openChild s).1 (v.extend b) [] :=
  here.enter (openChild_region here.inside)
    (congrArg Scope.vars ((scope_openChild c.scopes s c.scopes.size).trans (if_pos rfl)))

theorem params (here : c.Stands s v b) (params : List Param) :
    ((c.openChild s).2.bindParams params s (c.openChild s).1).Stands (c.openChild s).1
      (v.extend b) (bindAll params (typeOfParams params (v.extend b)) []) := by
  have bound := inferParams_binds params here.inside (openChild_region here.inside)
  have own := bound.vars
  rw [bound.agrees here.nested, here.view, here.opened.locals] at own
  exact here.enter bound.region own

theorem exportFrom (here : c.Stands s v b) (inner : ScopeId) (ns : String) :
    (c.exportFrom inner s ns).Stands s v (exported ns (c.scopes.scope inner).vars b) := by
  have binds := exportFrom_binds inner ns here.inside
  refine ⟨binds.nested here.nested, binds.inside here.inside, ?_, ?_⟩
  · rw [binds.outside here.nested here.inside, here.around]
  · rw [exportFrom_vars inner ns here.inside, here.locals]

theorem tell (here : c.Stands s v b) (more : List Diagnostic) : (c.tell more).Stands s v b :=
  ⟨here.nested, here.inside, here.around, here.locals⟩

end Stands

namespace Follows

variable {c d e : Checker} {s : Nat} {v : Lookups} {b : Bindings} {o : Outcome}

theorem stay (here : c.Stands s v b) : Follows s v c c ⟨b, []⟩ := ⟨here, by simp⟩

theorem tell (here : c.Stands s v b) (more : List Diagnostic) :
    Follows s v c (c.tell more) ⟨b, more⟩ := ⟨here.tell more, rfl⟩

theorem bind (first : Follows s v c d o) (name : String) (u : Ty) :
    Follows s v c (d.bind s name u) ⟨o.locals.set name u, o.found⟩ :=
  ⟨first.stands.bind name u, first.diagnostics⟩

theorem andThen (first : Follows s v c d o) {next : Bindings → Outcome}
    (second : Follows s v d e (next o.locals)) : Follows s v c e (o.andThen next) :=
  ⟨second.stands, by simp [second.diagnostics, first.diagnostics, Outcome.andThen]⟩

theorem also (first : Follows s v c d o) (more : List Diagnostic) :
    Follows s v c (d.tell more) (o.also more) :=
  ⟨first.stands.tell more, by simp [Checker.tell, first.diagnostics, Outcome.also]⟩

theorem afterInfer {n : Node} (rest : Follows s v (c.infer n s).2 d o) : Follows s v c d o :=
  ⟨rest.stands, rest.diagnostics⟩

theorem afterInferAll {ns : List Node} (rest : Follows s v (c.inferAll ns s).2 d o) :
    Follows s v c d o := ⟨rest.stands, rest.diagnostics⟩

theorem leave (here : c.Stands s v b) (keeps : Keeps s c.scopes e.scopes) {inner : Nat}
    {w : Lookups} (body : Follows inner w d e o) (told : d.diagnostics = c.diagnostics) :
    Follows s v c e (o.leave b) :=
  ⟨here.keep keeps, by rw [body.diagnostics, told, Outcome.leave]⟩

end Follows

theorem exportFrom_diagnostics (c : Checker) (inner s : ScopeId) (ns : String) :
    (c.exportFrom inner s ns).diagnostics = c.diagnostics := by
  unfold exportFrom
  generalize (c.scopes.scope inner).vars = members
  induction members generalizing c with
  | nil => rfl
  | cons entry rest ih => rw [List.foldl_cons, ih]; rfl

def Faithful (n : Node) : Prop :=
  ∀ (s : Nat) (v : Lookups) (parent : Option Node) (b : Bindings) (c : Checker), c.Stands s v b →
    Follows s v c (checkNode n s parent c) (walk n v parent b)

theorem checkEach_follows {ns : List Node} (each : ∀ n ∈ ns, Faithful n) {s : Nat} {v : Lookups}
    (parent : Option Node) {b : Bindings} {c : Checker} (here : c.Stands s v b) :
    Follows s v c (checkEach ns s parent c) (walkEach ns v parent b) := by
  induction ns generalizing c b with
  | nil => exact .stay here
  | cons n rest ih =>
    have first := each n List.mem_cons_self s v parent b c here
    exact first.andThen (ih (fun m h => each m (List.mem_cons_of_mem _ h)) first.stands)

theorem checkReturn_follows (n : Node) {s : Nat} {v : Lookups} (parent : Option Node)
    {b : Bindings} {c : Checker} (here : c.Stands s v b) :
    Follows s v c (c.checkReturn n s parent) ⟨b, returnProblems n (v.extend b) parent⟩ := by
  obtain ⟨kind, loc⟩ := n
  cases parent with
  | none => exact .stay here
  | some f =>
    obtain ⟨outer, place⟩ := f
    cases outer with
    | function params result body =>
      cases kind with
      | ret value =>
        have type := here.infer_fst (.mk (.function params result body) place)
        have after := here.infer (.mk (.function params result body) place)
        have same : (c.infer (.mk (.function params result body) place) s).2.diagnostics =
          c.diagnostics := rfl
        simp only [checkReturn, returnProblems, Node.kind, typeOf_function] at type ⊢
        generalize c.infer (.mk (.function params result body) place) s = answer at type after same
        obtain ⟨u, d⟩ := answer
        obtain rfl : u = _ := type
        have told := Follows.tell (after.infer value)
          (misfits (resultType params result body (v.extend b)) (d.infer value s).1
            (value.loc.getD (Node.mk (.ret value) loc).span))
        rw [← after.infer_fst value]
        exact ⟨told.stands, told.diagnostics.trans (by rw [← same]; rfl)⟩
      | _ => exact .stay here
    | _ => exact .stay here

theorem checkBlock_follows {ns : List Node} (each : ∀ n ∈ ns, Faithful n) {s : Nat} {v : Lookups}
    (parent : Option Node) {b : Bindings} {c : Checker} (here : c.Stands s v b) :
    Follows s v c (checkBlock ns s parent c) (walkBlock ns v parent b) := by
  induction ns generalizing c b with
  | nil => exact .stay here
  | cons n rest ih =>
    have first := each n List.mem_cons_self s v parent b c here
    have returned := checkReturn_follows n parent first.stands
    exact first.andThen (returned.andThen
      (ih (fun m h => each m (List.mem_cons_of_mem _ h)) returned.stands))

theorem Faithful.leave {n : Node} (faithful : Faithful n) {s inner : Nat} {v : Lookups}
    (parent : Option Node) {b own : Bindings} {c d : Checker} (here : c.Stands s v b)
    (entered : d.Stands inner (v.extend b) own) (region : Region inner s c.scopes d.scopes)
    (told : d.diagnostics = c.diagnostics) :
    Follows s v c (checkNode n inner parent d) ((walk n (v.extend b) parent own).leave b) :=
  (faithful inner _ parent own d entered).leave here
    ((isolates n).keeps parent here.inside region) told

theorem checkBlock_leave {ns : List Node} (each : ∀ n ∈ ns, Faithful n) {s inner : Nat}
    {v : Lookups} (parent : Option Node) {b own : Bindings} {c d : Checker}
    (here : c.Stands s v b) (entered : d.Stands inner (v.extend b) own)
    (region : Region inner s c.scopes d.scopes) (told : d.diagnostics = c.diagnostics) :
    Follows s v c (checkBlock ns inner parent d)
      ((walkBlock ns (v.extend b) parent own).leave b) :=
  (checkBlock_follows each parent entered).leave here
    (checkBlock_keeps (fun m _ => isolates m) parent here.inside region) told

theorem checkIsolated_follows {ns : List Node} (each : ∀ n ∈ ns, Faithful n) {s : Nat}
    {v : Lookups} (parent : Option Node) {b : Bindings} {c : Checker} (here : c.Stands s v b) :
    Follows s v c (checkIsolated ns s parent c) (walkIsolated ns v parent b) := by
  induction ns generalizing c b with
  | nil => exact .stay here
  | cons n rest ih =>
    have first := (each n List.mem_cons_self).leave parent here here.opened
      (openChild_region here.inside) rfl
    exact first.andThen (ih (fun m h => each m (List.mem_cons_of_mem _ h)) first.stands)

theorem faithful (n : Node) : Faithful n := by
  induction n using Node.ruleInduction with
  | define name annotation value mutable loc ih =>
    intro s v parent b c here
    have actual := here.infer_fst value
    have checked := (ih s v parent b _ (here.infer value)).afterInfer
    simp only [checkNode, walk, ← actual]
    cases annotation with
    | none => exact checked.andThen ((Follows.stay checked.stands).bind name _)
    | some d =>
      refine checked.andThen ?_
      simp only [← checked.stands.infer_fst d]
      exact ((Follows.tell (checked.stands.infer d) _).bind name _).afterInfer
  | assign dest value loc ih =>
    intro s v parent b c here
    have checked := ih s v parent b _ ((here.infer dest).infer value)
    simp only [checkNode, walk, ← here.infer_fst dest, ← (here.infer dest).infer_fst value]
    exact ((checked.afterInfer).afterInfer).also _
  | adjust how dest value loc ih =>
    intro s v parent b c here
    have checked := ih s v parent b _ ((here.infer dest).infer value)
    simp only [checkNode, walk, ← here.infer_fst dest, ← (here.infer dest).infer_fst value,
      compare_eq, tell_tell]
    exact ((checked.afterInfer).afterInfer).also _
  | call target args loc ih each =>
    intro s v parent b c here
    rw [checkNode_call]
    have checked := (ih s v parent b _ (here.infer target)).afterInfer
    simp only [walk, here.infer_fst target]
    generalize typeOf target (v.extend b) = callee
    have told := checked.also
      (calleeProblems callee args.length target.span (loc.getD Span.none))
    refine told.andThen ?_
    generalize (checkNode target s parent (c.infer target s).2).tell _ = d at told
    cases function : callee.isFunction with
    | false =>
      simp only [function, argumentProblems_of_not_function, Outcome.also_nil]
      exact checkEach_follows each parent told.stands
    | true =>
      have rest := checkEach_follows each parent (told.stands.inferAll args)
      have types := told.stands.inferAll_fst args
      simp only [if_true, ← types]
      exact rest.afterInferAll.also _
  | forLoop var low high times body loc each ih =>
    intro s v parent b c here
    rw [checkNode_forLoop, walk_forLoop]
    have bounds := checkEach_follows each parent here
    refine bounds.andThen ?_
    dsimp only
    generalize checkEach (low.toList ++ high.toList ++ times.toList) s parent c = d at bounds
    have here := bounds.stands
    have region := openChild_region here.inside
    cases var with
    | none => exact ih.leave parent here here.opened region rfl
    | some name =>
      exact ih.leave parent here (here.opened.bind name .num)
        (bind_region name .num here.inside region) rfl
  | eachLoop var items body loc first ih =>
    intro s v parent b c here
    have before := first s v parent b c here
    refine before.andThen ?_
    have here := before.stands
    exact ih.leave parent here (here.opened.bind var .any)
      (bind_region var .any here.inside (openChild_region here.inside)) rfl
  | loop body loc each =>
    intro s v parent b c here
    exact checkBlock_leave each (some (.mk (.loop body) loc)) here here.opened
      (openChild_region here.inside) rfl
  | block body loc each =>
    intro s v parent b c here
    exact checkBlock_leave each parent here here.opened (openChild_region here.inside) rfl
  | ifElse cond yes elseifs no loc each =>
    intro s v parent b c here
    rw [checkNode_ifElse, walk_ifElse]
    exact checkIsolated_follows each parent here
  | ns name members loc each =>
    intro s v parent b c here
    have body := checkBlock_follows each parent here.opened
    have left := checkBlock_leave each parent here here.opened (openChild_region here.inside) rfl
    have shown := left.stands.exportFrom (c.openChild s).1 name
    rw [body.stands.locals] at shown
    exact ⟨shown, (exportFrom_diagnostics _ _ _ _).trans body.diagnostics⟩
  | function params result body loc each =>
    intro s v parent b c here
    exact checkBlock_leave each (some (.mk (.function params result body) loc)) here
      (here.params params) (bindParams_region params here.inside (openChild_region here.inside)) rfl
  | inline kind loc ms passes each =>
    intro s v parent b c here
    rw [checkNode_inline passes, walk_inline passes]
    exact checkEach_follows each parent here

theorem new_stands (globals : Scope) :
    (Checker.new globals).Stands root (Lookups.ofGlobals globals) [] where
  nested := new_nested globals
  inside := Nat.zero_lt_one
  around := by
    have outer (f : Scope → Option Ty) : [globals].findSome? f = f globals := by
      simp only [List.findSome?_cons, List.findSome?_nil]
      cases f globals <;> rfl
    have type (x : String) : (ScopeTree.new globals).getType root x = globals.types.get? x := by
      have inside : root < (ScopeTree.new globals).size := Nat.zero_lt_one
      rw [getType_eq _ (new_nested globals) inside]
      exact outer fun scope => scope.types.get? x
    simp only [Checker.new, outside, Lookups.ofGlobals, Lookups.mk.injEq]
    exact ⟨funext fun x => outer _, funext type⟩
  locals := rfl

theorem checkBlock_root (p : Program) (globals : Scope) :
    Follows root (Lookups.ofGlobals globals) (Checker.new globals)
      (checkBlock p root none (Checker.new globals)) (p.walk globals) :=
  checkBlock_follows (fun n _ => faithful n) none (new_stands globals)

end Checker

theorem Program.check_eq (p : Program) (globals : Scope) :
    p.check globals = (p.walk globals).found := by
  have follows := (Checker.checkBlock_root p globals).diagnostics
  rwa [Checker.new, List.nil_append] at follows

/-- The checker with its table of scopes finds what the checker without one finds, in the same
order, and the root is left with the same names and types in the same order. -/
theorem Program.check_refines_walk (p : Program) (globals : Scope) :
    let checked := (Checker.new globals).checkProgram p
    checked.1 = (p.walk globals).found ∧
      (checked.2.scopes.scope root).vars = (p.walk globals).locals :=
  ⟨p.check_eq globals, (Checker.checkBlock_root p globals).stands.locals⟩

end ScriptCheck
