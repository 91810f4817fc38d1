import ScriptCheck.Proofs.FirstReturn
import ScriptCheck.Proofs.Rules

/-! Only the names that a program mentions matter. Two runs that start from different globals are
laid side by side: as long as the globals agree on every name that stands in the program, the two
tables of scopes never differ, whatever names are bound on the way and from wherever a function is
inferred again. -/
namespace ScriptCheck

/-- Both scopes say the same about every name that is mentioned somewhere in the node. -/
structure Scope.AgreeOn (g h : Scope) (n : Node) : Prop where
  vars : ∀ name loc, Node.Within (.mk (.ident name) loc) n → g.vars.get? name = h.vars.get? name
  types : ∀ name inner loc, Node.Within (.mk (.namedType name inner) loc) n →
    g.types.get? name = h.types.get? name

theorem Scope.AgreeOn.within {g h : Scope} {n m : Node} (agree : g.AgreeOn h n)
    (inside : m.Within n) : g.AgreeOn h m where
  vars name loc deeper := agree.vars name loc (deeper.trans inside)
  types name inner loc deeper := agree.types name inner loc (deeper.trans inside)

theorem Scope.AgreeOn.part {g h : Scope} {n p : Node} (agree : g.AgreeOn h n)
    (direct : p ∈ n.kind.parts) : g.AgreeOn h p := agree.within (.part direct .self)

/-- The same scopes, with globals `g` around them in one table and `h` in the other. -/
structure ScopeTree.Twins (g h : Scope) (t t' : ScopeTree) : Prop where
  left : t.globals = g
  right : t'.globals = h
  scopes : t'.scopes = t.scopes

namespace ScopeTree.Twins

variable {g h : Scope} {t t' : ScopeTree}

theorem new (g h : Scope) : Twins g h (ScopeTree.new g) (ScopeTree.new h) := ⟨rfl, rfl, rfl⟩

theorem size (twins : Twins g h t t') : t'.size = t.size := congrArg Array.size twins.scopes

theorem scope (twins : Twins g h t t') (s : ScopeId) : t'.scope s = t.scope s := by
  simp only [ScopeTree.scope, twins.scopes]

theorem chain (twins : Twins g h t t') (s : ScopeId) : t'.chain s = t.chain s := by
  have within (bound : Nat) : ∀ s, t'.chainWithin bound s = t.chainWithin bound s := by
    induction bound with
    | zero => intro s; rfl
    | succ bound ih =>
      intro s
      simp only [chainWithin, twins.scopes, ih]
  exact within (s + 1) s

theorem getVariable (twins : Twins g h t t') {name : String}
    (same : g.vars.get? name = h.vars.get? name) (s : ScopeId) :
    t'.getVariable s name = t.getVariable s name := by
  simp only [ScopeTree.getVariable, List.findSome?_append, List.findSome?_cons,
    twins.chain, twins.left, twins.right, same]

theorem getType (twins : Twins g h t t') {name : String}
    (same : g.types.get? name = h.types.get? name) (s : ScopeId) :
    t'.getType s name = t.getType s name := by
  simp only [ScopeTree.getType, List.findSome?_append, List.findSome?_cons,
    twins.chain, twins.left, twins.right, same]

theorem setVariable (twins : Twins g h t t') (s : ScopeId) (name : String) (u : Ty) :
    Twins g h (t.setVariable s name u) (t'.setVariable s name u) := by
  refine ⟨twins.left, twins.right, ?_⟩
  simp only [ScopeTree.setVariable, twins.scopes]

theorem openChild (twins : Twins g h t t') (s : ScopeId) :
    Twins g h (t.openChild s).2 (t'.openChild s).2 := by
  refine ⟨twins.left, twins.right, ?_⟩
  simp only [ScopeTree.openChild, twins.scopes]

end ScopeTree.Twins

open ScopeTree (Twins)

structure Echoes {α : Type} (g h : Scope) (answer answer' : α × ScopeTree) : Prop where
  same : answer'.1 = answer.1
  twins : Twins g h answer.2 answer'.2

section Inference

variable {g h : Scope} {t t' : ScopeTree}

theorem Echoes.still {α : Type} (twins : Twins g h t t') (a : α) :
    Echoes g h (a, t) (a, t') := ⟨rfl, twins⟩

def Indifferent (g h : Scope) (n : Node) : Prop :=
  ∀ s {t t'}, Twins g h t t' → Echoes g h (infer n s t) (infer n s t')

theorem inferAll_echoes {ns : List Node} (each : ∀ n ∈ ns, Indifferent g h n) (s : ScopeId)
    (twins : Twins g h t t') : Echoes g h (inferAll ns s t) (inferAll ns s t') := by
  induction ns generalizing t t' with
  | nil => exact .still twins []
  | cons n rest ih =>
    obtain ⟨head, tail⟩ := List.forall_mem_cons.mp each
    have first := head s twins
    have others := ih tail first.twins
    refine ⟨?_, others.twins⟩
    simp only [inferAll, first.same, others.same]

theorem inferParams_echoes {params : List Param}
    (each : ∀ n ∈ params.flatMap fun p => p.declared.toList, Indifferent g h n) (s inner : ScopeId)
    (twins : Twins g h t t') :
    Echoes g h (inferParams params s inner t) (inferParams params s inner t') := by
  induction params generalizing t t' with
  | nil => exact .still twins []
  | cons p rest ih =>
    obtain ⟨name, declared⟩ := p
    simp only [List.flatMap_cons, List.forall_mem_append, Param.declared] at each
    cases declared with
    | none =>
      have others := ih each.2 (twins.setVariable inner name .any)
      refine ⟨?_, others.twins⟩
      simp only [inferParams, others.same]
    | some n =>
      have first := each.1 n (by simp) s twins
      have others := ih each.2 (first.twins.setVariable inner name (infer n s t).1)
      have bound := first.same
      refine ⟨?_, ?_⟩
      · simp only [inferParams, bound, others.same]
      · simp only [inferParams, bound]
        exact others.twins

theorem infer_function_echoes {params : List Param} {result : Option Node} {body : List Node}
    (each : ∀ n ∈ (Kind.function params result body).parts, Indifferent g h n)
    (value : ∀ e, firstReturn body = some e → Indifferent g h e) (loc : Option Span)
    (s : ScopeId) (twins : Twins g h t t') :
    Echoes g h (infer (.mk (.function params result body) loc) s t)
      (infer (.mk (.function params result body) loc) s t') := by
  simp only [Kind.parts, List.forall_mem_append] at each
  obtain ⟨⟨annotations, returned⟩, -⟩ := each
  have inner : (t'.openChild s).1 = (t.openChild s).1 := twins.size
  have bound := inferParams_echoes annotations s (t.openChild s).1 (twins.openChild s)
  cases result with
  | some declared =>
    have answer := returned declared (by simp) s bound.twins
    simp only [infer, inner]
    exact ⟨by rw [bound.same, answer.same], answer.twins⟩
  | none =>
    simp only [infer, inner, inferReturn_eq]
    cases found : firstReturn body with
    | none => exact ⟨by rw [bound.same]; rfl, bound.twins⟩
    | some e =>
      have echo := value e found (t.openChild s).1 bound.twins
      refine ⟨?_, echo.twins⟩
      simp only [bound.same, Option.map_some, Option.getD_some, echo.same]

theorem indifferent {n : Node} (agree : g.AgreeOn h n) : Indifferent g h n := by
  induction n using Node.valueInduction with
  | step n ih valued =>
    have each : ∀ m ∈ n.kind.parts, Indifferent g h m := fun m direct =>
      ih m direct (agree.part direct)
    have value (e : Node) (found : n.kind.returned = some e) : Indifferent g h e := by
      obtain ⟨p, direct, inside⟩ := n.returned_part found
      exact valued e found (agree.within (.part direct inside))
    obtain ⟨kind, loc⟩ := n
    change ∀ m ∈ kind.parts, Indifferent g h m at each
    intro s t t' twins
    cases kind with
    | ident name =>
      have same := twins.getVariable (agree.vars name loc .self) s
      exact ⟨by simp only [infer, same], twins⟩
    | namedType name inner =>
      have same := twins.getType (agree.types name inner loc .self) s
      exact ⟨by simp only [infer, same], twins⟩
    | fnType params result =>
      simp only [Kind.parts, List.forall_mem_append, List.forall_mem_singleton] at each
      have types := inferAll_echoes each.1 s twins
      have last := each.2 s types.twins
      refine ⟨?_, last.twins⟩
      simp only [infer, types.same, last.same]
    | function params result body => exact infer_function_echoes each value loc s twins
    | call target args =>
      have callee := each target (by simp [Kind.parts]) s twins
      simp only [infer]
      generalize infer target s t = answer at callee
      generalize infer target s t' = answer' at callee
      obtain ⟨u, w⟩ := answer
      obtain ⟨u', w'⟩ := answer'
      obtain rfl : u' = u := callee.same
      cases u' with
      | function params result => exact ⟨rfl, callee.twins⟩
      | name text => exact ⟨rfl, callee.twins⟩
      | tuple items => exact ⟨rfl, callee.twins⟩
      | union members => exact ⟨rfl, callee.twins⟩
    | _ => exact .still twins _

end Inference

namespace Checker

structure Twins (g h : Scope) (c c' : Checker) : Prop where
  scopes : ScopeTree.Twins g h c.scopes c'.scopes
  diagnostics : c'.diagnostics = c.diagnostics

namespace Twins

variable {g h : Scope} {c c' : Checker}

theorem tell (twins : Twins g h c c') (more : List Diagnostic) :
    Twins g h (c.tell more) (c'.tell more) :=
  ⟨twins.scopes, by simp only [Checker.tell, twins.diagnostics]⟩

theorem bind (twins : Twins g h c c') (s : ScopeId) (name : String) (u : Ty) :
    Twins g h (c.bind s name u) (c'.bind s name u) :=
  ⟨twins.scopes.setVariable s name u, twins.diagnostics⟩

theorem opened (twins : Twins g h c c') (s : ScopeId) : (c'.openChild s).1 = (c.openChild s).1 :=
  twins.scopes.size

theorem openChild (twins : Twins g h c c') (s : ScopeId) :
    Twins g h (c.openChild s).2 (c'.openChild s).2 :=
  ⟨twins.scopes.openChild s, twins.diagnostics⟩

theorem inferred (twins : Twins g h c c') {n : Node} (agree : g.AgreeOn h n) (s : ScopeId) :
    (c'.infer n s).1 = (c.infer n s).1 :=
  (indifferent agree s twins.scopes).same

theorem infer (twins : Twins g h c c') {n : Node} (agree : g.AgreeOn h n) (s : ScopeId) :
    Twins g h (c.infer n s).2 (c'.infer n s).2 :=
  ⟨(indifferent agree s twins.scopes).twins, twins.diagnostics⟩

theorem inferredAll (twins : Twins g h c c') {ns : List Node} (agree : ∀ n ∈ ns, g.AgreeOn h n)
    (s : ScopeId) : (c'.inferAll ns s).1 = (c.inferAll ns s).1 :=
  (inferAll_echoes (fun n there => indifferent (agree n there)) s twins.scopes).same

theorem inferAll (twins : Twins g h c c') {ns : List Node} (agree : ∀ n ∈ ns, g.AgreeOn h n)
    (s : ScopeId) : Twins g h (c.inferAll ns s).2 (c'.inferAll ns s).2 :=
  ⟨(inferAll_echoes (fun n there => indifferent (agree n there)) s twins.scopes).twins,
    twins.diagnostics⟩

theorem bindParams (twins : Twins g h c c') {params : List Param}
    (agree : ∀ n ∈ params.flatMap fun p => p.declared.toList, g.AgreeOn h n) (s inner : ScopeId) :
    Twins g h (c.bindParams params s inner) (c'.bindParams params s inner) :=
  ⟨(inferParams_echoes (fun n there => indifferent (agree n there)) s inner twins.scopes).twins,
    twins.diagnostics⟩

theorem exportFrom (twins : Twins g h c c') (inner s : ScopeId) (ns : String) :
    Twins g h (c.exportFrom inner s ns) (c'.exportFrom inner s ns) := by
  unfold Checker.exportFrom
  rw [twins.scopes.scope]
  generalize (c.scopes.scope inner).vars = members
  induction members generalizing c c' with
  | nil => exact twins
  | cons entry rest ih => exact ih (twins.bind s (ns ++ ":" ++ entry.1) entry.2)

theorem checkReturn (twins : Twins g h c c') {n : Node} (agree : g.AgreeOn h n) (s : ScopeId)
    {parent : Option Node} (around : ∀ f ∈ parent, g.AgreeOn h f) :
    Twins g h (c.checkReturn n s parent) (c'.checkReturn n s parent) := by
  obtain ⟨kind, loc⟩ := n
  cases parent with
  | none => exact twins
  | some f =>
    obtain ⟨outer, place⟩ := f
    cases outer with
    | function params result body =>
      cases kind with
      | ret value =>
        have function := around _ rfl
        have returned : g.AgreeOn h value := agree.part (by simp [Node.kind, Kind.parts])
        have same := twins.inferred function s
        have typed := twins.infer function s
        simp only [Checker.checkReturn, Node.kind]
        generalize c.infer (.mk (.function params result body) place) s = answer at same typed
        generalize c'.infer (.mk (.function params result body) place) s = answer' at same typed
        obtain ⟨u, d⟩ := answer
        obtain ⟨u', d'⟩ := answer'
        obtain rfl : u' = u := same
        cases u' with
        | function params expected =>
          simp only [compare_eq, typed.inferred returned s]
          exact (typed.infer returned s).tell _
        | _ => exact typed
      | _ => exact twins
    | _ => exact twins

end Twins

variable {g h : Scope}

def Unswayed (g h : Scope) (n : Node) : Prop :=
  ∀ (s : ScopeId) (parent : Option Node) (c c' : Checker), (∀ f ∈ parent, g.AgreeOn h f) →
    Twins g h c c' → Twins g h (checkNode n s parent c) (checkNode n s parent c')

theorem checkEach_twins {ns : List Node} (each : ∀ n ∈ ns, Unswayed g h n) (s : ScopeId)
    {parent : Option Node} {c c' : Checker} (around : ∀ f ∈ parent, g.AgreeOn h f)
    (twins : Twins g h c c') :
    Twins g h (checkEach ns s parent c) (checkEach ns s parent c') := by
  induction ns generalizing c c' with
  | nil => exact twins
  | cons n rest ih =>
    obtain ⟨head, tail⟩ := List.forall_mem_cons.mp each
    exact ih tail (head s parent c c' around twins)

theorem checkBlock_twins {ns : List Node} (agree : ∀ n ∈ ns, g.AgreeOn h n)
    (each : ∀ n ∈ ns, Unswayed g h n) (s : ScopeId) {parent : Option Node} {c c' : Checker}
    (around : ∀ f ∈ parent, g.AgreeOn h f) (twins : Twins g h c c') :
    Twins g h (checkBlock ns s parent c) (checkBlock ns s parent c') := by
  induction ns generalizing c c' with
  | nil => exact twins
  | cons n rest ih =>
    obtain ⟨head, tail⟩ := List.forall_mem_cons.mp each
    obtain ⟨here, later⟩ := List.forall_mem_cons.mp agree
    have checked := head s parent c c' around twins
    exact ih later tail (checked.checkReturn here s around)

theorem checkIsolated_twins {ns : List Node} (each : ∀ n ∈ ns, Unswayed g h n) (s : ScopeId)
    {parent : Option Node} {c c' : Checker} (around : ∀ f ∈ parent, g.AgreeOn h f)
    (twins : Twins g h c c') :
    Twins g h (checkIsolated ns s parent c) (checkIsolated ns s parent c') := by
  induction ns generalizing c c' with
  | nil => exact twins
  | cons n rest ih =>
    obtain ⟨head, tail⟩ := List.forall_mem_cons.mp each
    have checked := head (c.openChild s).1 parent _ _ around (twins.openChild s)
    simp only [checkIsolated, twins.opened s]
    exact ih tail checked

theorem unswayed {n : Node} (agree : g.AgreeOn h n) : Unswayed g h n := by
  induction n using Node.ruleInduction with
  | define name annotation value mutable loc ih =>
    intro s parent c c' around twins
    have written : g.AgreeOn h value := agree.part (by simp [Node.kind, Kind.parts])
    have checked := ih written s parent _ _ around (twins.infer written s)
    cases annotation with
    | none =>
      simp only [checkNode, twins.inferred written s]
      exact checked.bind s name _
    | some d =>
      have declared : g.AgreeOn h d := agree.part (by simp [Node.kind, Kind.parts])
      simp only [checkNode, twins.inferred written s, checked.inferred declared s, compare_eq]
      exact ((checked.infer declared s).tell _).bind s name _
  | assign dest value loc ih =>
    intro s parent c c' around twins
    have target : g.AgreeOn h dest := agree.part (by simp [Node.kind, Kind.parts])
    have written : g.AgreeOn h value := agree.part (by simp [Node.kind, Kind.parts])
    have typed := twins.infer target s
    have checked := ih written s parent _ _ around (typed.infer written s)
    simp only [checkNode, twins.inferred target s, typed.inferred written s, compare_eq]
    exact checked.tell _
  | adjust how dest value loc ih =>
    intro s parent c c' around twins
    have target : g.AgreeOn h dest := agree.part (by simp [Node.kind, Kind.parts])
    have written : g.AgreeOn h value := agree.part (by simp [Node.kind, Kind.parts])
    have typed := twins.infer target s
    have checked := ih written s parent _ _ around (typed.infer written s)
    simp only [checkNode, twins.inferred target s, typed.inferred written s, compare_eq]
    exact (checked.tell _).tell _
  | call target args loc ih each =>
    intro s parent c c' around twins
    have called : g.AgreeOn h target := agree.part (by simp [Node.kind, Kind.parts])
    have given : ∀ m ∈ args, g.AgreeOn h m := fun m there =>
      agree.part (List.mem_cons_of_mem _ there)
    have checked := ih called s parent _ _ around (twins.infer called s)
    rw [checkNode_call, checkNode_call, twins.inferred called s]
    dsimp only
    generalize (c.infer target s).1 = callee
    have told := checked.tell
      (calleeProblems callee args.length target.span (loc.getD Span.none))
    have arguments := fun m there => each m there (given m there)
    split
    · rw [told.inferredAll given s]
      exact (checkEach_twins arguments s around (told.inferAll given s)).tell _
    · exact checkEach_twins arguments s around told
  | forLoop var low high times body loc each ih =>
    intro s parent c c' around twins
    have inner : g.AgreeOn h body := agree.part (by simp [Node.kind, Kind.parts])
    have bounds := checkEach_twins
      (fun m there => each m there (agree.part (List.mem_append_left _ there))) s around twins
    rw [checkNode_forLoop, checkNode_forLoop]
    simp only [bounds.opened s]
    cases var with
    | none => exact ih inner _ parent _ _ around (bounds.openChild s)
    | some name => exact ih inner _ parent _ _ around ((bounds.openChild s).bind _ name .num)
  | eachLoop var items body loc first ih =>
    intro s parent c c' around twins
    have source : g.AgreeOn h items := agree.part (by simp [Node.kind, Kind.parts])
    have inner : g.AgreeOn h body := agree.part (by simp [Node.kind, Kind.parts])
    have before := first source s parent c c' around twins
    simp only [checkNode, before.opened s]
    exact ih inner _ parent _ _ around ((before.openChild s).bind _ var .any)
  | loop body loc each =>
    intro s parent c c' around twins
    have statements : ∀ m ∈ body, g.AgreeOn h m := fun m there => agree.part there
    have itself : ∀ f ∈ some (Node.mk (.loop body) loc), g.AgreeOn h f := by simpa using agree
    simp only [checkNode, twins.opened s]
    exact checkBlock_twins statements (fun m there => each m there (statements m there)) _ itself
      (twins.openChild s)
  | block body loc each =>
    intro s parent c c' around twins
    have statements : ∀ m ∈ body, g.AgreeOn h m := fun m there => agree.part there
    simp only [checkNode, twins.opened s]
    exact checkBlock_twins statements (fun m there => each m there (statements m there)) _ around
      (twins.openChild s)
  | ifElse cond yes elseifs no loc each =>
    intro s parent c c' around twins
    rw [checkNode_ifElse, checkNode_ifElse]
    exact checkIsolated_twins (fun m there => each m there (agree.part there)) s around twins
  | ns name members loc each =>
    intro s parent c c' around twins
    have statements : ∀ m ∈ members, g.AgreeOn h m := fun m there => agree.part there
    have body := checkBlock_twins statements (fun m there => each m there (statements m there))
      (c.openChild s).1 around (twins.openChild s)
    simp only [checkNode, twins.opened s]
    exact body.exportFrom _ s name
  | function params result body loc each =>
    intro s parent c c' around twins
    have parts : ∀ m ∈ (Kind.function params result body).parts, g.AgreeOn h m := fun m there =>
      agree.part there
    simp only [Kind.parts, List.forall_mem_append] at parts
    obtain ⟨⟨annotations, _⟩, statements⟩ := parts
    have itself : ∀ f ∈ some (Node.mk (.function params result body) loc), g.AgreeOn h f := by
      simpa using agree
    have bound := (twins.openChild s).bindParams annotations s (c.openChild s).1
    simp only [checkNode, twins.opened s]
    exact checkBlock_twins statements (fun m there => each m there (statements m there)) _ itself
      bound
  | inline kind loc ms passes each =>
    intro s parent c c' around twins
    rw [checkNode_inline passes, checkNode_inline passes]
    have passed : ∀ m ∈ ms, Unswayed g h m := fun m there =>
      each m there (agree.part (Kind.inline_parts passes m there))
    exact checkEach_twins passed s around twins

theorem checkBlock_root_twins {p : Program} (agree : ∀ n ∈ p, g.AgreeOn h n) :
    Twins g h (checkBlock p ScopeTree.root none (Checker.new g))
      (checkBlock p ScopeTree.root none (Checker.new h)) :=
  checkBlock_twins agree (fun n there => unswayed (agree n there)) _ nofun
    ⟨.new g h, rfl⟩

end Checker

/-- Globals that say the same about every variable and every type alias that a program mentions
lead to the same diagnostics, the same names and types in the root, and equally many scopes. -/
theorem Program.check_reads_mentioned (p : Program) (g h : Scope)
    (vars : ∀ n ∈ p, ∀ name loc, Node.Within (.mk (.ident name) loc) n →
      g.vars.get? name = h.vars.get? name)
    (types : ∀ n ∈ p, ∀ name inner loc, Node.Within (.mk (.namedType name inner) loc) n →
      g.types.get? name = h.types.get? name) :
    let checked := (Checker.new g).checkProgram p
    let checked' := (Checker.new h).checkProgram p
    checked'.1 = checked.1 ∧
      (checked'.2.scopes.scope ScopeTree.root).vars =
        (checked.2.scopes.scope ScopeTree.root).vars ∧
      checked'.2.scopes.size = checked.2.scopes.size := by
  have agree : ∀ n ∈ p, g.AgreeOn h n := fun n there => ⟨vars n there, types n there⟩
  have twins := Checker.checkBlock_root_twins agree
  refine ⟨twins.diagnostics, ?_, twins.scopes.size⟩
  exact congrArg Scope.vars (twins.scopes.scope ScopeTree.root)

theorem Program.check_reads_mentioned_namespace :
    let a : Node := .mk (.ident "a") none
    let p : Program := [.mk (.ns "n" [.mk (.define "f" none a false) none]) none,
      .mk (.call (.mk (.ident "n:f") none) [a]) none,
      .mk (.define "b" (some (.mk (.namedType "T" none) none)) a false) none]
    let g : Scope := ⟨[("a", .signature [.num] .num), ("b", .num)], [("U", .str)], none⟩
    let h : Scope := ⟨[("b", .str), ("a", .signature [.num] .num), ("n:g", .num)], [], none⟩
    g.vars.get? "b" ≠ h.vars.get? "b" ∧ g.types.get? "U" ≠ h.types.get? "U" ∧
      p.check h = p.check g ∧ (p.check g).length = 1 ∧
      ((Checker.new h).checkProgram p).2.scopes.size =
        ((Checker.new g).checkProgram p).2.scopes.size := by
  intro a p g h
  have vars : ∀ n ∈ p, ∀ name loc, Node.Within (.mk (.ident name) loc) n →
      g.vars.get? name = h.vars.get? name := by
    have mentioned : ∀ n ∈ p, ∀ name loc, Node.Within (.mk (.ident name) loc) n →
        name = "n:f" ∧ loc = none ∨ name = "a" ∧ loc = none := by
      simp [p, a, Node.within_iff, Kind.parts]
    intro n there name loc inside
    rcases mentioned n there name loc inside with ⟨rfl, -⟩ | ⟨rfl, -⟩ <;> decide
  have types : ∀ n ∈ p, ∀ name inner loc, Node.Within (.mk (.namedType name inner) loc) n →
      g.types.get? name = h.types.get? name := by
    have mentioned : ∀ n ∈ p, ∀ name inner loc, Node.Within (.mk (.namedType name inner) loc) n →
        name = "T" := by
      simp +contextual [p, a, Node.within_iff, Kind.parts]
    intro n there name inner loc inside
    obtain rfl := mentioned n there name inner loc inside
    decide
  obtain ⟨found, _, size⟩ := check_reads_mentioned p g h vars types
  exact ⟨by decide, by decide, found, by decide +kernel, size⟩

end ScriptCheck
