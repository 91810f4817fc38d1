import Mathlib.Logic.Relation
import ScriptCheck.Proofs.Dependence

/-! The moments of a run. While it checks a program the checker is called again and again, each time
for some nodes, in a scope, below a function or a loop, and with the scopes and diagnostics that it
has by then. One such visit calls the next ones; all visits of a run are reached from the first.
Names that nothing in a visit binds are seen alike wherever the visit leads, type aliases always
are, and what is found by the end of a visit is the beginning of what is found in the end. -/
namespace ScriptCheck
open ScopeTree

theorem ScopeTree.Binds.agree {s : Nat} {bound : List String} {t t' : ScopeTree}
    (binds : Binds s bound t t') (nested : t.Nested) (inside : s < t.size) :
    Lookups.Agree (· ∉ bound) (t.view s) (t'.view s) := by
  rw [view_eq t nested inside, view_eq t' (binds.nested nested) (binds.inside inside),
    binds.outside nested inside]
  exact ⟨fun x absent => by simp only [Lookups.extend, binds.kept x absent], rfl⟩

def lastDeclared : List Param → String → Option (Option Node)
  | [], _ => none
  | .mk name declared :: rest, x =>
    (lastDeclared rest x).or (if x = name then some declared else none)

theorem get?_bindAll (params : List Param) (v : Lookups) (b : Bindings) (x : String) :
    (bindAll params (typeOfParams params v) b).get? x =
      ((lastDeclared params x).map fun a => typeOfMaybe a v).or (b.get? x) := by
  induction params generalizing b with
  | nil => rfl
  | cons p rest ih =>
    obtain ⟨name, declared⟩ := p
    rw [typeOfParams, bindAll, ih, Bindings.get?_set, lastDeclared, Option.map_or, Option.or_assoc]
    by_cases same : x = name <;> simp [same, Param.name]

theorem names_bindAll {params : List Param} {v : Lookups} {x : String}
    (bound : x ∈ (bindAll params (typeOfParams params v) []).names) :
    x ∈ params.map Param.name := by
  have none {ps : List Param} (absent : x ∉ ps.map Param.name) : lastDeclared ps x = none := by
    induction ps with
    | nil => rfl
    | cons p rest ih =>
      obtain ⟨name, declared⟩ := p
      rw [List.map_cons, List.mem_cons, not_or, Param.name] at absent
      rw [lastDeclared, ih absent.2, if_neg absent.1, Option.none_or]
  by_contra absent
  have unbound := get?_bindAll params v [] x
  rw [none absent] at unbound
  exact (Bindings.get?_eq_none_iff _ x).mp unbound bound

def Kind.binds : Kind → List String
  | .define name .. => [name]
  | .forLoop var .. => var.toList
  | .eachLoop var .. => [var]
  | .ns name members => (declaredAll members).map (qualify name)
  | .function params .. => params.map Param.name
  | _ => []

/-- Somewhere in the node the name is bound. -/
def Node.Rebinds (x : String) (n : Node) : Prop := ∃ m, Node.Within m n ∧ x ∈ m.kind.binds

namespace Node.Rebinds

variable {x : String} {n : Node}

theorem own (bound : x ∈ n.kind.binds) : n.Rebinds x := ⟨n, .self, bound⟩

theorem within {m : Node} (bound : m.Rebinds x) (inside : m.Within n) : n.Rebinds x := by
  obtain ⟨k, deeper, bound⟩ := bound
  exact ⟨k, deeper.trans inside, bound⟩

theorem part {m : Node} (bound : m.Rebinds x) (direct : m ∈ n.kind.parts) : n.Rebinds x :=
  bound.within (.part direct .self)

end Node.Rebinds

theorem mem_declaredAll {x : String} {ns : List Node} :
    x ∈ declaredAll ns ↔ ∃ n ∈ ns, x ∈ declared n := by
  induction ns with
  | nil => simp [declaredAll]
  | cons n rest ih => simp [declaredAll, ih]

theorem rebinds_of_declared {x : String} {n : Node} (bound : x ∈ declared n) : n.Rebinds x := by
  induction n using Node.ruleInduction with
  | define name annotation value mutable loc ih =>
    rcases List.mem_append.mp bound with inner | here
    · exact (ih inner).part (by simp [Node.kind, Kind.parts])
    · exact .own here
  | assign dest value loc ih => exact (ih bound).part (by simp [Node.kind, Kind.parts])
  | adjust how dest value loc ih => exact (ih bound).part (by simp [Node.kind, Kind.parts])
  | call target args loc ih each =>
    rcases List.mem_append.mp bound with first | later
    · exact (ih first).part (by simp [Node.kind, Kind.parts])
    · obtain ⟨m, there, bound⟩ := mem_declaredAll.mp later
      exact (each m there bound).part (List.mem_cons_of_mem _ there)
  | forLoop var low high times body loc each ih =>
    rw [declared_forLoop] at bound
    obtain ⟨m, there, bound⟩ := mem_declaredAll.mp bound
    exact (each m there bound).part (List.mem_append_left _ there)
  | eachLoop var items body loc first ih =>
    exact (first bound).part (by simp [Node.kind, Kind.parts])
  | loop body loc each => simp [declared] at bound
  | block body loc each => simp [declared] at bound
  | ifElse cond yes elseifs no loc each => simp [declared] at bound
  | ns name members loc each =>
    rw [declared] at bound
    exact .own (by simpa [Node.kind, Kind.binds] using bound)
  | function params result body loc each => simp [declared] at bound
  | inline kind loc ms passes each =>
    rw [declared_inline passes] at bound
    obtain ⟨m, there, bound⟩ := mem_declaredAll.mp bound
    exact (each m there bound).part (Kind.inline_parts passes m there)

namespace Checker

/-- What the checker is called for: a node, nodes one after the other in the scope at hand or each
in a scope of its own, or the statements of a block. -/
inductive Task where
  | node (n : Node)
  | each (ns : List Node)
  | isolated (ns : List Node)
  | block (ns : List Node)

def Task.nodes : Task → List Node
  | node n => [n]
  | each ns | isolated ns | block ns => ns

def Task.Rebinds (x : String) (task : Task) : Prop := ∃ n ∈ task.nodes, n.Rebinds x

structure Visit where
  task : Task
  scope : ScopeId
  parent : Option Node
  state : Checker

namespace Visit

def run : Visit → Checker
  | ⟨.node n, s, parent, c⟩ => checkNode n s parent c
  | ⟨.each ns, s, parent, c⟩ => checkEach ns s parent c
  | ⟨.isolated ns, s, parent, c⟩ => checkIsolated ns s parent c
  | ⟨.block ns, s, parent, c⟩ => checkBlock ns s parent c

def view (a : Visit) : Lookups := a.state.scopes.view a.scope

def start (p : Program) (globals : Scope) : Visit := ⟨.block p, root, none, Checker.new globals⟩

/-- The checker in the middle of a call: the target has been checked and held against the
arguments, and these are to be checked next. -/
def afterTarget (target : Node) (args : List Node) (loc : Option Span) (s : ScopeId)
    (parent : Option Node) (c : Checker) : Checker :=
  let callee := (c.infer target s).1
  let d := (checkNode target s parent (c.infer target s).2).tell
    (calleeProblems callee args.length target.span (loc.getD Span.none))
  if callee.isFunction then (d.inferAll args s).2 else d

/-- The first visit calls the second one. -/
inductive Calls : Visit → Visit → Prop where
  | eachHead (n ns s parent c) : Calls ⟨.each (n :: ns), s, parent, c⟩ ⟨.node n, s, parent, c⟩
  | eachTail (n ns s parent c) :
    Calls ⟨.each (n :: ns), s, parent, c⟩ ⟨.each ns, s, parent, checkNode n s parent c⟩
  | isolatedHead (n ns s parent c) : Calls ⟨.isolated (n :: ns), s, parent, c⟩
      ⟨.node n, (c.openChild s).1, parent, (c.openChild s).2⟩
  | isolatedTail (n ns s parent c) : Calls ⟨.isolated (n :: ns), s, parent, c⟩
      ⟨.isolated ns, s, parent, checkNode n (c.openChild s).1 parent (c.openChild s).2⟩
  | blockHead (n ns s parent c) : Calls ⟨.block (n :: ns), s, parent, c⟩ ⟨.node n, s, parent, c⟩
  | blockTail (n ns s parent c) : Calls ⟨.block (n :: ns), s, parent, c⟩
      ⟨.block ns, s, parent, (checkNode n s parent c).checkReturn n s parent⟩
  | inline (kind loc ms s parent c) (passes : Kind.inline kind = some ms) :
    Calls ⟨.node (.mk kind loc), s, parent, c⟩ ⟨.each ms, s, parent, c⟩
  | define (name annotation value mutable loc s parent c) :
    Calls ⟨.node (.mk (.define name annotation value mutable) loc), s, parent, c⟩
      ⟨.node value, s, parent, (c.infer value s).2⟩
  | assign (dest value loc s parent c) : Calls ⟨.node (.mk (.assign dest value) loc), s, parent, c⟩
      ⟨.node value, s, parent, ((c.infer dest s).2.infer value s).2⟩
  | adjust (how dest value loc s parent c) :
    Calls ⟨.node (.mk (.adjust how dest value) loc), s, parent, c⟩
      ⟨.node value, s, parent, ((c.infer dest s).2.infer value s).2⟩
  | target (target args loc s parent c) :
    Calls ⟨.node (.mk (.call target args) loc), s, parent, c⟩
      ⟨.node target, s, parent, (c.infer target s).2⟩
  | args (target args loc s parent c) :
    Calls ⟨.node (.mk (.call target args) loc), s, parent, c⟩
      ⟨.each args, s, parent, afterTarget target args loc s parent c⟩
  | bounds (var low high times body loc s parent c) :
    Calls ⟨.node (.mk (.forLoop var low high times body) loc), s, parent, c⟩
      ⟨.each (low.toList ++ high.toList ++ times.toList), s, parent, c⟩
  | forBody (var low high times body loc s parent c d)
      (bounds : d = checkEach (low.toList ++ high.toList ++ times.toList) s parent c) :
    Calls ⟨.node (.mk (.forLoop var low high times body) loc), s, parent, c⟩
      ⟨.node body, (d.openChild s).1, parent, (d.openChild s).2.bindCounter (d.openChild s).1 var⟩
  | items (var items body loc s parent c) :
    Calls ⟨.node (.mk (.eachLoop var items body) loc), s, parent, c⟩ ⟨.node items, s, parent, c⟩
  | eachBody (var items body loc s parent c d) (done : d = checkNode items s parent c) :
    Calls ⟨.node (.mk (.eachLoop var items body) loc), s, parent, c⟩
      ⟨.node body, (d.openChild s).1, parent, (d.openChild s).2.bind (d.openChild s).1 var .any⟩
  | loop (body loc s parent c) : Calls ⟨.node (.mk (.loop body) loc), s, parent, c⟩
      ⟨.block body, (c.openChild s).1, some (.mk (.loop body) loc), (c.openChild s).2⟩
  | block (body loc s parent c) : Calls ⟨.node (.mk (.block body) loc), s, parent, c⟩
      ⟨.block body, (c.openChild s).1, parent, (c.openChild s).2⟩
  | ifElse (cond yes elseifs no loc s parent c) :
    Calls ⟨.node (.mk (.ifElse cond yes elseifs no) loc), s, parent, c⟩
      ⟨.isolated (cond :: yes :: (elseifs.flatMap Branch.nodes ++ no.toList)), s, parent, c⟩
  | ns (name members loc s parent c) : Calls ⟨.node (.mk (.ns name members) loc), s, parent, c⟩
      ⟨.block members, (c.openChild s).1, parent, (c.openChild s).2⟩
  | function (params result body loc s parent c) :
    Calls ⟨.node (.mk (.function params result body) loc), s, parent, c⟩
      ⟨.block body, (c.openChild s).1, some (.mk (.function params result body) loc),
        (c.openChild s).2.bindParams params s (c.openChild s).1⟩

abbrev Reaches : Visit → Visit → Prop := Relation.ReflTransGen Calls

structure Sound (a : Visit) : Prop where
  nested : a.state.scopes.Nested
  inside : a.scope < a.state.scopes.size

structure Sees (bound : List String) (a b : Visit) : Prop where
  sound : b.Sound
  agree : Lookups.Agree (· ∉ bound) a.view b.view

namespace Sees

variable {a b : Visit} {bound more : List String} {task : Task} {parent : Option Node}

theorem still (sound : a.Sound) : Sees [] a ⟨task, a.scope, parent, a.state⟩ :=
  ⟨⟨sound.nested, sound.inside⟩, .refl _ _⟩

theorem of_binds (sound : a.Sound) {c : Checker}
    (binds : Binds a.scope bound a.state.scopes c.scopes) :
    Sees bound a ⟨task, a.scope, parent, c⟩ :=
  ⟨⟨binds.nested sound.nested, binds.inside sound.inside⟩,
    binds.agree sound.nested sound.inside⟩

theorem trans (first : Sees bound a b) {c : Visit} (second : Sees more b c) :
    Sees (bound ++ more) a c := by
  refine ⟨second.sound, (first.agree.only ?_).trans (second.agree.only ?_)⟩
  · exact fun x absent here => absent (List.mem_append_left _ here)
  · exact fun x absent here => absent (List.mem_append_right _ here)

theorem enter {inner : Nat} {c : Checker} {own : Bindings} (entered : c.Stands inner a.view own) :
    Sees own.names a ⟨task, inner, parent, c⟩ := by
  refine ⟨⟨entered.nested, entered.inside⟩, ?_⟩
  change Lookups.Agree _ a.view (c.scopes.view inner)
  rw [entered.view]
  refine ⟨fun x absent => ?_, rfl⟩
  simp only [Lookups.extend, (Bindings.get?_eq_none_iff own x).mpr absent, Option.none_or]

end Sees

theorem Sound.stands {a : Visit} (sound : a.Sound) :
    a.state.Stands a.scope (a.state.scopes.outside a.scope) (a.state.scopes.scope a.scope).vars :=
  ⟨sound.nested, sound.inside, rfl, rfl⟩

theorem Sound.opened {a : Visit} (sound : a.Sound) :
    (a.state.openChild a.scope).2.Stands (a.state.openChild a.scope).1 a.view [] := by
  rw [view, sound.stands.view]
  exact sound.stands.opened

theorem Sees.counter {a : Visit} (sound : a.Sound) (var : Option String) {task : Task}
    {parent : Option Node} :
    Sees var.toList a ⟨task, (a.state.openChild a.scope).1, parent,
      (a.state.openChild a.scope).2.bindCounter (a.state.openChild a.scope).1 var⟩ := by
  cases var with
  | none => exact .enter sound.opened
  | some name => exact .enter (sound.opened.bind name .num)

theorem afterTarget_binds (target : Node) (args : List Node) (loc : Option Span) {s : ScopeId}
    (parent : Option Node) {c : Checker} (inside : s < c.scopes.size) :
    Binds s (declared target) c.scopes (afterTarget target args loc s parent c).scopes := by
  have typed := infer_keeps target inside
  have checked := typed.binds.trans inside (isolates target s parent _ (typed.inside inside))
  dsimp only [afterTarget]
  split
  · have both := checked.trans inside (inferAll_keeps args (checked.inside inside)).binds
    rw [List.append_nil] at both
    exact both
  · exact checked

theorem Calls.sees {a b : Visit} (step : Calls a b) (sound : a.Sound) :
    ∃ bound, (∀ x ∈ bound, a.task.Rebinds x) ∧ Sees bound a b := by
  have none {x : String} (impossible : x ∈ ([] : List String)) : a.task.Rebinds x :=
    absurd impossible (by simp)
  cases step with
  | eachHead n ns s parent c => exact ⟨[], fun _ => none, .still sound⟩
  | eachTail n ns s parent c =>
    refine ⟨declared n, fun x bound => ⟨n, List.mem_cons_self, rebinds_of_declared bound⟩, ?_⟩
    exact .of_binds sound (isolates n s parent c sound.inside)
  | isolatedHead n ns s parent c => exact ⟨[], fun _ => none, .enter sound.opened⟩
  | isolatedTail n ns s parent c =>
    have kept := (isolates n).keeps parent sound.inside (openChild_region sound.inside)
    exact ⟨[], fun _ => none, .of_binds sound kept.binds⟩
  | blockHead n ns s parent c => exact ⟨[], fun _ => none, .still sound⟩
  | blockTail n ns s parent c =>
    have checked := isolates n s parent c sound.inside
    have both := checked.trans sound.inside
      (checkReturn_keeps n parent (checked.inside sound.inside)).binds
    rw [List.append_nil] at both
    exact ⟨declared n, fun x bound => ⟨n, List.mem_cons_self, rebinds_of_declared bound⟩,
      .of_binds sound both⟩
  | inline kind loc ms s parent c passes => exact ⟨[], fun _ => none, .still sound⟩
  | define name annotation value mutable loc s parent c =>
    exact ⟨[], fun _ => none, .of_binds sound (infer_keeps value sound.inside).binds⟩
  | assign dest value loc s parent c =>
    exact ⟨[], fun _ => none, .of_binds sound (infer_infer_keeps dest value sound.inside).binds⟩
  | adjust how dest value loc s parent c =>
    exact ⟨[], fun _ => none, .of_binds sound (infer_infer_keeps dest value sound.inside).binds⟩
  | target target args loc s parent c =>
    exact ⟨[], fun _ => none, .of_binds sound (infer_keeps target sound.inside).binds⟩
  | args target args loc s parent c =>
    refine ⟨declared target, fun x bound => ⟨_, List.mem_singleton_self _, ?_⟩,
      .of_binds sound (afterTarget_binds target args loc parent sound.inside)⟩
    exact (rebinds_of_declared bound).part (by simp [Node.kind, Kind.parts])
  | bounds var low high times body loc s parent c => exact ⟨[], fun _ => none, .still sound⟩
  | forBody var low high times body loc s parent c d bounds =>
    subst bounds
    have checked : Binds s (declaredAll (low.toList ++ high.toList ++ times.toList)) c.scopes _ :=
      checkEach_binds (fun n _ => isolates n) parent sound.inside
    have first : Sees _ _ ⟨.node body, s, parent, _⟩ := .of_binds sound checked
    refine ⟨_, fun x bound => ⟨_, List.mem_singleton_self _, ?_⟩,
      first.trans (.counter first.sound var)⟩
    rcases List.mem_append.mp bound with before | own
    · obtain ⟨m, there, bound⟩ := mem_declaredAll.mp before
      exact (rebinds_of_declared bound).part (List.mem_append_left _ there)
    · exact .own own
  | items var items body loc s parent c => exact ⟨[], fun _ => none, .still sound⟩
  | eachBody var items body loc s parent c d done =>
    subst done
    have first : Sees _ _ ⟨.node body, s, parent, _⟩ :=
      .of_binds sound (isolates items s parent c sound.inside)
    refine ⟨_, fun x bound => ⟨_, List.mem_singleton_self _, ?_⟩,
      first.trans (.enter (first.sound.opened.bind var .any))⟩
    rcases List.mem_append.mp bound with before | own
    · exact (rebinds_of_declared before).part (by simp [Node.kind, Kind.parts])
    · exact .own own
  | loop body loc s parent c => exact ⟨[], fun _ => none, .enter sound.opened⟩
  | block body loc s parent c => exact ⟨[], fun _ => none, .enter sound.opened⟩
  | ifElse cond yes elseifs no loc s parent c => exact ⟨[], fun _ => none, .still sound⟩
  | ns name members loc s parent c => exact ⟨[], fun _ => none, .enter sound.opened⟩
  | function params result body loc s parent c =>
    have entered := sound.stands.params params
    rw [← sound.stands.view] at entered
    refine ⟨_, fun x bound => ⟨_, List.mem_singleton_self _, ?_⟩, .enter entered⟩
    exact .own (names_bindAll bound)

theorem Calls.within {a b : Visit} (step : Calls a b) :
    ∀ m ∈ b.task.nodes, ∃ n ∈ a.task.nodes, m.Within n := by
  intro m there
  have listed (same : m ∈ a.task.nodes) : ∃ n ∈ a.task.nodes, m.Within n := ⟨m, same, .self⟩
  have below {n : Node} (whole : n ∈ a.task.nodes) (direct : m ∈ n.kind.parts) :
      ∃ n ∈ a.task.nodes, m.Within n := ⟨n, whole, .part direct .self⟩
  cases step with
  | eachHead | isolatedHead | blockHead =>
    obtain rfl := List.mem_singleton.mp there
    exact listed List.mem_cons_self
  | eachTail | isolatedTail | blockTail => exact listed (List.mem_cons_of_mem _ there)
  | inline kind loc ms s parent c passes =>
    exact below (List.mem_singleton_self _) (Kind.inline_parts passes m there)
  | args => exact below (List.mem_singleton_self _) (List.mem_cons_of_mem _ there)
  | bounds => exact below (List.mem_singleton_self _) (List.mem_append_left _ there)
  | loop | block | ifElse | ns => exact below (List.mem_singleton_self _) there
  | function => exact below (List.mem_singleton_self _) (List.mem_append_right _ there)
  | _ =>
    obtain rfl := List.mem_singleton.mp there
    exact below (List.mem_singleton_self _) (by simp [Node.kind, Kind.parts])

theorem Calls.rebinds {a b : Visit} (step : Calls a b) {x : String} (bound : b.task.Rebinds x) :
    a.task.Rebinds x := by
  obtain ⟨m, there, bound⟩ := bound
  obtain ⟨n, whole, inside⟩ := step.within m there
  exact ⟨n, whole, bound.within inside⟩

theorem Reaches.rebinds {a b : Visit} (reached : Reaches a b) {x : String}
    (bound : b.task.Rebinds x) : a.task.Rebinds x := by
  induction reached with
  | refl => exact bound
  | tail _ step ih => exact ih (step.rebinds bound)

/-- Wherever a visit leads, the scopes are well nested and the names that nothing in the visit binds
are seen as they were. -/
theorem Reaches.sees {a b : Visit} (reached : Reaches a b) (sound : a.Sound) :
    b.Sound ∧ Lookups.Agree (fun x => ¬ a.task.Rebinds x) a.view b.view := by
  induction reached with
  | refl => exact ⟨sound, .refl _ _⟩
  | tail before step ih =>
    obtain ⟨between, agree⟩ := ih
    obtain ⟨bound, binds, seen⟩ := step.sees between
    refine ⟨seen.sound, agree.trans (seen.agree.only fun x free here => free ?_)⟩
    exact Reaches.rebinds before (binds x here)

theorem start_sound (p : Program) (globals : Scope) : (start p globals).Sound :=
  ⟨new_nested globals, Nat.zero_lt_one⟩

theorem run_tells {a : Visit} (sound : a.Sound) : a.state.diagnostics <+: a.run.diagnostics := by
  have here := sound.stands
  obtain ⟨task, s, parent, c⟩ := a
  cases task with
  | node n => exact ⟨_, (faithful n s _ parent _ c here).diagnostics.symm⟩
  | each ns => exact ⟨_, (checkEach_follows (fun n _ => faithful n) parent here).diagnostics.symm⟩
  | isolated ns =>
    exact ⟨_, (checkIsolated_follows (fun n _ => faithful n) parent here).diagnostics.symm⟩
  | block ns =>
    exact ⟨_, (checkBlock_follows (fun n _ => faithful n) parent here).diagnostics.symm⟩

theorem checkReturn_tells {a : Visit} (sound : a.Sound) (n : Node) :
    a.state.diagnostics <+: (a.state.checkReturn n a.scope a.parent).diagnostics :=
  ⟨_, (checkReturn_follows n a.parent sound.stands).diagnostics.symm⟩

theorem tell_tells (c : Checker) (more : List Diagnostic) :
    c.diagnostics <+: (c.tell more).diagnostics := List.prefix_append ..

theorem afterTarget_tells (target : Node) (args : List Node) (loc : Option Span) (s : ScopeId)
    (parent : Option Node) (c : Checker) :
    (checkNode target s parent (c.infer target s).2).diagnostics <+:
      (afterTarget target args loc s parent c).diagnostics := by
  dsimp only [afterTarget]
  split <;> exact tell_tells _ _

theorem args_tell (target : Node) (args : List Node) (loc : Option Span) (s : ScopeId)
    (parent : Option Node) (c : Checker) :
    (checkEach args s parent (afterTarget target args loc s parent c)).diagnostics <+:
      (checkNode (.mk (.call target args) loc) s parent c).diagnostics := by
  rw [checkNode_call]
  dsimp only [afterTarget]
  split
  · exact tell_tells _ _
  · exact List.prefix_rfl

theorem bindCounter_diagnostics (c : Checker) (inner : ScopeId) (var : Option String) :
    (c.bindCounter inner var).diagnostics = c.diagnostics := by
  cases var <;> rfl

/-- What has been found by the end of a visit is the beginning of what is found by the end of the
visit that called it. -/
theorem Calls.tells {a b : Visit} (step : Calls a b) (sound : a.Sound) :
    b.run.diagnostics <+: a.run.diagnostics := by
  cases step with
  | eachHead n ns s parent c =>
    obtain ⟨_, _, next⟩ := (Calls.eachTail n ns s parent c).sees sound
    exact run_tells next.sound
  | isolatedHead n ns s parent c =>
    obtain ⟨_, _, next⟩ := (Calls.isolatedTail n ns s parent c).sees sound
    exact run_tells next.sound
  | blockHead n ns s parent c =>
    have checked : Sees _ _ ⟨.block ns, s, parent, _⟩ :=
      .of_binds sound (isolates n s parent c sound.inside)
    obtain ⟨_, _, next⟩ := (Calls.blockTail n ns s parent c).sees sound
    exact (checkReturn_tells checked.sound n).trans (run_tells next.sound)
  | eachTail | isolatedTail | blockTail => exact List.prefix_rfl
  | inline kind loc ms s parent c passes =>
    simp only [run, checkNode_inline passes, List.prefix_rfl]
  | define name annotation value mutable loc s parent c =>
    cases annotation with
    | none => exact List.prefix_rfl
    | some d => exact tell_tells _ _
  | assign dest value loc s parent c => exact tell_tells _ _
  | adjust how dest value loc s parent c => exact (tell_tells _ _).trans (tell_tells _ _)
  | target target args loc s parent c =>
    obtain ⟨_, _, next⟩ := (Calls.args target args loc s parent c).sees sound
    exact (afterTarget_tells target args loc s parent c).trans
      ((run_tells next.sound).trans (args_tell target args loc s parent c))
  | args target args loc s parent c => exact args_tell target args loc s parent c
  | bounds var low high times body loc s parent c =>
    obtain ⟨_, _, next⟩ := (Calls.forBody var low high times body loc s parent c _ rfl).sees sound
    have told := run_tells next.sound
    rw [bindCounter_diagnostics] at told
    rw [run, run, checkNode_forLoop]
    exact told
  | forBody var low high times body loc s parent c d bounds =>
    subst bounds
    simp only [run, checkNode_forLoop, List.prefix_rfl]
  | items var items body loc s parent c =>
    obtain ⟨_, _, next⟩ := (Calls.eachBody var items body loc s parent c _ rfl).sees sound
    exact run_tells next.sound
  | eachBody var items body loc s parent c d done =>
    subst done
    exact List.prefix_rfl
  | loop | block | function => exact List.prefix_rfl
  | ifElse cond yes elseifs no loc s parent c =>
    simp only [run, checkNode_ifElse, List.prefix_rfl]
  | ns name members loc s parent c =>
    simp only [run, checkNode, exportFrom_diagnostics, List.prefix_rfl]

theorem Reaches.tells {a b : Visit} (reached : Reaches a b) (sound : a.Sound) :
    b.run.diagnostics <+: a.run.diagnostics := by
  induction reached with
  | refl => exact List.prefix_rfl
  | tail before step ih => exact (step.tells (Reaches.sees before sound).1).trans ih

end Visit

end Checker

end ScriptCheck
