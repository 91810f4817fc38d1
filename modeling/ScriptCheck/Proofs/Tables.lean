import Mathlib.Logic.Relation
import ScriptCheck.Proofs.Visits

/-! How tables of scopes come about. Inferring and checking open scopes inside scopes that are
there, and bind variables; nothing else ever happens to a table. So no scope of a run has aliases of
its own, and a type name stands for the same wherever it is looked up. -/
namespace ScriptCheck

namespace ScopeTree

inductive Edits : ScopeTree → ScopeTree → Prop where
  | openChild {t : ScopeTree} {s : ScopeId} (inside : s < t.size) : Edits t (t.openChild s).2
  | setVariable {t : ScopeTree} {s : ScopeId} (inside : s < t.size) (name : String) (u : Ty) :
      Edits t (t.setVariable s name u)

/-- The second table has been made out of the first one. -/
abbrev Builds : ScopeTree → ScopeTree → Prop := Relation.ReflTransGen Edits

theorem Edits.nested {t u : ScopeTree} (edit : Edits t u) (nested : t.Nested) : u.Nested := by
  cases edit with
  | openChild inside => exact (Region.opened t inside).keeps.nested nested
  | setVariable inside name w => exact (Binds.setVariable t inside name w).nested nested

theorem Edits.size {t u : ScopeTree} (edit : Edits t u) : t.size ≤ u.size := by
  cases edit with
  | openChild inside => simp
  | setVariable inside name w => simp

theorem Edits.globals {t u : ScopeTree} (edit : Edits t u) : u.globals = t.globals := by
  cases edit <;> rfl

def Untyped (t : ScopeTree) : Prop := ∀ s, (t.scope s).types = []

theorem Edits.untyped {t u : ScopeTree} (edit : Edits t u) (untyped : t.Untyped) : u.Untyped := by
  intro i
  cases edit with
  | openChild inside =>
    rw [scope_openChild]
    split
    · rfl
    · exact untyped i
  | setVariable inside name w =>
    rw [scope_setVariable t inside]
    split
    · exact untyped i
    · exact untyped i

namespace Builds

variable {t u : ScopeTree}

theorem nested (built : Builds t u) (nested : t.Nested) : u.Nested := by
  induction built with
  | refl => exact nested
  | tail _ edit ih => exact edit.nested ih

theorem inside (built : Builds t u) {s : ScopeId} (inside : s < t.size) : s < u.size := by
  induction built with
  | refl => exact inside
  | tail _ edit ih => exact Nat.lt_of_lt_of_le ih edit.size

theorem globals (built : Builds t u) : u.globals = t.globals := by
  induction built with
  | refl => rfl
  | tail _ edit ih => rw [edit.globals, ih]

theorem untyped (built : Builds t u) (untyped : t.Untyped) : u.Untyped := by
  induction built with
  | refl => exact untyped
  | tail _ edit ih => exact edit.untyped ih

end Builds

theorem new_untyped (globals : Scope) : (ScopeTree.new globals).Untyped := by
  intro s
  cases s <;> rfl

theorem chainWithin_untyped {t : ScopeTree} (untyped : t.Untyped) (bound : Nat) (s : ScopeId) :
    ∀ scope ∈ t.chainWithin bound s, scope.types = [] := by
  induction bound generalizing s with
  | zero => simp [chainWithin]
  | succ bound ih =>
    by_cases inside : s < t.size
    · rw [chainWithin_inside t bound inside, List.forall_mem_cons]
      refine ⟨untyped s, ?_⟩
      cases (t.scope s).parent with
      | none => simp
      | some p => exact ih p
    · have none : t.scopes[s]? = none := by
        simp only [size] at inside
        simp [Nat.le_of_not_lt inside]
      simp [chainWithin, none]

theorem getType_untyped {t : ScopeTree} (untyped : t.Untyped) (s : ScopeId) (x : String) :
    t.getType s x = t.globals.types.get? x := by
  have own : (t.chain s).findSome? (fun scope => scope.types.get? x) = none := by
    rw [List.findSome?_eq_none_iff]
    intro scope member
    rw [chainWithin_untyped untyped (s + 1) s scope member]
    rfl
  rw [getType, List.findSome?_append, own, Option.none_or]
  simp only [List.findSome?_cons, List.findSome?_nil]
  cases t.globals.types.get? x <;> rfl

end ScopeTree

open ScopeTree

def Builder (n : Node) : Prop :=
  ∀ (s : ScopeId) (t : ScopeTree), s < t.size → Builds t (infer n s t).2

theorem inferAll_of_builders {ns : List Node} (each : ∀ n ∈ ns, Builder n) {s : ScopeId}
    {t : ScopeTree} (inside : s < t.size) : Builds t (inferAll ns s t).2 := by
  induction ns generalizing t with
  | nil => exact .refl
  | cons n rest ih =>
    obtain ⟨head, tail⟩ := List.forall_mem_cons.mp each
    have first := head s t inside
    exact first.trans (ih tail (first.inside inside))

theorem inferReturnType_builds {ns : List Node}
    (value : ∀ e, firstReturn ns = some e → Builder e) {s : ScopeId} {t : ScopeTree}
    (inside : s < t.size) : Builds t (inferReturnType ns s t).2 := by
  rw [inferReturnType, inferReturn_eq]
  cases found : firstReturn ns with
  | none => exact .refl
  | some e => exact value e found s t inside

theorem inferParams_of_builders {params : List Param}
    (each : ∀ n ∈ params.flatMap fun p => p.declared.toList, Builder n) {s inner : ScopeId}
    {t : ScopeTree} (inside : s < t.size) (opened : inner < t.size) :
    Builds t (inferParams params s inner t).2 := by
  induction params generalizing t with
  | nil => exact .refl
  | cons p rest ih =>
    obtain ⟨name, declared⟩ := p
    simp only [List.flatMap_cons, List.forall_mem_append, Param.declared] at each
    have first : Builds t (inferMaybe declared s t).2 := by
      cases declared with
      | none => exact .refl
      | some n => exact each.1 n (by simp) s t inside
    have bound : Builds t ((inferMaybe declared s t).2.setVariable inner name _) :=
      first.tail (.setVariable (first.inside opened) name (inferMaybe declared s t).1)
    rw [inferParams_cons]
    exact bound.trans (ih each.2 (bound.inside inside) (bound.inside opened))

theorem infer_function_builds {params : List Param} {result : Option Node} {body : List Node}
    (each : ∀ n ∈ (Kind.function params result body).parts, Builder n)
    (value : ∀ e, firstReturn body = some e → Builder e) (loc : Option Span) {s : ScopeId}
    {t : ScopeTree} (inside : s < t.size) :
    Builds t (infer (.mk (.function params result body) loc) s t).2 := by
  simp only [Kind.parts, List.forall_mem_append] at each
  obtain ⟨⟨annotations, declared⟩, -⟩ := each
  have opened : Builds t (t.openChild s).2 := .single (.openChild inside)
  have fresh : t.size < (t.openChild s).2.size := by simp
  have binding := inferParams_of_builders annotations (opened.inside inside) fresh
  have bound : Builds t _ := opened.trans binding
  cases result with
  | some d => exact bound.trans (declared d (by simp) s _ (bound.inside inside))
  | none => exact bound.trans (inferReturnType_builds value (binding.inside fresh))

theorem builder (n : Node) : Builder n := by
  induction n using Node.valueInduction with
  | step n each value =>
    obtain ⟨kind, loc⟩ := n
    change ∀ m ∈ kind.parts, Builder m at each
    intro s t inside
    cases kind with
    | fnType params result =>
      simp only [Kind.parts, List.forall_mem_append, List.forall_mem_singleton] at each
      have types := inferAll_of_builders each.1 inside
      exact types.trans (each.2 s _ (types.inside inside))
    | function params result body => exact infer_function_builds each value loc inside
    | call target args =>
      have callee := each target (by simp [Kind.parts]) s t inside
      simp only [infer]
      split
      · rename_i answered
        rwa [answered] at callee
      · rename_i answered
        rwa [answered] at callee
    | _ => exact .refl

namespace Checker

section

variable {s : ScopeId} {c : Checker} (inside : s < c.scopes.size)
include inside

theorem infer_builds (n : Node) : Builds c.scopes (c.infer n s).2.scopes :=
  builder n s c.scopes inside

theorem infer_infer_builds (first second : Node) :
    Builds c.scopes ((c.infer first s).2.infer second s).2.scopes := by
  have typed := infer_builds inside first
  exact typed.trans (infer_builds (typed.inside inside) second)

theorem inferAll_builds (ns : List Node) : Builds c.scopes (c.inferAll ns s).2.scopes :=
  inferAll_of_builders (fun n _ => builder n) inside

theorem bind_builds (name : String) (u : Ty) : Builds c.scopes (c.bind s name u).scopes :=
  .single (.setVariable inside name u)

theorem openChild_builds : Builds c.scopes (c.openChild s).2.scopes := .single (.openChild inside)

theorem openChild_inside : (c.openChild s).1 < (c.openChild s).2.scopes.size :=
  (openChild_region inside).inside

theorem bindParams_builds (params : List Param) {inner : ScopeId} (opened : inner < c.scopes.size) :
    Builds c.scopes (c.bindParams params s inner).scopes :=
  inferParams_of_builders (fun n _ => builder n) inside opened

theorem bindCounter_builds (var : Option String) :
    Builds c.scopes (c.bindCounter s var).scopes := by
  cases var with
  | none => exact .refl
  | some name => exact bind_builds inside name .num

theorem exportFrom_builds (inner : ScopeId) (ns : String) :
    Builds c.scopes (c.exportFrom inner s ns).scopes := by
  unfold exportFrom
  generalize (c.scopes.scope inner).vars = members
  induction members generalizing c with
  | nil => exact .refl
  | cons entry rest ih =>
    have bound := bind_builds inside (ns ++ ":" ++ entry.1) entry.2
    exact bound.trans (ih (bound.inside inside))

theorem checkReturn_builds (n : Node) (parent : Option Node) :
    Builds c.scopes (c.checkReturn n s parent).scopes := by
  unfold checkReturn
  split
  · rename_i params result body loc value _
    have typed := infer_builds inside (.mk (.function params result body) loc)
    split
    · rename_i answered
      rw [answered] at typed
      exact typed.trans (infer_builds (typed.inside inside) value)
    · rename_i answered
      rwa [answered] at typed
  · exact .refl

end

def Expands (n : Node) : Prop :=
  ∀ (s : ScopeId) (parent : Option Node) (c : Checker), s < c.scopes.size →
    Builds c.scopes (checkNode n s parent c).scopes

section

variable {ns : List Node} (each : ∀ n ∈ ns, Expands n) {s : ScopeId} (parent : Option Node)
  {c : Checker} (inside : s < c.scopes.size)
include each inside

theorem checkEach_builds : Builds c.scopes (checkEach ns s parent c).scopes := by
  induction ns generalizing c with
  | nil => exact .refl
  | cons n rest ih =>
    obtain ⟨head, tail⟩ := List.forall_mem_cons.mp each
    have first := head s parent c inside
    exact first.trans (ih tail (first.inside inside))

theorem checkBlock_builds : Builds c.scopes (checkBlock ns s parent c).scopes := by
  induction ns generalizing c with
  | nil => exact .refl
  | cons n rest ih =>
    obtain ⟨head, tail⟩ := List.forall_mem_cons.mp each
    have checked := head s parent c inside
    have first : Builds c.scopes ((checkNode n s parent c).checkReturn n s parent).scopes :=
      checked.trans (checkReturn_builds (checked.inside inside) n parent)
    exact first.trans (ih tail (first.inside inside))

theorem checkIsolated_builds : Builds c.scopes (checkIsolated ns s parent c).scopes := by
  induction ns generalizing c with
  | nil => exact .refl
  | cons n rest ih =>
    obtain ⟨head, tail⟩ := List.forall_mem_cons.mp each
    have first : Builds c.scopes (checkNode n (c.openChild s).1 parent (c.openChild s).2).scopes :=
      (openChild_builds inside).trans (head _ parent _ (openChild_inside inside))
    exact first.trans (ih tail (first.inside inside))

end

theorem afterTarget_builds {target : Node} (ih : Expands target) (args : List Node)
    (loc : Option Span) {s : ScopeId} (parent : Option Node) {c : Checker}
    (inside : s < c.scopes.size) :
    Builds c.scopes (Visit.afterTarget target args loc s parent c).scopes := by
  have typed := infer_builds inside target
  have checked : Builds c.scopes (checkNode target s parent (c.infer target s).2).scopes :=
    typed.trans (ih s parent _ (typed.inside inside))
  dsimp only [Visit.afterTarget]
  split
  · exact checked.trans (inferAll_builds (checked.inside inside) args)
  · exact checked

theorem expands (n : Node) : Expands n := by
  induction n using Node.ruleInduction with
  | define name annotation value mutable loc ih =>
    intro s parent c inside
    have typed := infer_builds inside value
    have checked : Builds c.scopes (checkNode value s parent (c.infer value s).2).scopes :=
      typed.trans (ih s parent _ (typed.inside inside))
    cases annotation with
    | none => exact checked.trans (bind_builds (checked.inside inside) name _)
    | some d =>
      have declaration := infer_builds (checked.inside inside) d
      exact (checked.trans declaration).trans
        (bind_builds (declaration.inside (checked.inside inside)) name _)
  | assign dest value loc ih =>
    intro s parent c inside
    have typed := infer_infer_builds inside dest value
    exact typed.trans (ih s parent _ (typed.inside inside))
  | adjust how dest value loc ih =>
    intro s parent c inside
    have typed := infer_infer_builds inside dest value
    exact typed.trans (ih s parent _ (typed.inside inside))
  | call target args loc ih each =>
    intro s parent c inside
    have before := afterTarget_builds ih args loc parent inside
    have after := before.trans (checkEach_builds each parent (before.inside inside))
    rw [checkNode_call]
    dsimp only [Visit.afterTarget] at after ⊢
    split
    · rename_i function
      rwa [if_pos function] at after
    · rename_i other
      rwa [if_neg other] at after
  | forLoop var low high times body loc each ih =>
    intro s parent c inside
    rw [checkNode_forLoop]
    have bounds := checkEach_builds each parent inside
    have inside' := bounds.inside inside
    have counted := bindCounter_builds (openChild_inside inside') var
    exact ((bounds.trans (openChild_builds inside')).trans counted).trans
      (ih _ parent _ (counted.inside (openChild_inside inside')))
  | eachLoop var items body loc first ih =>
    intro s parent c inside
    have before := first s parent c inside
    have inside' := before.inside inside
    have item := bind_builds (openChild_inside inside') var .any
    exact ((before.trans (openChild_builds inside')).trans item).trans
      (ih _ parent _ (item.inside (openChild_inside inside')))
  | loop body loc each =>
    intro s parent c inside
    exact (openChild_builds inside).trans (checkBlock_builds each _ (openChild_inside inside))
  | block body loc each =>
    intro s parent c inside
    exact (openChild_builds inside).trans (checkBlock_builds each _ (openChild_inside inside))
  | ifElse cond yes elseifs no loc each =>
    intro s parent c inside
    rw [checkNode_ifElse]
    exact checkIsolated_builds each parent inside
  | ns name members loc each =>
    intro s parent c inside
    have checked : Builds c.scopes
        (checkBlock members (c.openChild s).1 parent (c.openChild s).2).scopes :=
      (openChild_builds inside).trans (checkBlock_builds each parent (openChild_inside inside))
    exact checked.trans (exportFrom_builds (checked.inside inside) _ name)
  | function params result body loc each =>
    intro s parent c inside
    have fresh := openChild_inside inside
    have bound := bindParams_builds ((openChild_builds inside).inside inside) params fresh
    exact ((openChild_builds inside).trans bound).trans
      (checkBlock_builds each _ (bound.inside fresh))
  | inline kind loc ms passes each =>
    intro s parent c inside
    rw [checkNode_inline passes]
    exact checkEach_builds each parent inside

namespace Visit

theorem run_builds {a : Visit} (sound : a.Sound) : Builds a.state.scopes a.run.scopes := by
  obtain ⟨task, s, parent, c⟩ := a
  cases task with
  | node n => exact expands n s parent c sound.inside
  | each ns => exact checkEach_builds (fun n _ => expands n) parent sound.inside
  | isolated ns => exact checkIsolated_builds (fun n _ => expands n) parent sound.inside
  | block ns => exact checkBlock_builds (fun n _ => expands n) parent sound.inside

theorem Calls.builds {a b : Visit} (step : Calls a b) (sound : a.Sound) :
    Builds a.state.scopes b.state.scopes := by
  have inside := sound.inside
  cases step with
  | eachHead | blockHead | inline | bounds | items | ifElse => exact .refl
  | eachTail n ns s parent c => exact expands n s parent c inside
  | isolatedHead | loop | block | ns => exact openChild_builds inside
  | isolatedTail n ns s parent c =>
    exact (openChild_builds inside).trans (expands n _ parent _ (openChild_inside inside))
  | blockTail n ns s parent c =>
    have checked := expands n s parent c inside
    exact checked.trans (checkReturn_builds (checked.inside inside) n parent)
  | define name annotation value mutable loc s parent c => exact infer_builds inside value
  | assign dest value loc s parent c => exact infer_infer_builds inside dest value
  | adjust how dest value loc s parent c => exact infer_infer_builds inside dest value
  | target target args loc s parent c => exact infer_builds inside target
  | args target args loc s parent c =>
    exact afterTarget_builds (expands target) args loc parent inside
  | forBody var low high times body loc s parent c d bounds =>
    have checked : Builds c.scopes d.scopes :=
      bounds ▸ checkEach_builds (fun n _ => expands n) parent inside
    have inside' := checked.inside inside
    exact (checked.trans (openChild_builds inside')).trans
      (bindCounter_builds (openChild_inside inside') var)
  | eachBody var items body loc s parent c d done =>
    subst done
    have checked := expands items s parent c inside
    have inside' := checked.inside inside
    exact (checked.trans (openChild_builds inside')).trans
      (bind_builds (openChild_inside inside') var .any)
  | function params result body loc s parent c =>
    have opened := openChild_builds inside
    exact opened.trans (bindParams_builds (opened.inside inside) params (openChild_inside inside))

theorem Reaches.builds {a b : Visit} (reached : Reaches a b) (sound : a.Sound) :
    Builds a.state.scopes b.state.scopes := by
  induction reached with
  | refl => exact .refl
  | tail before step ih => exact ih.trans (step.builds (Reaches.sees before sound).1)

end Visit

end Checker

end ScriptCheck
