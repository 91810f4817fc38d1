import ScriptCheck.Proofs.Footprint
import ScriptCheck.Proofs.Tables

/-! Histories of a table of scopes. Whatever is done to a table is done by opening scopes and by
binding names, one change after the other, and what the table looks like can be read off the
changes: the root stays the only scope that lies in no other, each scope lies in an older one, and
each lists its own names in the order in which they were first bound. -/
namespace ScriptCheck

/-- Variables and type aliases: names that do not get in each other's way. -/
inductive Realm where
  | vars
  | types
  deriving DecidableEq

namespace Scope

def own (s : Scope) : Realm → Bindings
  | .vars => s.vars
  | .types => s.types

def bind (s : Scope) (realm : Realm) (name : String) (u : Ty) : Scope :=
  match realm with
  | .vars => s.setVariable name u
  | .types => s.setType name u

theorem own_bind (s : Scope) (realm other : Realm) (name : String) (u : Ty) :
    (s.bind realm name u).own other =
      if other = realm then (s.own other).set name u else s.own other := by
  cases realm <;> cases other <;> rfl

theorem parent_bind (s : Scope) (realm : Realm) (name : String) (u : Ty) :
    (s.bind realm name u).parent = s.parent := by
  cases realm <;> rfl

end Scope

namespace ScopeTree

def bind (t : ScopeTree) (realm : Realm) (s : ScopeId) (name : String) (u : Ty) : ScopeTree :=
  match realm with
  | .vars => t.setVariable s name u
  | .types => t.setType s name u

@[simp] theorem size_bind (t : ScopeTree) (realm : Realm) (s : ScopeId) (name : String) (u : Ty) :
    (t.bind realm s name u).size = t.size := by
  cases realm <;> simp [bind]

theorem globals_bind (t : ScopeTree) (realm : Realm) (s : ScopeId) (name : String) (u : Ty) :
    (t.bind realm s name u).globals = t.globals := by
  cases realm <;> rfl

theorem scope_bind (t : ScopeTree) {s : ScopeId} (inside : s < t.size) (realm : Realm)
    (name : String) (u : Ty) (i : ScopeId) :
    (t.bind realm s name u).scope i =
      if i = s then (t.scope i).bind realm name u else t.scope i := by
  cases realm with
  | vars => exact scope_setVariable t inside name u i
  | types => exact scope_setType t inside name u i

theorem parent_scope_bind (t : ScopeTree) {s : ScopeId} (inside : s < t.size) (realm : Realm)
    (name : String) (u : Ty) (i : ScopeId) :
    ((t.bind realm s name u).scope i).parent = (t.scope i).parent := by
  rw [scope_bind t inside]
  split
  · exact Scope.parent_bind ..
  · rfl

theorem own_scope_bind (t : ScopeTree) {s : ScopeId} (inside : s < t.size) (realm other : Realm)
    (name : String) (u : Ty) (i : ScopeId) :
    ((t.bind realm s name u).scope i).own other =
      if other = realm ∧ i = s then ((t.scope i).own other).set name u
      else (t.scope i).own other := by
  rw [scope_bind t inside]
  by_cases here : i = s
  · simp [here, Scope.own_bind]
  · simp [here]

theorem scope_outside {t : ScopeTree} {i : ScopeId} (outside : t.size ≤ i) : t.scope i = {} := by
  simp only [size] at outside
  simp [scope, outside]

end ScopeTree

inductive Change where
  | opened (parent : ScopeId)
  | bound (realm : Realm) (s : ScopeId) (name : String) (u : Ty)

namespace Change

def place : Change → ScopeId
  | opened s | bound _ s _ _ => s

def apply (t : ScopeTree) : Change → ScopeTree
  | opened s => (t.openChild s).2
  | bound realm s name u => t.bind realm s name u

def nameIn (realm : Realm) (i : ScopeId) : Change → Option String
  | opened _ => none
  | bound other s name _ => if realm = other ∧ i = s then some name else none

end Change

namespace ScopeTree

/-- The changes lead from `t` to `t'`, each of them made at a scope that is there by then. -/
inductive Becomes : ScopeTree → List Change → ScopeTree → Prop where
  | done (t : ScopeTree) : Becomes t [] t
  | next {t t' : ScopeTree} {change : Change} {log : List Change} (there : change.place < t.size)
      (later : Becomes (change.apply t) log t') : Becomes t (change :: log) t'

theorem Becomes.append {t u w : ScopeTree} {first second : List Change}
    (before : Becomes t first u) (after : Becomes u second w) :
    Becomes t (first ++ second) w := by
  induction before with
  | done => exact after
  | next there _ ih => exact .next there (ih after)

theorem Becomes.snoc {t u : ScopeTree} {log : List Change} (before : Becomes t log u)
    (change : Change) (there : change.place < u.size) :
    Becomes t (log ++ [change]) (change.apply u) :=
  before.append (.next there (.done _))

theorem Builds.becomes {t u : ScopeTree} (built : Builds t u) : ∃ log, Becomes t log u := by
  induction built with
  | refl => exact ⟨[], .done t⟩
  | tail _ edit ih =>
    obtain ⟨log, before⟩ := ih
    cases edit with
    | openChild inside => exact ⟨_, before.snoc (.opened _) inside⟩
    | setVariable inside name w => exact ⟨_, before.snoc (.bound .vars _ name w) inside⟩

/-- The tables that can be had from these globals: a new one, and any after opening a scope, binding
a name, inferring or checking something in a scope that is there. -/
inductive Reachable (globals : Scope) : ScopeTree → Prop where
  | new : Reachable globals (ScopeTree.new globals)
  | openChild {t : ScopeTree} (before : Reachable globals t) {s : ScopeId} (inside : s < t.size) :
      Reachable globals (t.openChild s).2
  | setVariable {t : ScopeTree} (before : Reachable globals t) {s : ScopeId} (inside : s < t.size)
      (name : String) (u : Ty) : Reachable globals (t.setVariable s name u)
  | setType {t : ScopeTree} (before : Reachable globals t) {s : ScopeId} (inside : s < t.size)
      (name : String) (u : Ty) : Reachable globals (t.setType s name u)
  | infer {t : ScopeTree} (before : Reachable globals t) {s : ScopeId} (inside : s < t.size)
      (n : Node) : Reachable globals (ScriptCheck.infer n s t).2
  | returnType {t : ScopeTree} (before : Reachable globals t) {s : ScopeId} (inside : s < t.size)
      (body : List Node) : Reachable globals (inferReturnType body s t).2
  | node {t : ScopeTree} (before : Reachable globals t) {s : ScopeId} (inside : s < t.size)
      (n : Node) (parent : Option Node) (found : List Diagnostic) :
      Reachable globals (Checker.checkNode n s parent ⟨t, found⟩).scopes
  | block {t : ScopeTree} (before : Reachable globals t) {s : ScopeId} (inside : s < t.size)
      (ns : List Node) (parent : Option Node) (found : List Diagnostic) :
      Reachable globals (Checker.checkBlock ns s parent ⟨t, found⟩).scopes

theorem Reachable.becomes {globals : Scope} {t : ScopeTree} (reached : Reachable globals t) :
    ∃ log, Becomes (ScopeTree.new globals) log t := by
  have extend {t u : ScopeTree} (before : ∃ log, Becomes (ScopeTree.new globals) log t)
      (built : Builds t u) : ∃ log, Becomes (ScopeTree.new globals) log u := by
    obtain ⟨log, early⟩ := before
    obtain ⟨more, late⟩ := built.becomes
    exact ⟨log ++ more, early.append late⟩
  induction reached with
  | new => exact ⟨[], .done _⟩
  | openChild _ inside ih => exact extend ih (.single (.openChild inside))
  | setVariable _ inside name u ih => exact extend ih (.single (.setVariable inside name u))
  | setType _ inside name u ih =>
    obtain ⟨log, before⟩ := ih
    exact ⟨_, before.snoc (.bound .types _ name u) inside⟩
  | infer _ inside n ih => exact extend ih (builder n _ _ inside)
  | returnType _ inside body ih =>
    exact extend ih (inferReturnType_builds (fun e _ => builder e) inside)
  | node _ inside n parent found ih =>
    exact extend ih (Checker.expands n _ parent ⟨_, found⟩ inside)
  | block _ inside ns parent found ih =>
    exact extend ih (Checker.checkBlock_builds (c := ⟨_, found⟩)
      (fun n _ => Checker.expands n) parent inside)

/-! What a history says about the table -/

/-- The root is the only scope that lies in no other, and each scope lies in an older one. -/
structure Rooted (t : ScopeTree) : Prop where
  inside : root < t.size
  only : ∀ s < t.size, (t.scope s).parent = none ↔ s = root
  nested : t.Nested

theorem new_rooted (globals : Scope) : (ScopeTree.new globals).Rooted := by
  refine ⟨Nat.zero_lt_one, fun s inside => ?_, new_nested globals⟩
  obtain rfl : s = root := Nat.lt_one_iff.mp inside
  exact iff_of_true rfl rfl

theorem Rooted.openChild {t : ScopeTree} (rooted : t.Rooted) {s : ScopeId} (inside : s < t.size) :
    (t.openChild s).2.Rooted := by
  refine ⟨?_, fun i there => ?_, (Region.opened t inside).keeps.nested rooted.nested⟩
  · rw [size_openChild]
    exact Nat.lt_succ_of_lt rooted.inside
  · rw [size_openChild] at there
    rw [scope_openChild]
    by_cases new : i = t.size
    · rw [if_pos new, new]
      exact iff_of_false (by simp) (Nat.ne_of_gt rooted.inside)
    · rw [if_neg new]
      exact rooted.only i (Nat.lt_of_le_of_ne (Nat.le_of_lt_succ there) new)

theorem Nested.of_parents {t t' : ScopeTree} (nested : t.Nested) (size : t'.size = t.size)
    (parents : ∀ i, (t'.scope i).parent = (t.scope i).parent) : t'.Nested :=
  fun i p there opened => nested i p (size ▸ there) (parents i ▸ opened)

theorem Rooted.bind {t : ScopeTree} (rooted : t.Rooted) {s : ScopeId} (inside : s < t.size)
    (realm : Realm) (name : String) (u : Ty) : (t.bind realm s name u).Rooted := by
  have parents := parent_scope_bind t inside realm name u
  refine ⟨?_, fun i there => ?_, rooted.nested.of_parents (size_bind ..) parents⟩
  · rw [size_bind]
    exact rooted.inside
  · rw [size_bind] at there
    rw [parents]
    exact rooted.only i there

theorem Becomes.rooted {t t' : ScopeTree} {log : List Change} (made : Becomes t log t')
    (rooted : t.Rooted) : t'.Rooted := by
  induction made with
  | done => exact rooted
  | @next _ _ change _ there _ ih =>
    cases change with
    | opened s => exact ih (rooted.openChild there)
    | bound realm s name u => exact ih (rooted.bind there realm name u)

theorem Becomes.globals {t t' : ScopeTree} {log : List Change} (made : Becomes t log t') :
    t'.globals = t.globals := by
  induction made with
  | done => rfl
  | @next _ _ change _ _ _ ih =>
    cases change with
    | opened s => exact ih
    | bound realm s name u => exact ih.trans (globals_bind ..)

theorem names_apply {t : ScopeTree} {change : Change} (there : change.place < t.size)
    (realm : Realm) (i : ScopeId) :
    (((change.apply t).scope i).own realm).names =
      Bindings.addNames ((t.scope i).own realm).names (change.nameIn realm i).toList := by
  cases change with
  | opened s =>
    rw [Change.nameIn, Option.toList_none, Bindings.addNames_nil, Change.apply, scope_openChild]
    split
    · rename_i new
      rw [new, scope_outside (Nat.le_refl _)]
      cases realm <;> rfl
    · rfl
  | bound other s name u =>
    change s < t.size at there
    rw [Change.apply, own_scope_bind t there, Change.nameIn]
    split
    · exact Bindings.names_set ..
    · exact (Bindings.addNames_nil _).symm

theorem Becomes.names {t t' : ScopeTree} {log : List Change} (made : Becomes t log t')
    (realm : Realm) (i : ScopeId) :
    ((t'.scope i).own realm).names =
      Bindings.addNames ((t.scope i).own realm).names (log.filterMap (·.nameIn realm i)) := by
  induction made with
  | done => exact (Bindings.addNames_nil _).symm
  | @next _ _ change log there _ ih =>
    have split : (change :: log).filterMap (·.nameIn realm i) =
        (change.nameIn realm i).toList ++ log.filterMap (·.nameIn realm i) := by
      cases here : change.nameIn realm i <;> simp [here]
    rw [ih, names_apply there, Bindings.addNames_append, split]

theorem Becomes.names_new {globals : Scope} {t : ScopeTree} {log : List Change}
    (made : Becomes (ScopeTree.new globals) log t) (realm : Realm) (i : ScopeId) :
    ((t.scope i).own realm).names = (log.filterMap (·.nameIn realm i)).eraseDups := by
  have empty : (((ScopeTree.new globals).scope i).own realm).names = [] := by
    cases i <;> cases realm <;> rfl
  rw [made.names, empty, Bindings.addNames_to_nil]

end ScopeTree
end ScriptCheck
