import ScriptCheck.Proofs.Histories

/-! What a name stands for after it has been bound somewhere. The scopes around a scope are a finite
path to the root, and a lookup takes the first binding on that path. A new binding is therefore seen
from the scopes below it, up to the next ones that bind the name themselves, and from nowhere
else. -/
namespace ScriptCheck

namespace ScopeTree

def look (t : ScopeTree) (realm : Realm) (s : ScopeId) (name : String) : Option Ty :=
  match realm with
  | .vars => t.getVariable s name
  | .types => t.getType s name

/-- The scope, the one that it lies in, and so on outwards as long as there is one. -/
inductive Ancestry (t : ScopeTree) : ScopeId → List ScopeId → Prop where
  | outermost {s : ScopeId} (top : (t.scope s).parent = none) : Ancestry t s [s]
  | inner {s p : ScopeId} {ids : List ScopeId} (opened : (t.scope s).parent = some p)
      (outer : Ancestry t p ids) : Ancestry t s (s :: ids)

/-- A binding of the name in scope `s` is the one that counts in scope `q`: `s` is `q` or lies
around it, and no scope on the way from `q` to `s` binds the name. -/
def Visible (t : ScopeTree) (realm : Realm) (s q : ScopeId) (name : String) : Prop :=
  (s = q ∨ t.Encloses s q) ∧
    ∀ i, i = q ∨ t.Encloses i q → t.Encloses s i → ((t.scope i).own realm).get? name = none

section Chain

variable {t : ScopeTree} {s p : ScopeId} (inside : s < t.size)
include inside

theorem chain_outermost (top : (t.scope s).parent = none) : t.chain s = [t.scope s] := by
  rw [chain, chainWithin_inside t s inside, top]

theorem chain_inner (nested : t.Nested) (opened : (t.scope s).parent = some p) :
    t.chain s = t.scope s :: t.chain p := by
  rw [chain, chainWithin_inside t s inside, opened]
  simp only [chainWithin_enough t nested (nested s p inside opened)]

theorem Rooted.ancestry (rooted : t.Rooted) :
    ∃ ids, t.Ancestry s ids ∧ ids.getLast? = some root ∧ t.chain s = ids.map t.scope := by
  induction s using Nat.strongRecOn with
  | ind s ih =>
    cases opened : (t.scope s).parent with
    | none =>
      obtain rfl := (rooted.only s inside).mp opened
      exact ⟨[root], .outermost opened, rfl, chain_outermost inside opened⟩
    | some p =>
      have lower := rooted.nested s p inside opened
      obtain ⟨ids, outer, last, chain⟩ := ih p lower (Nat.lt_trans lower inside)
      refine ⟨s :: ids, .inner opened outer, ?_, ?_⟩
      · rw [List.getLast?_cons, last]
        rfl
      · rw [chain_inner inside rooted.nested opened, chain, List.map_cons]

end Chain

theorem look_eq (t : ScopeTree) (realm : Realm) (s : ScopeId) (name : String) :
    t.look realm s name =
      (t.chain s ++ [t.globals]).findSome? fun scope => (scope.own realm).get? name := by
  cases realm <;> rfl

theorem look_own {t : ScopeTree} {s : ScopeId} (inside : s < t.size) (nested : t.Nested)
    {realm : Realm} {name : String} {u : Ty}
    (bound : ((t.scope s).own realm).get? name = some u) : t.look realm s name = some u := by
  rw [look_eq, chain_around t nested inside, List.findSome?_cons, bound]

section Look

variable {t : ScopeTree} {s p : ScopeId} (inside : s < t.size) (realm : Realm) (name : String)
include inside

theorem look_outermost (top : (t.scope s).parent = none) :
    t.look realm s name =
      (((t.scope s).own realm).get? name).or ((t.globals.own realm).get? name) := by
  rw [look_eq, chain_outermost inside top, List.singleton_append, List.findSome?_cons,
    List.findSome?_singleton]
  cases ((t.scope s).own realm).get? name <;> rfl

theorem look_inner (nested : t.Nested) (opened : (t.scope s).parent = some p) :
    t.look realm s name = (((t.scope s).own realm).get? name).or (t.look realm p name) := by
  rw [look_eq, look_eq, chain_inner inside nested opened, List.cons_append, List.findSome?_cons]
  cases ((t.scope s).own realm).get? name <;> rfl

end Look

/-! Scopes around a scope -/

theorem encloses_iff {t : ScopeTree} {s q : ScopeId} :
    t.Encloses s q ↔ ∃ p, (t.scope q).parent = some p ∧ (s = p ∨ t.Encloses s p) := by
  constructor
  · intro around
    cases around with
    | parent opened => exact ⟨s, opened, .inl rfl⟩
    | further outer opened => exact ⟨_, opened, .inr outer⟩
  · rintro ⟨p, opened, rfl | outer⟩
    · exact .parent opened
    · exact .further outer opened

theorem Encloses.lower {t : ScopeTree} (nested : t.Nested) {s q : ScopeId} (inside : q < t.size)
    (around : t.Encloses s q) : s < q := by
  induction around with
  | parent opened => exact nested _ _ inside opened
  | further outer opened ih =>
    have lower := nested _ _ inside opened
    exact Nat.lt_trans (ih (Nat.lt_trans lower inside)) lower

theorem visible_self {t : ScopeTree} (nested : t.Nested) {s : ScopeId} (inside : s < t.size)
    (realm : Realm) (name : String) : t.Visible realm s s name := by
  refine ⟨.inl rfl, fun i near around => ?_⟩
  rcases near with rfl | outer
  · exact absurd (around.lower nested inside) (Nat.lt_irrefl _)
  · have lower := outer.lower nested inside
    exact absurd (around.lower nested (Nat.lt_trans lower inside)) (Nat.lt_asymm lower)

theorem visible_inner {t : ScopeTree} {realm : Realm} {s q p : ScopeId} {name : String}
    (other : s ≠ q) (opened : (t.scope q).parent = some p)
    (free : ((t.scope q).own realm).get? name = none) :
    t.Visible realm s q name ↔ t.Visible realm s p name := by
  have outwards {i : ScopeId} : t.Encloses i q ↔ i = p ∨ t.Encloses i p := by
    rw [encloses_iff, opened]
    simp
  constructor
  · rintro ⟨place, unbound⟩
    exact ⟨outwards.mp (place.resolve_left other),
      fun i near => unbound i (.inr (outwards.mpr near))⟩
  · rintro ⟨place, unbound⟩
    refine ⟨.inr (outwards.mpr place), ?_⟩
    rintro i (rfl | near) around
    · exact free
    · exact unbound i (outwards.mp near) around

/-! Lookups after a change -/

section Change

variable {t t' : ScopeTree} {realm : Realm} {name : String} (nested : t.Nested)
  (size : t'.size = t.size) (globals : t'.globals = t.globals)
  (parents : ∀ i, (t'.scope i).parent = (t.scope i).parent)
include nested size globals parents

theorem look_of_same
    (same : ∀ i, ((t'.scope i).own realm).get? name = ((t.scope i).own realm).get? name)
    {q : ScopeId} (inside : q < t.size) : t'.look realm q name = t.look realm q name := by
  have nested' := nested.of_parents size parents
  induction q using Nat.strongRecOn with
  | ind q ih =>
    have inside' : q < t'.size := size ▸ inside
    cases opened : (t.scope q).parent with
    | none =>
      rw [look_outermost inside' realm name ((parents q).trans opened),
        look_outermost inside realm name opened, same, globals]
    | some p =>
      have lower := nested q p inside opened
      rw [look_inner inside' realm name nested' ((parents q).trans opened),
        look_inner inside realm name nested opened, same, ih p lower (Nat.lt_trans lower inside)]

theorem look_of_bound {s : ScopeId} {u : Ty} (bound : ((t'.scope s).own realm).get? name = some u)
    (same : ∀ i, i ≠ s → ((t'.scope i).own realm).get? name = ((t.scope i).own realm).get? name)
    {q : ScopeId} (inside : q < t.size) :
    (t.Visible realm s q name → t'.look realm q name = some u) ∧
      (¬ t.Visible realm s q name → t'.look realm q name = t.look realm q name) := by
  have nested' := nested.of_parents size parents
  induction q using Nat.strongRecOn with
  | ind q ih =>
    have inside' : q < t'.size := size ▸ inside
    by_cases here : q = s
    · subst here
      exact ⟨fun _ => look_own inside' nested' bound,
        fun hidden => absurd (visible_self nested inside realm name) hidden⟩
    · cases found : ((t.scope q).own realm).get? name with
      | some w =>
        refine ⟨fun visible => ?_, fun _ => ?_⟩
        · have free := visible.2 q (.inl rfl) (visible.1.resolve_left (Ne.symm here))
          simp [found] at free
        · rw [look_own inside' nested' ((same q here).trans found), look_own inside nested found]
      | none =>
        have found' := (same q here).trans found
        cases opened : (t.scope q).parent with
        | none =>
          refine ⟨fun visible => ?_, fun _ => ?_⟩
          · obtain ⟨p, above, _⟩ := encloses_iff.mp (visible.1.resolve_left (Ne.symm here))
            simp [opened] at above
          · rw [look_outermost inside' realm name ((parents q).trans opened),
              look_outermost inside realm name opened, found, found', globals]
        | some p =>
          have lower := nested q p inside opened
          rw [look_inner inside' realm name nested' ((parents q).trans opened),
            look_inner inside realm name nested opened, found, found', Option.none_or,
            Option.none_or, visible_inner (Ne.symm here) opened found]
          exact ih p lower (Nat.lt_trans lower inside)

end Change

/-- What is seen after a binding: the new type where the binding counts, and what was seen before
everywhere else. -/
def Overridden (counts : Prop) (u : Ty) (before after : Option Ty) : Prop :=
  (counts → after = some u) ∧ (¬ counts → after = before)

theorem look_bind {t : ScopeTree} (nested : t.Nested) {s q : ScopeId} (there : s < t.size)
    (inside : q < t.size) (realm : Realm) (n m : String) (u : Ty) :
    Overridden (m = n ∧ t.Visible realm s q n) u (t.look realm q m)
      ((t.bind realm s n u).look realm q m) := by
  have size := size_bind t realm s n u
  have globals := globals_bind t realm s n u
  have parents := parent_scope_bind t there realm n u
  by_cases named : m = n
  · subst named
    have bound : (((t.bind realm s m u).scope s).own realm).get? m = some u := by
      rw [own_scope_bind t there, if_pos ⟨rfl, rfl⟩, Bindings.get?_set, if_pos rfl]
    have same (i : ScopeId) (other : i ≠ s) :
        (((t.bind realm s m u).scope i).own realm).get? m = ((t.scope i).own realm).get? m := by
      rw [own_scope_bind t there, if_neg fun both => other both.2]
    have seen := look_of_bound nested size globals parents bound same inside
    simpa [Overridden] using seen
  · have same (i : ScopeId) :
        (((t.bind realm s n u).scope i).own realm).get? m = ((t.scope i).own realm).get? m := by
      rw [own_scope_bind t there]
      split
      · rw [Bindings.get?_set, if_neg named]
      · rfl
    exact ⟨fun both => absurd both.1 named,
      fun _ => look_of_same nested size globals parents same inside⟩

theorem look_bind_other {t : ScopeTree} (nested : t.Nested) {s q : ScopeId} (there : s < t.size)
    (inside : q < t.size) {realm other : Realm} (apart : other ≠ realm) (n m : String) (u : Ty) :
    (t.bind realm s n u).look other q m = t.look other q m := by
  refine look_of_same nested (size_bind ..) (globals_bind ..) (parent_scope_bind t there realm n u)
    (fun i => ?_) inside
  rw [own_scope_bind t there, if_neg fun both => apart both.1]

/-- In every table that can be had the root is the only scope that lies in no other and each other
scope lies in an older one, so that the scopes around a scope are a path that ends at the root and a
lookup goes along all of it. Whatever changes led to the table, and some did, a scope lists the
names bound in it each once, in the order in which they were first bound. A lookup after a binding
finds the new type where the binding counts, and what it found before everywhere else. -/
theorem scopes_nest_and_shadow {globals : Scope} {t : ScopeTree} (reached : Reachable globals t) :
    t.globals = globals ∧ root < t.size ∧
    (∀ s < t.size, (t.scope s).parent = none ↔ s = root) ∧
    (∀ s p, s < t.size → (t.scope s).parent = some p → p < s) ∧
    (∀ s < t.size, ∃ ids, t.Ancestry s ids ∧ ids.getLast? = some root ∧
      t.chain s = ids.map t.scope) ∧
    (∃ log, Becomes (ScopeTree.new globals) log t) ∧
    (∀ log, Becomes (ScopeTree.new globals) log t → ∀ realm s,
      ((t.scope s).own realm).names = (log.filterMap (·.nameIn realm s)).eraseDups) ∧
    (∀ realm s, ((t.scope s).own realm).names.Nodup) ∧
    ∀ s q, s < t.size → q < t.size → ∀ n m u,
      Overridden (m = n ∧ t.Visible .vars s q n) u (t.getVariable q m)
        ((t.setVariable s n u).getVariable q m) ∧
      (t.setVariable s n u).getType q m = t.getType q m ∧
      (t.setVariable s n u).globals = t.globals ∧
      Overridden (m = n ∧ t.Visible .types s q n) u (t.getType q m)
        ((t.setType s n u).getType q m) ∧
      (t.setType s n u).getVariable q m = t.getVariable q m ∧
      (t.setType s n u).globals = t.globals := by
  obtain ⟨log, made⟩ := reached.becomes
  have rooted := made.rooted (new_rooted globals)
  refine ⟨made.globals, rooted.inside, rooted.only, rooted.nested,
    fun s inside => rooted.ancestry inside, ⟨log, made⟩, fun _ other => other.names_new, ?_, ?_⟩
  · intro realm s
    rw [made.names_new]
    exact Bindings.nodup_eraseDups _
  · intro s q there inside n m u
    have nested := rooted.nested
    exact ⟨look_bind nested there inside .vars n m u,
      look_bind_other nested there inside (by decide : Realm.types ≠ .vars) n m u, rfl,
      look_bind nested there inside .types n m u,
      look_bind_other nested there inside (by decide : Realm.vars ≠ .types) n m u, rfl⟩

/-- A block that binds `x`, in it a function with a parameter `x`: another `x` for the block is seen
from a scope in the block, but not from one in the function. -/
theorem scopes_nest_and_shadow_parameter :
    let globals : Scope := { vars := [("x", .bool)] }
    let define (name : String) (value : Node) : Node := .mk (.define name none value false) none
    let text : Node := .mk (.str "t") none
    let f : Node := .mk (.function [.mk "x" (some (.mk (.namedType "T" none) none))] none []) none
    let checked := (Checker.checkBlock
      [define "b" text, define "a" text, define "b" f, .mk (.block [define "x" text]) none] 0 none
      ⟨(ScopeTree.new globals).setType 0 "T" .num, []⟩).scopes
    let t := (((infer f 3 checked).2.openChild 4).2.openChild 3).2
    let after := t.setVariable 3 "x" .null
    Reachable globals t ∧ (t.scope 0).vars.names = ["b", "a"] ∧
      (∃ log, Becomes (ScopeTree.new globals) log t ∧
        (log.filterMap (·.nameIn .vars 0)).eraseDups = ["b", "a"]) ∧
      t.Visible .vars 3 6 "x" ∧ after.getVariable 6 "x" = some .null ∧
      ¬ t.Visible .vars 3 5 "x" ∧ after.getVariable 5 "x" = some .num := by
  intro globals define text f checked t after
  have aliased : Reachable globals ((ScopeTree.new globals).setType 0 "T" .num) :=
    .setType .new (by decide) "T" .num
  have reached : Reachable globals t := by
    refine .openChild (.openChild (.infer (.block aliased ?_ _ none []) ?_ f) ?_) ?_
    all_goals decide +kernel
  obtain ⟨_, _, _, nested, _, ⟨log, made⟩, names, _, shadows⟩ := scopes_nest_and_shadow reached
  have listed : (t.scope 0).vars.names = ["b", "a"] := by decide +kernel
  have fourth : (t.scope 4).parent = some 3 := by decide +kernel
  have fifth : (t.scope 5).parent = some 4 := by decide +kernel
  have sixth : (t.scope 6).parent = some 3 := by decide +kernel
  have third : 3 < t.size := by decide +kernel
  have visible : t.Visible .vars 3 6 "x" := by
    refine ⟨.inr (.parent sixth), ?_⟩
    rintro i (rfl | outer) around
    · decide +kernel
    · obtain ⟨p, opened, place⟩ := encloses_iff.mp outer
      obtain rfl : 3 = p := Option.some.inj (sixth.symm.trans opened)
      have low : i ≤ 3 := by
        rcases place with rfl | further
        · exact Nat.le_refl _
        · exact Nat.le_of_lt (further.lower nested third)
      exact absurd (around.lower nested (Nat.lt_of_le_of_lt low third)) (Nat.not_lt.mpr low)
  have hidden : ¬ t.Visible .vars 3 5 "x" := by
    rintro ⟨_, free⟩
    have bound := free 4 (.inr (.parent fifth)) (.parent fourth)
    revert bound
    decide +kernel
  refine ⟨reached, listed, ⟨log, made, (names log made .vars 0).symm.trans listed⟩, visible, ?_,
    hidden, ?_⟩
  · exact (shadows 3 6 third (by decide +kernel) "x" "x" .null).1.1 ⟨rfl, visible⟩
  · have same := (shadows 3 5 third (by decide +kernel) "x" "x" .null).1.2
      fun both => hidden both.2
    rw [same]
    decide +kernel

end ScopeTree
end ScriptCheck
