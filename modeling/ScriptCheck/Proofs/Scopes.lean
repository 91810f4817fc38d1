import Mathlib.Tactic.Common
import ScriptCheck.Proofs.Environment

/-! What the operations on bindings and on the table of scopes do, and how much of the table a
change leaves alone. -/
namespace ScriptCheck

namespace Bindings

theorem get?_set (b : Bindings) (name x : String) (u : Ty) :
    (b.set name u).get? x = if x = name then some u else b.get? x := by
  induction b with
  | nil => by_cases h : name = x <;> simp [set, get?, h, Ne.symm]
  | cons entry rest ih =>
    obtain ⟨n, w⟩ := entry
    by_cases h : n = name
    · subst h
      by_cases hx : n = x <;> simp [set, get?, hx, Ne.symm]
    · by_cases hx : n = x
      · subst hx
        simp [set, get?, h]
      · simp [set, get?, h, hx, ih]

theorem get?_eq_none_iff (b : Bindings) (x : String) : b.get? x = none ↔ x ∉ b.names := by
  induction b with
  | nil => simp [get?, names]
  | cons entry rest ih =>
    obtain ⟨n, w⟩ := entry
    by_cases hx : n = x
    · simp [get?, names, hx]
    · have back : ¬ x = n := fun h => hx h.symm
      simpa [get?, names, hx, back] using ih

/-- A list of names followed by those of `more` that are not in it, each where it first occurs. -/
def addNames (old more : List String) : List String := old ++ (more.filter (· ∉ old)).eraseDups

@[simp] theorem addNames_nil (old : List String) : addNames old [] = old := by simp [addNames]

@[simp] theorem addNames_to_nil (more : List String) : addNames [] more = more.eraseDups := by
  have all : more.filter (· ∉ ([] : List String)) = more := List.filter_eq_self.mpr (by simp)
  rw [addNames, all, List.nil_append]

theorem addNames_singleton (old : List String) (x : String) :
    addNames old [x] = if x ∈ old then old else old ++ [x] := by
  by_cases h : x ∈ old <;> simp [addNames, h, List.eraseDups_cons]

theorem addNames_append (old first second : List String) :
    addNames (addNames old first) second = addNames old (first ++ second) := by
  have rest : second.filter (· ∉ addNames old first) =
      (second.filter (· ∉ old)).removeAll (first.filter (· ∉ old)) := by
    simp only [List.removeAll, List.filter_filter]
    apply List.filter_congr
    intro x _
    by_cases hx : x ∈ old <;> simp [addNames, hx, List.mem_eraseDups]
  rw [addNames, rest, addNames, addNames, List.filter_append, List.eraseDups_append,
    List.append_assoc]

theorem nodup_eraseDups (names : List String) : names.eraseDups.Nodup := by
  match names with
  | [] => simp
  | x :: rest =>
    rw [List.eraseDups_cons]
    have fewer : (rest.filter fun y => !y == x).length ≤ rest.length := List.length_filter_le _ _
    exact List.nodup_cons.mpr ⟨by simp [List.mem_eraseDups], nodup_eraseDups _⟩
termination_by names.length

theorem names_set (b : Bindings) (name : String) (u : Ty) :
    (b.set name u).names = addNames b.names [name] := by
  rw [addNames_singleton]
  induction b with
  | nil => simp [set, names]
  | cons entry rest ih =>
    obtain ⟨n, w⟩ := entry
    by_cases h : n = name
    · simp [set, names, h]
    · have back : ¬ name = n := fun e => h e.symm
      simp only [names] at ih
      by_cases hm : name ∈ rest.map Prod.fst <;> simp [set, names, h, back, ih, hm]

end Bindings

namespace ScopeTree

@[simp] theorem size_setVariable (t : ScopeTree) (s : ScopeId) (name : String) (u : Ty) :
    (t.setVariable s name u).size = t.size := by simp [setVariable, size]

@[simp] theorem size_setType (t : ScopeTree) (s : ScopeId) (name : String) (u : Ty) :
    (t.setType s name u).size = t.size := by simp [setType, size]

@[simp] theorem size_openChild (t : ScopeTree) (s : ScopeId) :
    (t.openChild s).2.size = t.size + 1 := by simp [openChild, size]

theorem scope_modify (t : ScopeTree) {s : ScopeId} (inside : s < t.size) (f : Scope → Scope)
    (i : ScopeId) :
    ScopeTree.scope { t with scopes := t.scopes.modify s f } i =
      if i = s then f (t.scope i) else t.scope i := by
  simp only [scope, Array.getElem?_modify]
  by_cases h : s = i
  · subst h
    simp only [size] at inside
    simp [inside]
  · have back : ¬ i = s := fun e => h e.symm
    simp [h, back]

theorem scope_setVariable (t : ScopeTree) {s : ScopeId} (inside : s < t.size) (name : String)
    (u : Ty) (i : ScopeId) :
    (t.setVariable s name u).scope i =
      if i = s then (t.scope i).setVariable name u else t.scope i :=
  scope_modify t inside _ i

theorem scope_setType (t : ScopeTree) {s : ScopeId} (inside : s < t.size) (name : String)
    (u : Ty) (i : ScopeId) :
    (t.setType s name u).scope i = if i = s then (t.scope i).setType name u else t.scope i :=
  scope_modify t inside _ i

theorem scope_openChild (t : ScopeTree) (s i : ScopeId) :
    (t.openChild s).2.scope i = if i = t.size then { parent := some s } else t.scope i := by
  simp only [openChild, scope, size, Array.getElem?_push]
  by_cases h : i = t.scopes.size <;> simp [h]

/-- Every scope was opened inside an older one. -/
def Nested (t : ScopeTree) : Prop :=
  ∀ s p : Nat, s < t.size → (t.scope s).parent = some p → p < s

theorem new_nested (globals : Scope) : (ScopeTree.new globals).Nested := by
  intro s p hs hp
  have first : s = 0 := by simpa [new, size] using hs
  subst first
  simp [new, scope] at hp

theorem chainWithin_inside (t : ScopeTree) (bound : Nat) {s : ScopeId} (inside : s < t.size) :
    t.chainWithin (bound + 1) s = t.scope s ::
      match (t.scope s).parent with
      | none => []
      | some p => t.chainWithin bound p := by
  have found : t.scopes[s]? = some (t.scope s) := by
    simp only [size] at inside
    simp [scope, inside]
  simp only [chainWithin, found]
  cases (t.scope s).parent <;> rfl

theorem chainWithin_enough (t : ScopeTree) (nested : t.Nested) {bound s : Nat}
    (enough : s < bound) : t.chainWithin bound s = t.chain s := by
  -- a parent stands before its child, so the induction is on the place and not on the bound
  induction s using Nat.strongRecOn generalizing bound with
  | ind s ih =>
    obtain ⟨bound, rfl⟩ : ∃ k, bound = k + 1 := ⟨bound - 1, by omega⟩
    by_cases inside : s < t.size
    · rw [chain, chainWithin_inside t bound inside, chainWithin_inside t s inside]
      cases hp : (t.scope s).parent with
      | none => rfl
      | some p =>
        have lower := nested s p inside hp
        have wide : p < bound := Nat.lt_of_lt_of_le lower (Nat.le_of_lt_succ enough)
        simp only [ih p lower wide, ih p lower lower]
    · have none : t.scopes[s]? = none := by
        simp only [size] at inside
        simp [Nat.le_of_not_lt inside]
      simp [chain, chainWithin, none]

/-- The scopes around a scope, innermost first, the globals last. -/
def around (t : ScopeTree) (s : ScopeId) : List Scope :=
  match (t.scope s).parent with
  | none => [t.globals]
  | some p => t.chain p ++ [t.globals]

theorem chain_around (t : ScopeTree) (nested : t.Nested) {s : ScopeId} (inside : s < t.size) :
    t.chain s ++ [t.globals] = t.scope s :: t.around s := by
  rw [chain, chainWithin_inside t s inside, around]
  cases hp : (t.scope s).parent with
  | none => rfl
  | some p => simp [chainWithin_enough t nested (nested s p inside hp)]

theorem chain_congr {t t' : ScopeTree} (nested : t.Nested) (size : t.size ≤ t'.size) {s : ScopeId}
    (inside : s < t.size) (same : ∀ i ≤ s, t'.scope i = t.scope i) : t'.chain s = t.chain s := by
  have within (bound : Nat) : ∀ i ≤ s, t'.chainWithin bound i = t.chainWithin bound i := by
    induction bound with
    | zero => intro i _; rfl
    | succ bound ih =>
      intro i hi
      have here : i < t.size := Nat.lt_of_le_of_lt hi inside
      rw [chainWithin_inside t' bound (Nat.lt_of_lt_of_le here size),
        chainWithin_inside t bound here, same i hi]
      cases hp : (t.scope i).parent with
      | none => rfl
      | some p => simp only [ih p (Nat.le_of_lt (Nat.lt_of_lt_of_le (nested i p here hp) hi))]
  exact within (s + 1) s (Nat.le_refl s)

def view (t : ScopeTree) (s : ScopeId) : Lookups := ⟨t.getVariable s, t.getType s⟩

def outside (t : ScopeTree) (s : ScopeId) : Lookups :=
  ⟨fun x => (t.around s).findSome? (·.vars.get? x), t.getType s⟩

theorem view_eq (t : ScopeTree) (nested : t.Nested) {s : ScopeId} (inside : s < t.size) :
    t.view s = (t.outside s).extend (t.scope s).vars := by
  have var (x : String) :
      t.getVariable s x = ((t.scope s).vars.get? x).or ((t.outside s).var x) := by
    rw [getVariable, chain_around t nested inside, List.findSome?_cons]
    cases (t.scope s).vars.get? x <;> rfl
  simp only [view, Lookups.extend, outside, Lookups.mk.injEq, and_true]
  exact funext var

theorem getType_eq (t : ScopeTree) (nested : t.Nested) {s : ScopeId} (inside : s < t.size)
    (x : String) :
    t.getType s x = ((t.scope s).types.get? x).or ((t.around s).findSome? (·.types.get? x)) := by
  rw [getType, chain_around t nested inside, List.findSome?_cons]
  cases (t.scope s).types.get? x <;> rfl

/-- From `t` to `t'` scopes were opened in scope `s`, and no other old scope was touched. -/
structure Grows (s : Nat) (t t' : ScopeTree) : Prop where
  globals : t'.globals = t.globals
  size : t.size ≤ t'.size
  others : ∀ i : Nat, i < t.size → i ≠ s → t'.scope i = t.scope i
  parent : (t'.scope s).parent = (t.scope s).parent
  types : (t'.scope s).types = (t.scope s).types
  fresh : ∀ i : Nat, t.size ≤ i → i < t'.size →
    ∃ p : Nat, (t'.scope i).parent = some p ∧ p < i ∧ (p = s ∨ t.size ≤ p)

/-- Scope `s` was not touched either. -/
structure Keeps (s : Nat) (t t' : ScopeTree) : Prop extends Grows s t t' where
  vars : (t'.scope s).vars = (t.scope s).vars

structure Binds (s : Nat) (bound : List String) (t t' : ScopeTree) : Prop
    extends Grows s t t' where
  names : (t'.scope s).vars.names = Bindings.addNames (t.scope s).vars.names bound
  kept : ∀ x, x ∉ bound → (t'.scope s).vars.get? x = (t.scope s).vars.get? x

namespace Grows

theorem inside {s : Nat} {t t' : ScopeTree} (grows : Grows s t t') (inside : s < t.size) :
    s < t'.size := Nat.lt_of_lt_of_le inside grows.size

theorem trans {s : Nat} {t u w : ScopeTree} (inside : s < t.size) (first : Grows s t u)
    (second : Grows s u w) : Grows s t w where
  globals := second.globals.trans first.globals
  size := Nat.le_trans first.size second.size
  others i hi hne :=
    (second.others i (Nat.lt_of_lt_of_le hi first.size) hne).trans (first.others i hi hne)
  parent := second.parent.trans first.parent
  types := second.types.trans first.types
  fresh i hi hw := by
    by_cases mid : i < u.size
    · obtain ⟨p, hp, lower, place⟩ := first.fresh i hi mid
      have other : i ≠ s := by omega
      exact ⟨p, by rw [second.others i mid other, hp], lower, place⟩
    · obtain ⟨p, hp, lower, place⟩ := second.fresh i (Nat.le_of_not_lt mid) hw
      have grown := first.size
      exact ⟨p, hp, lower, by omega⟩

theorem nested {s : Nat} {t t' : ScopeTree} (grows : Grows s t t') (nested : t.Nested) :
    t'.Nested := by
  intro i p hi hp
  by_cases old : i < t.size
  · by_cases here : i = s
    · subst here
      exact nested i p old (grows.parent ▸ hp)
    · exact nested i p old (grows.others i old here ▸ hp)
  · obtain ⟨q, hq, lower, _⟩ := grows.fresh i (Nat.le_of_not_lt old) hi
    rw [hq] at hp
    exact Option.some.inj hp ▸ lower

theorem around {s : Nat} {t t' : ScopeTree} (grows : Grows s t t') (nested : t.Nested)
    (inside : s < t.size) : t'.around s = t.around s := by
  simp only [ScopeTree.around, grows.parent, grows.globals]
  cases hp : (t.scope s).parent with
  | none => rfl
  | some p =>
    have lower : p < s := nested s p inside hp
    have outer : t'.chain p = t.chain p := by
      apply chain_congr nested grows.size (Nat.lt_trans lower inside)
      intro i hi
      have before : i < s := Nat.lt_of_le_of_lt hi lower
      exact grows.others i (Nat.lt_trans before inside) (Nat.ne_of_lt before)
    simp only [outer]

theorem outside {s : Nat} {t t' : ScopeTree} (grows : Grows s t t') (nested : t.Nested)
    (inside : s < t.size) : t'.outside s = t.outside s := by
  have type (x : String) : t'.getType s x = t.getType s x := by
    rw [getType_eq t' (grows.nested nested) (grows.inside inside),
      getType_eq t nested inside, grows.types, grows.around nested inside]
  simp only [ScopeTree.outside, grows.around nested inside, Lookups.mk.injEq, true_and]
  exact funext type

end Grows

namespace Keeps

theorem refl (s : Nat) (t : ScopeTree) : Keeps s t t :=
  ⟨⟨rfl, Nat.le_refl _, fun _ _ _ => rfl, rfl, rfl, fun i hi hw => by omega⟩, rfl⟩

theorem trans {s : Nat} {t u w : ScopeTree} (inside : s < t.size) (first : Keeps s t u)
    (second : Keeps s u w) : Keeps s t w :=
  ⟨first.toGrows.trans inside second.toGrows, second.vars.trans first.vars⟩

theorem view {s : Nat} {t t' : ScopeTree} (keeps : Keeps s t t') (nested : t.Nested)
    (inside : s < t.size) : t'.view s = t.view s := by
  rw [view_eq t' (keeps.nested nested) (keeps.inside inside),
    view_eq t nested inside, keeps.outside nested inside, keeps.vars]

theorem binds {s : Nat} {t t' : ScopeTree} (keeps : Keeps s t t') : Binds s [] t t' :=
  ⟨keeps.toGrows, by rw [keeps.vars, Bindings.addNames_nil], fun _ _ => by rw [keeps.vars]⟩

end Keeps

namespace Binds

theorem trans {s : Nat} {first second : List String} {t u w : ScopeTree} (inside : s < t.size)
    (before : Binds s first t u) (after : Binds s second u w) : Binds s (first ++ second) t w where
  toGrows := before.toGrows.trans inside after.toGrows
  names := by rw [after.names, before.names, Bindings.addNames_append]
  kept x absent := by
    rw [List.mem_append, not_or] at absent
    rw [after.kept x absent.2, before.kept x absent.1]

theorem setVariable {s : Nat} (t : ScopeTree) (inside : s < t.size) (name : String) (u : Ty) :
    Binds s [name] t (t.setVariable s name u) := by
  have here : (t.setVariable s name u).scope s = (t.scope s).setVariable name u := by
    rw [scope_setVariable t inside, if_pos rfl]
  refine ⟨⟨rfl, by simp, ?_, ?_, ?_, ?_⟩, ?_, ?_⟩
  · intro i _ hne
    rw [scope_setVariable t inside, if_neg hne]
  · rw [here]; rfl
  · rw [here]; rfl
  · intro i hi hw
    rw [size_setVariable] at hw
    omega
  · rw [here]
    exact Bindings.names_set _ _ _
  · intro x absent
    rw [here]
    simp only [Scope.setVariable, Bindings.get?_set]
    rw [if_neg (by simpa using absent)]

end Binds

/-- Since `t` scope `inner` was opened in scope `s`, and nothing older was touched. -/
structure Region (inner s : Nat) (t t' : ScopeTree) : Prop where
  keeps : Keeps s t t'
  new : t.size ≤ inner
  inside : inner < t'.size
  parent : (t'.scope inner).parent = some s
  types : (t'.scope inner).types = []

namespace Region

theorem opened {s : Nat} (t : ScopeTree) (inside : s < t.size) :
    Region t.size s t (t.openChild s).2 := by
  have old (i : Nat) (hi : i < t.size) : (t.openChild s).2.scope i = t.scope i := by
    rw [scope_openChild, if_neg (Nat.ne_of_lt hi)]
  have here : (t.openChild s).2.scope t.size = { parent := some s } := by
    rw [scope_openChild, if_pos rfl]
  refine ⟨⟨⟨rfl, by simp, fun i hi _ => old i hi, ?_, ?_, ?_⟩, ?_⟩, Nat.le_refl _, by simp, ?_, ?_⟩
  · rw [old s inside]
  · rw [old s inside]
  · intro i hi hw
    have only : i = t.size := by rw [size_openChild] at hw; omega
    subst only
    exact ⟨s, by rw [here], inside, .inl rfl⟩
  · rw [old s inside]
  · rw [here]
  · rw [here]

theorem outer {inner s : Nat} {t u w : ScopeTree} (region : Region inner s t u)
    (inside : s < t.size) (keeps : Keeps s u w) : Region inner s t w := by
  have new := region.new
  have same : w.scope inner = u.scope inner :=
    keeps.others inner region.inside (by omega)
  exact ⟨region.keeps.trans inside keeps, new, Nat.lt_of_lt_of_le region.inside keeps.size,
    by rw [same, region.parent], by rw [same, region.types]⟩

theorem grow {inner s : Nat} {t u w : ScopeTree} (region : Region inner s t u)
    (inside : s < t.size) (grows : Grows inner u w) : Region inner s t w := by
  have grown := region.keeps.size
  have new := region.new
  have old (i : Nat) (hi : i < t.size) : w.scope i = u.scope i :=
    grows.others i (Nat.lt_of_lt_of_le hi grown) (by omega)
  have size := Nat.le_trans grown grows.size
  refine ⟨⟨⟨grows.globals.trans region.keeps.globals, size, ?_, ?_, ?_, ?_⟩, ?_⟩, new,
    Nat.lt_of_lt_of_le region.inside grows.size, ?_, ?_⟩
  · intro i hi hne
    rw [old i hi, region.keeps.others i hi hne]
  · rw [old s inside, region.keeps.parent]
  · rw [old s inside, region.keeps.types]
  · intro i hi hw
    by_cases mid : i < u.size
    · obtain ⟨p, hp, lower, place⟩ := region.keeps.fresh i hi mid
      refine ⟨p, ?_, lower, place⟩
      by_cases here : i = inner
      · subst here
        rw [grows.parent, hp]
      · rw [grows.others i mid here, hp]
    · obtain ⟨p, hp, lower, place⟩ := grows.fresh i (Nat.le_of_not_lt mid) hw
      exact ⟨p, hp, lower, .inr (by omega)⟩
  · rw [old s inside, region.keeps.vars]
  · rw [grows.parent, region.parent]
  · rw [grows.types, region.types]

theorem outside {inner s : Nat} {t t' : ScopeTree} (region : Region inner s t t')
    (nested : t.Nested) (inside : s < t.size) : t'.outside inner = t.view s := by
  have nested' := region.keeps.nested nested
  have outer : t'.around inner = t'.chain s ++ [t'.globals] := by
    simp only [ScopeTree.around, region.parent]
  have type (x : String) : t'.getType inner x = t'.getType s x := by
    rw [getType_eq t' nested' region.inside, region.types, outer]
    rfl
  rw [← region.keeps.view nested inside]
  simp only [ScopeTree.outside, outer, view, Lookups.mk.injEq]
  exact ⟨rfl, funext type⟩

end Region
end ScopeTree
end ScriptCheck
