import ScriptCheck.Proofs.Dependence

/-! What inference leaves behind. It reads the lookups of one scope and nothing else of the table,
and all it adds are scopes at the end of the table: as many for a node wherever the node is
inferred, and each of them inside the scope that it is inferred in. -/
namespace ScriptCheck
open ScopeTree

/-! How many scopes are opened -/

def Opens (n : Node) (k : Nat) : Prop := ∀ s t, (infer n s t).2.size = t.size + k

theorem inferAll_opens {ns : List Node} (each : ∀ n ∈ ns, ∃ k, Opens n k) :
    ∃ k, ∀ s t, (inferAll ns s t).2.size = t.size + k := by
  induction ns with
  | nil => exact ⟨0, fun _ _ => rfl⟩
  | cons n rest ih =>
    obtain ⟨⟨j, head⟩, tail⟩ := List.forall_mem_cons.mp each
    obtain ⟨k, others⟩ := ih tail
    refine ⟨j + k, fun s t => ?_⟩
    simp only [inferAll, others, head s t]
    omega

theorem inferMaybe_opens {o : Option Node} (each : ∀ n ∈ o.toList, ∃ k, Opens n k) :
    ∃ k, ∀ s t, (inferMaybe o s t).2.size = t.size + k := by
  cases o with
  | none => exact ⟨0, fun _ _ => rfl⟩
  | some n => exact each n (by simp)

theorem inferParams_opens {params : List Param}
    (each : ∀ n ∈ params.flatMap fun p => p.declared.toList, ∃ k, Opens n k) :
    ∃ k, ∀ s inner t, (inferParams params s inner t).2.size = t.size + k := by
  induction params with
  | nil => exact ⟨0, fun _ _ _ => rfl⟩
  | cons p rest ih =>
    obtain ⟨name, declared⟩ := p
    simp only [List.flatMap_cons, List.forall_mem_append, Param.declared] at each
    obtain ⟨j, head⟩ := inferMaybe_opens each.1
    obtain ⟨k, others⟩ := ih each.2
    refine ⟨j + k, fun s inner t => ?_⟩
    simp only [inferParams_cons, others, size_setVariable, head]
    omega

theorem infer_function_opens {params : List Param} {result : Option Node} {body : List Node}
    (annotations : ∀ n ∈ params.flatMap fun p => p.declared.toList, ∃ k, Opens n k)
    (declared : ∀ d ∈ result, ∃ k, Opens d k)
    (value : ∀ e, firstReturn body = some e → ∃ k, Opens e k) (loc : Option Span) :
    ∃ k, Opens (.mk (.function params result body) loc) k := by
  obtain ⟨j, bound⟩ := inferParams_opens annotations
  cases result with
  | some d =>
    obtain ⟨k, last⟩ := declared d rfl
    refine ⟨1 + j + k, fun s t => ?_⟩
    simp only [infer, last _ _, bound, size_openChild]
    omega
  | none =>
    cases found : firstReturn body with
    | none =>
      refine ⟨1 + j, fun s t => ?_⟩
      simp only [infer, inferReturn_eq, found, Option.map_none, Option.getD_none, bound,
        size_openChild]
      omega
    | some e =>
      obtain ⟨k, last⟩ := value e found
      refine ⟨1 + j + k, fun s t => ?_⟩
      simp only [infer, inferReturn_eq, found, Option.map_some, Option.getD_some, last _ _, bound,
        size_openChild]
      omega

theorem infer_opens (n : Node) : ∃ k, Opens n k := by
  induction n using Node.valueInduction with
  | step n each value =>
    obtain ⟨kind, loc⟩ := n
    change ∀ m ∈ kind.parts, ∃ k, Opens m k at each
    cases kind with
    | fnType params result =>
      simp only [Kind.parts, List.forall_mem_append, List.forall_mem_singleton] at each
      obtain ⟨j, types⟩ := inferAll_opens each.1
      obtain ⟨k, last⟩ := each.2
      refine ⟨j + k, fun s t => ?_⟩
      simp only [infer, last _ _, types]
      omega
    | function params result body =>
      simp only [Kind.parts, List.forall_mem_append] at each
      exact infer_function_opens each.1.1 (fun d there => each.1.2 d (Option.mem_toList.mpr there))
        value loc
    | call target args =>
      obtain ⟨k, callee⟩ := each target (by simp [Kind.parts])
      refine ⟨k, fun s t => ?_⟩
      have opened := callee s t
      simp only [infer]
      generalize infer target s t = answer at opened
      obtain ⟨u, after⟩ := answer
      cases u <;> exact opened
    | _ => exact ⟨0, fun _ _ => rfl⟩

/-! Where they are opened -/

namespace ScopeTree

/-- Scope `s` is the parent of scope `i`, or the parent of its parent, and so on. -/
inductive Encloses (t : ScopeTree) (s : ScopeId) : ScopeId → Prop where
  | parent {i : ScopeId} (opened : (t.scope i).parent = some s) : Encloses t s i
  | further {p i : ScopeId} (outer : Encloses t s p) (opened : (t.scope i).parent = some p) :
      Encloses t s i

theorem Grows.encloses {s : Nat} {t t' : ScopeTree} (grows : Grows s t t') {i : Nat}
    (new : t.size ≤ i) (inside : i < t'.size) : t'.Encloses s i := by
  induction i using Nat.strongRecOn with
  | ind i ih =>
    obtain ⟨p, parent, lower, rfl | fresh⟩ := grows.fresh i new inside
    · exact .parent parent
    · exact .further (ih p lower fresh (by omega)) parent

theorem getElem?_scopes {t : ScopeTree} {i : Nat} (inside : i < t.size) :
    t.scopes[i]? = some (t.scope i) := by
  simp only [size] at inside
  simp [scope, inside]

theorem Keeps.scope {s : Nat} {t t' : ScopeTree} (keeps : Keeps s t t') {i : Nat}
    (old : i < t.size) : t'.scope i = t.scope i := by
  by_cases here : i = s
  · subst here
    have parent := keeps.parent
    have types := keeps.types
    have vars := keeps.vars
    cases before : t.scope i
    cases after : t'.scope i
    simp_all
  · exact keeps.others i old here

theorem Keeps.appended {s : Nat} {t t' : ScopeTree} (keeps : Keeps s t t') :
    ∃ opened, t' = { t with scopes := t.scopes ++ opened } := by
  refine ⟨t'.scopes.extract t.scopes.size t'.scopes.size, ?_⟩
  have scopes : t'.scopes = t.scopes ++ t'.scopes.extract t.scopes.size t'.scopes.size := by
    apply Array.ext_getElem?
    intro i
    by_cases old : i < t.scopes.size
    · rw [Array.getElem?_append_left old, getElem?_scopes old,
        getElem?_scopes (Nat.lt_of_lt_of_le old keeps.size), keeps.scope old]
    · have place : t.scopes.size + (i - t.scopes.size) = i := by omega
      rw [Array.getElem?_append_right (Nat.le_of_not_lt old), Array.getElem?_extract]
      by_cases inside : i < t'.scopes.size
      · rw [if_pos (by omega), place]
      · rw [if_neg (by omega), Array.getElem?_eq_none (Nat.le_of_not_lt inside)]
  obtain ⟨globals', scopes'⟩ := t'
  obtain rfl : globals' = t.globals := keeps.globals
  exact congrArg _ scopes

end ScopeTree

/-- Inferring a node in a scope of a table leaves no trace. The table is as it was, with some scopes
behind it: their number depends on the node alone, each of them lies in the scope of the node, and
none of them is seen when the node is inferred again. What is inferred depends on what the names in
the node stand for, in whatever scope of whatever table. -/
theorem infer_leaves_no_trace (n : Node) :
    (∃ k, ∀ (t : ScopeTree) (s : ScopeId), s < t.size →
      let after := (infer n s t).2
      (∃ opened : Array Scope, opened.size = k ∧
        after = { t with scopes := t.scopes ++ opened }) ∧
      (∀ i, t.size ≤ i → i < after.size → after.Encloses s i) ∧
      (t.Nested → (infer n s after).1 = (infer n s t).1)) ∧
    ∀ (t t' : ScopeTree) (s s' : ScopeId), t.Nested → s < t.size → t'.Nested → s' < t'.size →
      (t.view s).AgreeOn (t'.view s') n → (infer n s t).1 = (infer n s' t').1 := by
  obtain ⟨k, opens⟩ := infer_opens n
  constructor
  · refine ⟨k, fun t s inside => ?_⟩
    intro after
    have inferred := infer_agrees n inside
    have keeps : Keeps s t after := inferred.keeps
    refine ⟨?_, fun i new old => keeps.encloses new old, fun nested => ?_⟩
    · obtain ⟨opened, whole⟩ := keeps.appended
      have size : after.size = t.size + k := opens s t
      refine ⟨opened, ?_, whole⟩
      rw [whole] at size
      simpa [ScopeTree.size] using size
    · have again := infer_agrees n (keeps.inside inside)
      rw [again.agrees (keeps.nested nested), keeps.view nested inside, inferred.agrees nested]
  · intro t t' s s' nested inside nested' inside' agree
    rw [(infer_agrees n inside).agrees nested, (infer_agrees n inside').agrees nested',
      typeOf_congr agree]

/-- The result of calling a literal that binds a name twice and returns a literal that mentions it:
two scopes are opened, one in the other, and the variable of that name further out is not seen. -/
theorem infer_leaves_no_trace_shadowed :
    let named : Node := .mk (.namedType "T" none) none
    let inner : Node := .mk (.function [.mk "y" (some named)] none
      [.mk (.ret (.mk (.ident "x") none)) none]) none
    let outer : Node := .mk (.function [.mk "x" (some named), .mk "x" none] none
      [.mk (.ret inner) none]) none
    let n : Node := .mk (.call outer []) none
    let globals : Scope := { types := [("T", .str)] }
    let t := ((ScopeTree.new globals).openChild 0).2.setVariable 1 "x" .bool
    let t' := ScopeTree.new (globals.setVariable "x" .bool |>.setVariable "y" .num)
    let after := (infer n 1 t).2
    t.Nested ∧ 1 < t.size ∧ t'.Nested ∧ 0 < t'.size ∧ (t.view 1).AgreeOn (t'.view 0) n ∧
      (∃ opened : Array Scope, opened.size = 2 ∧
        after = { t with scopes := t.scopes ++ opened }) ∧
      after.Encloses 1 3 ∧ (infer n 1 after).1 = .signature [.str] .any ∧
      (infer n 0 t').1 = .signature [.str] .any := by
  intro named inner outer n globals t t' after
  have first : 0 < (ScopeTree.new globals).size := by decide
  have nested : t.Nested := by
    have opened := (Region.opened (ScopeTree.new globals) first).keeps.nested (new_nested globals)
    exact (Binds.setVariable _ (by decide) "x" .bool).nested opened
  have inside : 1 < t.size := by decide
  have agree : (t.view 1).AgreeOn (t'.view 0) n := by
    constructor
    · intro x loc mentioned
      obtain ⟨rfl, _⟩ : x = "x" ∧ loc = none := by
        simpa [n, outer, inner, named, Node.within_iff, Kind.parts, Param.declared] using mentioned
      decide +kernel
    · intro x m loc mentioned
      obtain ⟨⟨rfl, _⟩, _⟩ : (x = "T" ∧ m = none) ∧ loc = none := by
        simpa [n, outer, inner, named, Node.within_iff, Kind.parts, Param.declared] using mentioned
      decide +kernel
  have type : (infer n 1 t).1 = .signature [.str] .any := by decide +kernel
  obtain ⟨⟨k, trace⟩, general⟩ := infer_leaves_no_trace n
  obtain ⟨⟨opened, size, whole⟩, encloses, again⟩ := trace t 1 inside
  have grown : after.size = 4 := by decide +kernel
  have two : opened.size = 2 := by
    have total : after.size = t.size + opened.size :=
      (congrArg ScopeTree.size whole).trans Array.size_append
    have before : t.size = 2 := by decide
    omega
  refine ⟨nested, inside, new_nested _, by decide, agree, ⟨opened, two, whole⟩, ?_, ?_, ?_⟩
  · exact encloses 3 (by decide) (by rw [grown]; decide)
  · exact (again nested).trans type
  · exact (general t t' 1 0 nested inside (new_nested _) (by decide) agree).symm.trans type

end ScriptCheck
