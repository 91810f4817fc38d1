import ScriptCheck.Proofs.FirstReturn
import ScriptCheck.Proofs.Scopes

/-! Inference leaves every scope as it was and answers what the lookups alone determine. The
scopes it opens on the way are seen by nothing that comes later. -/
namespace ScriptCheck
open ScopeTree

/-- An answer given in scope `s` of `t` is what the lookups there say, and no old scope changed. -/
structure Infers {α : Type} (s : Nat) (t : ScopeTree) (answer : α × ScopeTree)
    (expected : Lookups → α) : Prop where
  keeps : Keeps s t answer.2
  agrees : t.Nested → answer.1 = expected (t.view s)

theorem Infers.still {α : Type} (s : Nat) (t : ScopeTree) (a : α) (expected : Lookups → α)
    (agrees : t.Nested → a = expected (t.view s)) : Infers s t (a, t) expected :=
  ⟨Keeps.refl s t, agrees⟩

theorem Infers.after {α β : Type} {s : Nat} {t : ScopeTree} (inside : s < t.size)
    {first : α × ScopeTree} {second : β × ScopeTree} {f : Lookups → α} {g : Lookups → β}
    (before : Infers s t first f) (after : Infers s first.2 second g) : Infers s t second g where
  keeps := before.keeps.trans inside after.keeps
  agrees nested := by
    rw [after.agrees (before.keeps.nested nested), before.keeps.view nested inside]

def Inferable (n : Node) : Prop :=
  ∀ s t, s < t.size → Infers s t (infer n s t) (typeOf n)

theorem inferAll_of_each {ns : List Node} (each : ∀ n ∈ ns, Inferable n) (s : Nat)
    (t : ScopeTree) (inside : s < t.size) : Infers s t (inferAll ns s t) (typeOfAll ns) := by
  induction ns generalizing t with
  | nil => exact .still s t _ _ fun _ => rfl
  | cons n rest ih =>
    have head := each n List.mem_cons_self s t inside
    have tail := ih (fun m h => each m (List.mem_cons_of_mem _ h)) (infer n s t).2
      (head.keeps.inside inside)
    have both := head.after inside tail
    refine ⟨both.keeps, fun nested => ?_⟩
    simp only [inferAll, typeOfAll, head.agrees nested, both.agrees nested]

def inferMaybe : Option Node → ScopeId → ScopeTree → Inferred
  | some n, s, t => infer n s t
  | none, _, t => (.any, t)

theorem inferMaybe_of_each {o : Option Node} (each : ∀ n ∈ o.toList, Inferable n) (s : Nat)
    (t : ScopeTree) (inside : s < t.size) : Infers s t (inferMaybe o s t) (typeOfMaybe o) := by
  cases o with
  | none => exact .still s t _ _ fun _ => rfl
  | some n => exact each n (by simp) s t inside

theorem inferParams_cons (name : String) (declared : Option Node) (rest : List Param)
    (s inner : ScopeId) (t : ScopeTree) :
    inferParams (.mk name declared :: rest) s inner t =
      let first := inferMaybe declared s t
      let others := inferParams rest s inner (first.2.setVariable inner name first.1)
      (first.1 :: others.1, others.2) := by
  cases declared <;> rfl

structure BindsParams (params : List Param) (inner s : Nat) (t before : ScopeTree)
    (answer : List Ty × ScopeTree) : Prop where
  region : Region inner s t answer.2
  agrees : t.Nested → answer.1 = typeOfParams params (t.view s)
  vars : (answer.2.scope inner).vars = bindAll params answer.1 (before.scope inner).vars

theorem inferParams_of_each {params : List Param}
    (each : ∀ n ∈ params.flatMap fun p => p.declared.toList, Inferable n) {inner s : Nat}
    {t u : ScopeTree} (inside : s < t.size) (region : Region inner s t u) :
    BindsParams params inner s t u (inferParams params s inner u) := by
  induction params generalizing u with
  | nil => exact ⟨region, fun _ => rfl, rfl⟩
  | cons p rest ih =>
    obtain ⟨name, declared⟩ := p
    simp only [List.flatMap_cons, List.mem_append, Param.declared] at each
    have first := inferMaybe_of_each (fun n h => each n (.inl h)) s u
      (region.keeps.inside inside)
    have outer := region.outer inside first.keeps
    have bound := Binds.setVariable (inferMaybe declared s u).2 outer.inside name
      (inferMaybe declared s u).1
    have others := ih (fun m h => each m (.inr h)) (outer.grow inside bound.toGrows)
    rw [inferParams_cons]
    refine ⟨others.region, fun nested => ?_, ?_⟩
    · have seen := first.agrees (region.keeps.nested nested)
      rw [region.keeps.view nested inside] at seen
      simp only [typeOfParams, ← seen, others.agrees nested]
    · have other : inner ≠ s := by have := region.new; omega
      have same := first.keeps.others inner region.inside other
      simp only [others.vars, bindAll, Param.name, scope_setVariable _ outer.inside, if_true, same,
        Scope.setVariable]

theorem infer_function {params : List Param} {result : Option Node} {body : List Node}
    (each : ∀ n ∈ (Kind.function params result body).parts, Inferable n)
    (value : ∀ e, firstReturn body = some e → Inferable e) (loc : Option Span)
    {s : Nat} {t : ScopeTree} (inside : s < t.size) :
    Infers s t (infer (.mk (.function params result body) loc) s t)
      (typeOf (.mk (.function params result body) loc)) := by
  simp only [Kind.parts, List.mem_append] at each
  have bound := inferParams_of_each (fun n h => each n (.inl (.inl h))) inside
    (Region.opened t inside)
  generalize answered : inferParams params s t.size (t.openChild s).2 = answer at bound
  obtain ⟨us, u⟩ := answer
  have region : Region t.size s t u := bound.region
  have agrees (nested : t.Nested) : us = typeOfParams params (t.view s) := bound.agrees nested
  cases result with
  | some declared =>
    have declaration := each declared (.inl (.inr (by simp))) s u (region.keeps.inside inside)
    have value : infer (.mk (.function params (some declared) body) loc) s t =
        let p := inferParams params s t.size (t.openChild s).2
        (.signature p.1 (infer declared s p.2).1, (infer declared s p.2).2) := rfl
    rw [value, answered]
    refine ⟨region.keeps.trans inside declaration.keeps, fun nested => ?_⟩
    have type := declaration.agrees (region.keeps.nested nested)
    rw [region.keeps.view nested inside] at type
    simp only [typeOf, type, agrees nested]
  | none =>
    have literal : infer (.mk (.function params none body) loc) s t =
        let p := inferParams params s t.size (t.openChild s).2
        let r := (inferReturn body t.size p.2).getD (.any, p.2)
        (.signature p.1 r.1, r.2) := rfl
    have view (nested : t.Nested) : u.view t.size = (t.view s).extend (bindAll params us []) := by
      rw [view_eq u (region.keeps.nested nested) region.inside, region.outside nested inside,
        bound.vars, scope_openChild, if_pos rfl]
    rw [literal, answered]
    simp only [inferReturn_eq]
    cases found : firstReturn body with
    | none =>
      refine ⟨region.keeps, fun nested => ?_⟩
      simp only [typeOf, typeOfReturn_eq, found, agrees nested, Option.map_none, Option.getD_none]
    | some e =>
      have infers := value e found t.size u region.inside
      refine ⟨(region.grow inside infers.keeps.toGrows).keeps, fun nested => ?_⟩
      have result := infers.agrees (region.keeps.nested nested)
      rw [view nested] at result
      simp only [typeOf, typeOfReturn_eq, found, ← agrees nested, Option.map_some,
        Option.getD_some, result]

theorem inferable (n : Node) : Inferable n := by
  induction n using Node.valueInduction with
  | step n each value =>
    obtain ⟨kind, loc⟩ := n
    change ∀ m ∈ kind.parts, Inferable m at each
    intro s t inside
    cases kind with
    | ident name => exact .still s t _ _ fun _ => rfl
    | namedType name inner => exact .still s t _ _ fun _ => rfl
    | fnType params result =>
      have types := inferAll_of_each (fun n h => each n (List.mem_append_left _ h)) s t inside
      have last := each result (by simp [Kind.parts]) s _ (types.keeps.inside inside)
      have both := types.after inside last
      refine ⟨both.keeps, fun nested => ?_⟩
      simp only [infer, typeOf, types.agrees nested, both.agrees nested]
    | function params result body => exact infer_function each value loc inside
    | call target args =>
      have callee := each target (by simp [Kind.parts]) s t inside
      simp only [infer]
      generalize infer target s t = answer at callee
      obtain ⟨u, w⟩ := answer
      have agrees (nested : t.Nested) : u = typeOf target (t.view s) := callee.agrees nested
      cases u <;> refine ⟨callee.keeps, fun nested => ?_⟩ <;>
        simp only [typeOf, ← agrees nested]
    | _ => exact .still s t _ _ fun _ => rfl

theorem infer_agrees (n : Node) {s : Nat} {t : ScopeTree} (inside : s < t.size) :
    Infers s t (infer n s t) (typeOf n) := inferable n s t inside

theorem inferAll_agrees (ns : List Node) {s : Nat} {t : ScopeTree} (inside : s < t.size) :
    Infers s t (inferAll ns s t) (typeOfAll ns) :=
  inferAll_of_each (fun n _ => inferable n) s t inside

theorem inferParams_binds (params : List Param) {inner s : Nat} {t u : ScopeTree}
    (inside : s < t.size) (region : Region inner s t u) :
    BindsParams params inner s t u (inferParams params s inner u) :=
  inferParams_of_each (fun n _ => inferable n) inside region

end ScriptCheck
