import ScriptCheck.Proofs.Inference
import ScriptCheck.Proofs.Rules

/-! Lexical isolation. Checking a node writes to one scope, the one it is checked in, and which
names it binds there can be read off the node without knowing any type. -/
namespace ScriptCheck
open ScopeTree

mutual
/-- The names that a node binds in the scope it is checked in, in the order of the bindings. -/
def declared : Node → List String
  | .mk (.define name _ value _) _ => declared value ++ [name]
  | .mk (.assign _ value) _ | .mk (.adjust _ _ value) _ | .mk (.ret value) _ => declared value
  | .mk (.forLoop _ low high times _) _ =>
    declaredMaybe low ++ declaredMaybe high ++ declaredMaybe times
  | .mk (.eachLoop _ items _) _ => declared items
  | .mk (.ns name members) _ => (declaredAll members).eraseDups.map (qualify name)
  | .mk (.select about arms default) _ =>
    declared about ++ (declaredBranches arms ++ declaredMaybe default)
  | .mk (.call target args) _ => declared target ++ declaredAll args
  | .mk (.not operand) _ => declared operand
  | .mk (.logic _ left right) _ => declared left ++ declared right
  | .mk (.template parts) _ => declaredParts parts
  | .mk (.index target key) _ => declared target ++ declared key
  | .mk (.prop target _) _ => declared target
  | .mk (.arr items) _ => declaredAll items
  | .mk (.obj entries) _ => declaredEntries entries
  | _ => []
termination_by structural n => n

def declaredAll : List Node → List String
  | [] => []
  | n :: rest => declared n ++ declaredAll rest
termination_by structural ns => ns

def declaredMaybe : Option Node → List String
  | none => []
  | some n => declared n
termination_by structural o => o

def declaredBranches : List Branch → List String
  | [] => []
  | .mk test body :: rest => declared test ++ (declared body ++ declaredBranches rest)
termination_by structural bs => bs

def declaredParts : List Part → List String
  | [] => []
  | .text _ :: rest => declaredParts rest
  | .expr e :: rest => declared e ++ declaredParts rest
termination_by structural ps => ps

def declaredEntries : List Entry → List String
  | [] => []
  | .mk _ value :: rest => declared value ++ declaredEntries rest
termination_by structural es => es
end

theorem declaredAll_append (first second : List Node) :
    declaredAll (first ++ second) = declaredAll first ++ declaredAll second := by
  induction first with
  | nil => rfl
  | cons n rest ih => simp only [List.cons_append, declaredAll, ih, List.append_assoc]

theorem declaredMaybe_eq (o : Option Node) : declaredMaybe o = declaredAll o.toList := by
  cases o <;> simp [declaredMaybe, declaredAll]

theorem declaredBranches_eq (bs : List Branch) :
    declaredBranches bs = declaredAll (bs.flatMap Branch.nodes) := by
  induction bs with
  | nil => rfl
  | cons b rest ih =>
    obtain ⟨test, body⟩ := b
    simp only [declaredBranches, List.flatMap_cons, Branch.nodes, List.cons_append,
      List.nil_append, declaredAll, ih]

theorem declaredParts_eq (ps : List Part) :
    declaredParts ps = declaredAll (ps.flatMap Part.nodes) := by
  induction ps with
  | nil => rfl
  | cons p rest ih =>
    cases p <;> simp only [declaredParts, List.flatMap_cons, Part.nodes, List.cons_append,
      List.nil_append, declaredAll, ih]

theorem declaredEntries_eq (es : List Entry) :
    declaredEntries es = declaredAll (es.map Entry.value) := by
  induction es with
  | nil => rfl
  | cons e rest ih =>
    obtain ⟨key, value⟩ := e
    simp only [declaredEntries, List.map_cons, Entry.value, declaredAll, ih]

theorem declared_forLoop (var : Option String) (low high times : Option Node) (body : Node)
    (loc : Option Span) :
    declared (.mk (.forLoop var low high times body) loc) =
      declaredAll (low.toList ++ high.toList ++ times.toList) := by
  simp only [declared, declaredMaybe_eq, declaredAll_append]

theorem declared_inline {kind : Kind} {ms : List Node} (passes : kind.inline = some ms)
    (loc : Option Span) : declared (.mk kind loc) = declaredAll ms := by
  cases kind <;> simp only [Kind.inline, Option.some.injEq, reduceCtorEq] at passes <;>
    subst passes <;>
    simp only [declared, declaredAll, declaredAll_append, declaredMaybe_eq, declaredBranches_eq,
      declaredParts_eq, declaredEntries_eq, List.append_nil]

namespace Checker

theorem infer_keeps (n : Node) {s : Nat} {c : Checker} (inside : s < c.scopes.size) :
    Keeps s c.scopes (c.infer n s).2.scopes := (infer_agrees n inside).keeps

theorem infer_infer_keeps (first second : Node) {s : Nat} {c : Checker}
    (inside : s < c.scopes.size) :
    Keeps s c.scopes ((c.infer first s).2.infer second s).2.scopes := by
  have typed := infer_keeps first inside
  exact typed.trans inside (infer_keeps second (typed.inside inside))

theorem inferAll_keeps (ns : List Node) {s : Nat} {c : Checker} (inside : s < c.scopes.size) :
    Keeps s c.scopes (c.inferAll ns s).2.scopes := (inferAll_agrees ns inside).keeps

theorem bind_binds {s : Nat} {c : Checker} (inside : s < c.scopes.size) (name : String) (u : Ty) :
    Binds s [name] c.scopes (c.bind s name u).scopes := Binds.setVariable c.scopes inside name u

theorem bind_region (name : String) (u : Ty) {inner s : Nat} {t : ScopeTree} {c : Checker}
    (inside : s < t.size) (region : Region inner s t c.scopes) :
    Region inner s t (c.bind inner name u).scopes :=
  region.grow inside (bind_binds region.inside name u).toGrows

theorem openChild_region {s : Nat} {c : Checker} (inside : s < c.scopes.size) :
    Region (c.openChild s).1 s c.scopes (c.openChild s).2.scopes := Region.opened c.scopes inside

theorem bindParams_region (params : List Param) {inner s : Nat} {t : ScopeTree} {c : Checker}
    (inside : s < t.size) (region : Region inner s t c.scopes) :
    Region inner s t (c.bindParams params s inner).scopes :=
  (inferParams_binds params inside region).region

theorem checkReturn_keeps (n : Node) {s : Nat} (parent : Option Node) {c : Checker}
    (inside : s < c.scopes.size) : Keeps s c.scopes (c.checkReturn n s parent).scopes := by
  unfold checkReturn
  split
  · rename_i params result body loc value _
    have first := infer_keeps (.mk (.function params result body) loc) inside
    split
    · rename_i answered
      rw [answered] at first
      exact first.trans inside (infer_keeps value (first.inside inside))
    · rename_i answered
      rw [answered] at first
      exact first
  · exact Keeps.refl s c.scopes

theorem exportFrom_binds (inner : ScopeId) {s : Nat} (ns : String) {c : Checker}
    (inside : s < c.scopes.size) :
    Binds s ((c.scopes.scope inner).vars.names.map (qualify ns)) c.scopes
      (c.exportFrom inner s ns).scopes := by
  unfold exportFrom
  generalize (c.scopes.scope inner).vars = members
  induction members generalizing c with
  | nil => exact (Keeps.refl s c.scopes).binds
  | cons entry rest ih =>
    obtain ⟨name, u⟩ := entry
    have first := bind_binds inside (qualify ns name) u
    exact first.trans inside (ih (first.inside inside))

def Isolates (n : Node) : Prop :=
  ∀ (s : Nat) (parent : Option Node) (c : Checker), s < c.scopes.size →
    Binds s (declared n) c.scopes (checkNode n s parent c).scopes

theorem checkEach_binds {ns : List Node} (each : ∀ n ∈ ns, Isolates n) {s : Nat}
    (parent : Option Node) {c : Checker} (inside : s < c.scopes.size) :
    Binds s (declaredAll ns) c.scopes (checkEach ns s parent c).scopes := by
  induction ns generalizing c with
  | nil => exact (Keeps.refl s c.scopes).binds
  | cons n rest ih =>
    have first := each n List.mem_cons_self s parent c inside
    exact first.trans inside (ih (fun m h => each m (List.mem_cons_of_mem _ h))
      (first.inside inside))

theorem checkBlock_binds {ns : List Node} (each : ∀ n ∈ ns, Isolates n) {s : Nat}
    (parent : Option Node) {c : Checker} (inside : s < c.scopes.size) :
    Binds s (declaredAll ns) c.scopes (checkBlock ns s parent c).scopes := by
  induction ns generalizing c with
  | nil => exact (Keeps.refl s c.scopes).binds
  | cons n rest ih =>
    have first := each n List.mem_cons_self s parent c inside
    have returned := checkReturn_keeps n parent (first.inside inside)
    have both := first.trans inside returned.binds
    rw [List.append_nil] at both
    exact both.trans inside (ih (fun m h => each m (List.mem_cons_of_mem _ h))
      (both.inside inside))

theorem Isolates.keeps {n : Node} (isolates : Isolates n) (parent : Option Node) {inner s : Nat}
    {t : ScopeTree} {c : Checker} (inside : s < t.size) (region : Region inner s t c.scopes) :
    Keeps s t (checkNode n inner parent c).scopes :=
  (region.grow inside (isolates inner parent c region.inside).toGrows).keeps

theorem Isolates.afterInfer {value : Node} (isolates : Isolates value) (dest : Node) {s : Nat}
    (parent : Option Node) {c : Checker} (inside : s < c.scopes.size) :
    Binds s (declared value) c.scopes
      (checkNode value s parent ((c.infer dest s).2.infer value s).2).scopes := by
  have typed := infer_infer_keeps dest value inside
  exact typed.binds.trans inside (isolates s parent _ (typed.inside inside))

theorem checkBlock_keeps {ns : List Node} (each : ∀ n ∈ ns, Isolates n) (parent : Option Node)
    {inner s : Nat} {t : ScopeTree} {c : Checker} (inside : s < t.size)
    (region : Region inner s t c.scopes) : Keeps s t (checkBlock ns inner parent c).scopes :=
  (region.grow inside (checkBlock_binds each parent region.inside).toGrows).keeps

theorem checkIsolated_keeps {ns : List Node} (each : ∀ n ∈ ns, Isolates n) {s : Nat}
    (parent : Option Node) {c : Checker} (inside : s < c.scopes.size) :
    Keeps s c.scopes (checkIsolated ns s parent c).scopes := by
  induction ns generalizing c with
  | nil => exact Keeps.refl s c.scopes
  | cons n rest ih =>
    have first := (each n List.mem_cons_self).keeps parent inside (openChild_region inside)
    exact first.trans inside (ih (fun m h => each m (List.mem_cons_of_mem _ h))
      (first.inside inside))

theorem namespace_names {members : List Node} (each : ∀ n ∈ members, Isolates n) {s : Nat}
    (parent : Option Node) {c : Checker} (inside : s < c.scopes.size) :
    ((checkBlock members (c.openChild s).1 parent (c.openChild s).2).scopes.scope
      (c.openChild s).1).vars.names = (declaredAll members).eraseDups := by
  have empty : ((c.openChild s).2.scopes.scope (c.openChild s).1).vars = [] :=
    congrArg Scope.vars ((scope_openChild c.scopes s c.scopes.size).trans (if_pos rfl))
  rw [(checkBlock_binds each parent (openChild_region inside).inside).names, empty]
  exact Bindings.addNames_to_nil _

theorem isolates (n : Node) : Isolates n := by
  induction n using Node.ruleInduction with
  | define name annotation value mutable loc ih =>
    intro s parent c inside
    have typed := infer_keeps value inside
    have checked := ih s parent _ (typed.inside inside)
    have before := typed.binds.trans inside checked
    have inside' := before.inside inside
    cases annotation with
    | none => exact before.trans inside (bind_binds inside' name _)
    | some d =>
      have declaration := infer_keeps d inside'
      exact before.trans inside (declaration.binds.trans inside'
        (bind_binds (declaration.inside inside') name _))
  | assign dest value loc ih =>
    intro s parent c inside
    exact ih.afterInfer dest parent inside
  | adjust how dest value loc ih =>
    intro s parent c inside
    exact ih.afterInfer dest parent inside
  | call target args loc ih each =>
    intro s parent c inside
    rw [checkNode_call]
    have typed := infer_keeps target inside
    have checked := typed.binds.trans inside
      (ih s parent _ (typed.inside inside))
    dsimp only
    generalize told : (checkNode target s parent (c.infer target s).2).tell _ = d
    have before : Binds s (declared target) c.scopes d.scopes := told ▸ checked
    have inside' := before.inside inside
    split
    · have types := inferAll_keeps args inside'
      exact before.trans inside (types.binds.trans inside'
        (checkEach_binds each parent (types.inside inside')))
    · exact before.trans inside (checkEach_binds each parent inside')
  | forLoop var low high times body loc each ih =>
    intro s parent c inside
    rw [checkNode_forLoop]
    have bounds := checkEach_binds each parent inside
    have inside' := bounds.inside inside
    have region := openChild_region inside'
    rw [declared_forLoop, ← List.append_nil (declaredAll _)]
    apply bounds.trans inside
    cases var with
    | none => exact (ih.keeps parent inside' region).binds
    | some name => exact (ih.keeps parent inside' (bind_region name .num inside' region)).binds
  | eachLoop var items body loc first ih =>
    intro s parent c inside
    have before := first s parent c inside
    have inside' := before.inside inside
    have item := bind_region var .any inside' (openChild_region inside')
    have whole := before.trans inside (ih.keeps parent inside' item).binds
    rwa [List.append_nil] at whole
  | loop body loc each =>
    intro s parent c inside
    exact (checkBlock_keeps each _ inside (openChild_region inside)).binds
  | block body loc each =>
    intro s parent c inside
    exact (checkBlock_keeps each _ inside (openChild_region inside)).binds
  | ifElse cond yes elseifs no loc each =>
    intro s parent c inside
    rw [checkNode_ifElse]
    exact (checkIsolated_keeps each parent inside).binds
  | ns name members loc each =>
    intro s parent c inside
    have kept := checkBlock_keeps each parent inside (openChild_region inside)
    have shown := exportFrom_binds (c.openChild s).1 name (kept.inside inside)
    rw [namespace_names each parent inside] at shown
    exact kept.binds.trans inside shown
  | function params result body loc each =>
    intro s parent c inside
    have bound := bindParams_region params inside (openChild_region inside)
    exact (checkBlock_keeps each _ inside bound).binds
  | inline kind loc ms passes each =>
    intro s parent c inside
    rw [checkNode_inline passes, declared_inline passes]
    exact checkEach_binds each parent inside

theorem exportFrom_vars (inner : ScopeId) {s : Nat} (ns : String) {c : Checker}
    (inside : s < c.scopes.size) :
    ((c.exportFrom inner s ns).scopes.scope s).vars =
      exported ns (c.scopes.scope inner).vars (c.scopes.scope s).vars := by
  unfold exportFrom exported
  generalize (c.scopes.scope inner).vars = members
  induction members generalizing c with
  | nil => rfl
  | cons entry rest ih =>
    obtain ⟨name, u⟩ := entry
    have bound := bind_binds inside (qualify ns name) u
    have here : ((c.bind s (qualify ns name) u).scopes.scope s).vars =
        (c.scopes.scope s).vars.set (qualify ns name) u :=
      congrArg Scope.vars ((scope_setVariable c.scopes inside _ u s).trans (if_pos rfl))
    simp only [List.foldl_cons, ← here]
    exact ih (bound.inside inside)

end Checker

theorem qualify_injective (ns : String) {x y : String} (same : qualify ns x = qualify ns y) :
    x = y := (String.append_right_inj (ns ++ ":")).mp same

theorem exported_get? (ns : String) {inner : Bindings} (unique : inner.names.Nodup)
    (b : Bindings) (x : String) :
    (exported ns inner b).get? (qualify ns x) = (inner.get? x).or (b.get? (qualify ns x)) := by
  induction inner generalizing b with
  | nil => rfl
  | cons entry rest ih =>
    obtain ⟨name, u⟩ := entry
    obtain ⟨absent, unique⟩ := List.nodup_cons.mp unique
    have later : (exported ns rest (b.set (qualify ns name) u)).get? (qualify ns x) = _ :=
      ih unique _
    by_cases here : name = x
    · subst here
      have gone : Bindings.get? name rest = none := (Bindings.get?_eq_none_iff rest name).mpr absent
      simp only [exported, List.foldl_cons, Bindings.get?] at later ⊢
      rw [later, gone, Bindings.get?_set]
      simp
    · have other : ¬ qualify ns x = qualify ns name :=
        fun same => here (qualify_injective ns same).symm
      simp only [exported, List.foldl_cons, Bindings.get?] at later ⊢
      rw [later, Bindings.get?_set, if_neg other, if_neg here]

namespace Checker

/-- Checking a node in scope `s` leaves every other scope that is there as it was, and of `s` itself
everything but its variables. Its names become the old ones followed by the new ones that the node
declares, each where it is first declared; other names keep their types. A namespace declares the
names of its own scope, qualified, and each has outside the type that it has inside. -/
theorem checkNode_isolated (n : Node) (s : ScopeId) (parent : Option Node) (c : Checker)
    (inside : s < c.scopes.size) :
    let before := c.scopes
    let after := (checkNode n s parent c).scopes
    before.size ≤ after.size ∧ after.globals = before.globals ∧
    (∀ i, i < before.size → i ≠ s → after.scopes[i]? = before.scopes[i]?) ∧
    (after.scope s).parent = (before.scope s).parent ∧
    (after.scope s).types = (before.scope s).types ∧
    (after.scope s).vars.names = (before.scope s).vars.names ++
      ((declared n).filter (· ∉ (before.scope s).vars.names)).eraseDups ∧
    (∀ x, x ∉ declared n → (after.scope s).vars.get? x = (before.scope s).vars.get? x) ∧
    ∀ ns members loc, n = .mk (.ns ns members) loc →
      let inner := (c.openChild s).1
      let ended := (checkBlock members inner parent (c.openChild s).2).scopes.scope inner
      declared n = ended.vars.names.map (qualify ns) ∧
      ∀ x u, ended.vars.get? x = some u →
        (after.scope s).vars.get? (qualify ns x) = some u := by
  intro before after
  have binds : Binds s (declared n) before after := isolates n s parent c inside
  have whole {t : ScopeTree} {i : Nat} (hi : i < t.size) : t.scopes[i]? = some (t.scope i) := by
    simp only [ScopeTree.size] at hi
    simp [scope, hi]
  refine ⟨binds.size, binds.globals, ?_, binds.parent, binds.types, binds.names, binds.kept, ?_⟩
  · intro i hi other
    rw [whole hi, whole (Nat.lt_of_lt_of_le hi binds.size), binds.others i hi other]
  · rintro ns members loc rfl
    have names := namespace_names (fun m (_ : m ∈ members) => isolates m) parent inside
    have kept := checkBlock_keeps (fun m (_ : m ∈ members) => isolates m) parent inside
      (openChild_region inside)
    refine ⟨?_, ?_⟩
    · rw [names, declared]
    · intro x u found
      -- a scope binds a name once, so no later export takes the place of this one
      have unique := Bindings.nodup_eraseDups (declaredAll members)
      rw [← names] at unique
      have shown := exportFrom_vars (c.openChild s).1 ns (kept.inside inside)
      have seen := exported_get? ns unique ((checkBlock members (c.openChild s).1 parent
        (c.openChild s).2).scopes.scope s).vars x
      rw [found, ← shown] at seen
      exact seen

theorem checkNode_isolated_namespace :
    let text : Node := .mk (.str "t") none
    let inner : Node := .mk (.ns "B" [.mk (.define "y" none text false) none]) none
    let n : Node := .mk (.ns "A" [.mk (.define "x" none inner false) none,
      .mk (.define "x" none text true) none]) none
    let c := (Checker.new {}).bind 0 "A:x" .num
    let after := (checkNode n 0 none c).scopes
    0 < c.scopes.size ∧ (after.scope 0).vars.names = ["A:x", "A:B:y"] ∧
      (after.scope 0).vars.get? "A:x" = some .str := by
  intro text inner n c after
  have inside : 0 < c.scopes.size := by decide
  obtain ⟨_, _, _, _, _, names, _, shown⟩ := checkNode_isolated n 0 none c inside
  refine ⟨inside, names.trans ?_, ?_⟩
  · decide +kernel
  · exact (shown "A" _ none rfl).2 "x" .str (by decide +kernel)

end Checker

end ScriptCheck
