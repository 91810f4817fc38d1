import ScriptCheck.Proofs.Tables
import ScriptCheck.Proofs.Traversal

/-! Declared results. A function that says what it returns is inferred again at each `return`, from
whatever scope that stands in; but no scope has type aliases of its own, so the annotation means the
same there as everywhere else. Which function a `return` is held against is settled by where it
stands: blocks and namespaces pass on the function around them, functions and loops put themselves
in its place. -/
namespace ScriptCheck
open ScopeTree

def Kind.isType : Kind → Bool
  | .namedType .. | .fnType .. => true
  | _ => false

mutual
def Node.resolve (types : Bindings) : Node → Ty
  | .mk (.namedType name _) _ => (types.get? name).getD .any
  | .mk (.fnType params result) _ => .signature (resolveAll types params) (result.resolve types)
  | _ => .any
termination_by structural n => n

def resolveAll (types : Bindings) : List Node → List Ty
  | [] => []
  | n :: rest => n.resolve types :: resolveAll types rest
termination_by structural ns => ns
end

theorem typeOf_resolve {types : Bindings} {v : Lookups} (same : ∀ x, v.type x = types.get? x)
    {n : Node} (typed : ∀ m, Node.Within m n → m.kind.isType = true) :
    typeOf n v = n.resolve types := by
  induction n using Node.induction with
  | step n each =>
    obtain ⟨kind, loc⟩ := n
    have parts (m : Node) (direct : m ∈ kind.parts) : typeOf m v = m.resolve types :=
      each m direct fun k inside => typed k (.part direct inside)
    have here := typed _ .self
    cases kind with
    | namedType name inner => rw [typeOf, Node.resolve, same]
    | fnType params result =>
      have all {ps : List Node} (listed : ∀ p ∈ ps, typeOf p v = p.resolve types) :
          typeOfAll ps v = resolveAll types ps := by
        induction ps with
        | nil => rfl
        | cons p rest ih =>
          obtain ⟨head, tail⟩ := List.forall_mem_cons.mp listed
          rw [typeOfAll, resolveAll, head, ih tail]
      rw [typeOf, Node.resolve, all fun p listed => parts p (List.mem_append_left _ listed),
        parts result (by simp [Kind.parts])]
    | _ => simp [Node.kind, Kind.isType] at here

/-- Functions and loops: what stands in them is checked below them. -/
def Kind.isFrame : Kind → Bool
  | .function .. | .loop _ => true
  | _ => false

/-- `m` is `n` itself, or is visited in the course of it. -/
inductive Node.Visited (m : Node) : Node → Prop where
  | self : Visited m m
  | part {p n : Node} (direct : p ∈ n.kind.visited) (inside : Visited m p) : Visited m n

/-- The statements of a block or of a namespace that is visited in the course of the node, with no
function and no loop on the way. -/
inductive Node.Lists (statements : List Node) : Node → Prop where
  | block (loc : Option Span) : Lists statements (.mk (.block statements) loc)
  | ns (name : String) (loc : Option Span) : Lists statements (.mk (.ns name statements) loc)
  | part {p n : Node} (direct : p ∈ n.kind.visited) (passes : n.kind.isFrame = false)
      (inside : Lists statements p) : Lists statements n

/-- The lists of statements that belong to a function with this body. -/
def BelongsTo (body statements : List Node) : Prop :=
  statements = body ∨ ∃ n ∈ body, n.Lists statements

namespace Checker

theorem checkBlock_append (first second : List Node) (s : ScopeId) (parent : Option Node)
    (c : Checker) :
    checkBlock (first ++ second) s parent c =
      checkBlock second s parent (checkBlock first s parent c) := by
  induction first generalizing c with
  | nil => rfl
  | cons n rest ih => simp only [List.cons_append, checkBlock, ih]

namespace Visit

section

variable {n : Node} {ns : List Node} (there : n ∈ ns) (s : ScopeId) (parent : Option Node)
  (c : Checker)
include there

theorem reaches_each : ∃ d, Reaches ⟨.each ns, s, parent, c⟩ ⟨.node n, s, parent, d⟩ := by
  induction ns generalizing c with
  | nil => simp at there
  | cons m rest ih =>
    rcases List.mem_cons.mp there with rfl | later
    · exact ⟨c, .single (.eachHead n rest s parent c)⟩
    · obtain ⟨d, reached⟩ := ih later (checkNode m s parent c)
      exact ⟨d, reached.head (.eachTail m rest s parent c)⟩

theorem reaches_isolated :
    ∃ s' d, Reaches ⟨.isolated ns, s, parent, c⟩ ⟨.node n, s', parent, d⟩ := by
  induction ns generalizing c with
  | nil => simp at there
  | cons m rest ih =>
    rcases List.mem_cons.mp there with rfl | later
    · exact ⟨_, _, .single (.isolatedHead n rest s parent c)⟩
    · obtain ⟨s', d, reached⟩ := ih later _
      exact ⟨s', d, reached.head (.isolatedTail m rest s parent c)⟩

theorem reaches_block : ∃ d, Reaches ⟨.block ns, s, parent, c⟩ ⟨.node n, s, parent, d⟩ := by
  induction ns generalizing c with
  | nil => simp at there
  | cons m rest ih =>
    rcases List.mem_cons.mp there with rfl | later
    · exact ⟨c, .single (.blockHead n rest s parent c)⟩
    · obtain ⟨d, reached⟩ := ih later _
      exact ⟨d, reached.head (.blockTail m rest s parent c)⟩

end

theorem reaches_rest (before rest : List Node) (s : ScopeId) (parent : Option Node) (c : Checker) :
    Reaches ⟨.block (before ++ rest), s, parent, c⟩
      ⟨.block rest, s, parent, checkBlock before s parent c⟩ := by
  induction before generalizing c with
  | nil => exact .refl
  | cons n more ih => exact (ih _).head (.blockTail n (more ++ rest) s parent c)

/-- What is visited in a node is visited below the node itself, if that is a function or a loop, and
below what is around the node otherwise. -/
theorem reaches_visited {n m : Node} (direct : m ∈ n.kind.visited) (s : ScopeId)
    (parent : Option Node) (c : Checker) :
    ∃ s' d, Reaches ⟨.node n, s, parent, c⟩
      ⟨.node m, s', if n.kind.isFrame then some n else parent, d⟩ := by
  obtain ⟨kind, loc⟩ := n
  have one {value : Node} {s' : ScopeId} {d : Checker} (same : m ∈ [value])
      (step : Calls ⟨.node (.mk kind loc), s, parent, c⟩ ⟨.node value, s', parent, d⟩) :
      ∃ s' d, Reaches ⟨.node (.mk kind loc), s, parent, c⟩ ⟨.node m, s', parent, d⟩ := by
    obtain rfl := List.mem_singleton.mp same
    exact ⟨s', d, .single step⟩
  have among {ns : List Node} {s' : ScopeId} {d : Checker} (there : m ∈ ns)
      (step : Calls ⟨.node (.mk kind loc), s, parent, c⟩ ⟨.each ns, s', parent, d⟩) :
      ∃ s' d, Reaches ⟨.node (.mk kind loc), s, parent, c⟩ ⟨.node m, s', parent, d⟩ := by
    obtain ⟨e, reached⟩ := reaches_each there s' parent d
    exact ⟨s', e, reached.head step⟩
  have statement {ns : List Node} {s' : ScopeId} {above : Option Node} {d : Checker}
      (there : m ∈ ns)
      (step : Calls ⟨.node (.mk kind loc), s, parent, c⟩ ⟨.block ns, s', above, d⟩) :
      ∃ s' d, Reaches ⟨.node (.mk kind loc), s, parent, c⟩ ⟨.node m, s', above, d⟩ := by
    obtain ⟨e, reached⟩ := reaches_block there s' above d
    exact ⟨s', e, reached.head step⟩
  change m ∈ kind.visited at direct
  cases kind with
  | define name annotation value mutable => exact one direct (.define ..)
  | assign dest value => exact one direct (.assign ..)
  | adjust how dest value => exact one direct (.adjust ..)
  | call target args =>
    rcases List.mem_cons.mp direct with rfl | later
    · exact ⟨_, _, .single (.target ..)⟩
    · exact among later (.args ..)
  | forLoop var low high times body =>
    rcases List.mem_append.mp direct with bound | last
    · exact among bound (.bounds ..)
    · exact one last (.forBody var low high times body loc s parent c _ rfl)
  | eachLoop var items body =>
    rcases List.mem_cons.mp direct with rfl | last
    · exact ⟨_, _, .single (.items ..)⟩
    · exact one last (.eachBody var items body loc s parent c _ rfl)
  | loop body => exact statement direct (.loop ..)
  | block body => exact statement direct (.block ..)
  | ns name members => exact statement direct (.ns ..)
  | function params result body => exact statement direct (.function ..)
  | ifElse cond yes elseifs no =>
    obtain ⟨s', d, reached⟩ := reaches_isolated direct s parent c
    exact ⟨s', d, reached.head (.ifElse ..)⟩
  | _ => exact among direct (.inline _ loc _ s parent c rfl)

theorem reaches_of_visited {n m : Node} (visited : m.Visited n) (s : ScopeId)
    (parent : Option Node) (c : Checker) :
    ∃ s' above d, Reaches ⟨.node n, s, parent, c⟩ ⟨.node m, s', above, d⟩ := by
  induction visited generalizing s parent c with
  | self => exact ⟨s, parent, c, .refl⟩
  | part direct _ ih =>
    obtain ⟨s₁, d₁, first⟩ := reaches_visited direct s parent c
    obtain ⟨s₂, above, d₂, later⟩ := ih s₁ _ d₁
    exact ⟨s₂, above, d₂, first.trans later⟩

theorem reaches_lists {n : Node} {statements : List Node} (listed : n.Lists statements)
    (s : ScopeId) (parent : Option Node) (c : Checker) :
    ∃ s' d, Reaches ⟨.node n, s, parent, c⟩ ⟨.block statements, s', parent, d⟩ := by
  induction listed generalizing s c with
  | block loc => exact ⟨_, _, .single (.block statements loc s parent c)⟩
  | ns name loc => exact ⟨_, _, .single (.ns name statements loc s parent c)⟩
  | part direct passes _ ih =>
    obtain ⟨s₁, d₁, first⟩ := reaches_visited direct s parent c
    rw [passes, if_neg Bool.false_ne_true] at first
    obtain ⟨s₂, d₂, later⟩ := ih s₁ d₁
    exact ⟨s₂, d₂, first.trans later⟩

theorem reaches_belonging {body statements : List Node} (belongs : BelongsTo body statements)
    (params : List Param) (result : Option Node) (loc : Option Span) (s : ScopeId)
    (parent : Option Node) (c : Checker) :
    let function : Node := .mk (.function params result body) loc
    ∃ s' d, Reaches ⟨.node function, s, parent, c⟩ ⟨.block statements, s', some function, d⟩ := by
  intro function
  have enter := Calls.function params result body loc s parent c
  rcases belongs with rfl | ⟨n, there, listed⟩
  · exact ⟨_, _, .single enter⟩
  · obtain ⟨d₁, first⟩ := reaches_block there (c.openChild s).1 (some function)
      ((c.openChild s).2.bindParams params s (c.openChild s).1)
    obtain ⟨s₂, d₂, later⟩ := reaches_lists listed (c.openChild s).1 (some function) d₁
    exact ⟨s₂, d₂, (first.head enter).trans later⟩

theorem Reaches.built {p : Program} {globals : Scope} {b : Visit}
    (reached : Reaches (start p globals) b) {c : Checker} (moment : c = b.state ∨ c = b.run) :
    Builds (ScopeTree.new globals) c.scopes := by
  have sound := start_sound p globals
  have before : Builds (ScopeTree.new globals) b.state.scopes := Reaches.builds reached sound
  rcases moment with rfl | rfl
  · exact before
  · exact before.trans (run_builds (Reaches.sees reached sound).1)

end Visit

theorem infer_declared {globals : Scope} {c : Checker}
    (built : Builds (ScopeTree.new globals) c.scopes) {result : Node}
    (typed : ∀ m, Node.Within m result → m.kind.isType = true) (params : List Param)
    (body : List Node) (loc : Option Span) {s : ScopeId} (inside : s < c.scopes.size) :
    ∃ ps, (c.infer (.mk (.function params (some result) body) loc) s).1 =
      .function ps (result.resolve globals.types) := by
  have aliases (x : String) : (c.scopes.view s).type x = globals.types.get? x := by
    have found := getType_untyped (built.untyped (new_untyped globals)) s x
    rwa [built.globals] at found
  have agrees := (infer_agrees (.mk (.function params (some result) body) loc) inside).agrees
    (built.nested (new_nested globals))
  rw [typeOf_function, resultType, typeOf_resolve aliases typed] at agrees
  exact ⟨_, agrees⟩

theorem checkReturn_tells_result {c : Checker} {s : Nat} {v : Lookups} {b : Bindings}
    (here : c.Stands s v b) {params : List Param} {result : Option Node} {body : List Node}
    {loc : Option Span} {ps returned : Ty}
    (inferred : (c.infer (.mk (.function params result body) loc) s).1 = .function ps returned)
    (value : Node) (place : Option Span) :
    (c.checkReturn (.mk (.ret value) place) s
      (some (.mk (.function params result body) loc))).diagnostics =
      c.diagnostics ++ misfits returned (c.infer value s).1
        (value.loc.getD (Node.mk (.ret value) place).span) := by
  have told := (checkReturn_follows (.mk (.ret value) place)
    (some (.mk (.function params result body) loc)) here).diagnostics
  rw [here.infer_fst, typeOf_function, Ty.function.injEq] at inferred
  rw [told, here.infer_fst]
  simp only [returnProblems, Node.kind, typeOf_function, inferred.2]

end Checker

open Checker

/-- A declared result means the same everywhere. At every moment of a run and from every scope that
there is by then, the function is inferred to return what its annotation stands for under the
aliases of the globals. Wherever the function is visited, so are the statements that belong to it,
below the function; and where such statements are checked, a `return` among them adds, right behind
what is found in its value, what there is to say against the value where the result is expected. -/
theorem Program.check_declared_result (p : Program) (globals : Scope) (params : List Param)
    (result : Node) (body : List Node) (loc : Option Span)
    (typed : ∀ m, Node.Within m result → m.kind.isType = true) :
    let function : Node := .mk (.function params (some result) body) loc
    let returned := result.resolve globals.types
    (∀ b, Visit.Reaches (.start p globals) b → ∀ c, c = b.state ∨ c = b.run →
      ∀ s < c.scopes.size, ∃ ps, (c.infer function s).1 = .function ps returned) ∧
    (∀ n ∈ p, function.Visited n → ∃ s parent c,
      Visit.Reaches (.start p globals) ⟨.node function, s, parent, c⟩) ∧
    ∀ before value place rest,
      let ret : Node := .mk (.ret value) place
      BelongsTo body (before ++ ret :: rest) →
      (∀ s parent c, ∃ inner entered, Visit.Reaches ⟨.node function, s, parent, c⟩
        ⟨.block (before ++ ret :: rest), inner, some function, entered⟩) ∧
      ∀ s c, Visit.Reaches (.start p globals)
          ⟨.block (before ++ ret :: rest), s, some function, c⟩ →
        let checked := checkNode value s (some function) (checkBlock before s (some function) c)
        let found := misfits returned (checked.infer value s).1 (value.loc.getD ret.span)
        let told := checked.checkReturn ret s (some function)
        checkBlock (before ++ ret :: rest) s (some function) c =
          checkBlock rest s (some function) told ∧
        told.diagnostics = checked.diagnostics ++ found ∧
        checked.diagnostics ++ found <+: p.check globals := by
  intro function returned
  have start := Visit.start_sound p globals
  refine ⟨?_, ?_, ?_⟩
  · intro b reached c moment s inside
    exact infer_declared (Visit.Reaches.built reached moment) typed params body loc inside
  · intro n there visited
    obtain ⟨d, first⟩ := Visit.reaches_block there root none (Checker.new globals)
    obtain ⟨s, above, c, later⟩ := Visit.reaches_of_visited visited root none d
    exact ⟨s, above, c, first.trans later⟩
  · intro before value place rest ret belongs
    refine ⟨Visit.reaches_belonging belongs params (some result) loc, ?_⟩
    intro s c reached checked found told
    have arrived := reached.trans (Visit.reaches_rest before (ret :: rest) s (some function) c)
    have there := (Visit.Reaches.sees arrived start).1
    have valued := arrived.tail (.blockHead ret rest s (some function) _)
    have after : Visit.Sees _ _ ⟨.block rest, s, some function, checked⟩ :=
      .of_binds there (isolates ret s (some function) _ there.inside)
    have built := Visit.Reaches.built valued (.inr rfl)
    obtain ⟨ps, inferred⟩ := infer_declared built typed params body loc after.sound.inside
    have adds : told.diagnostics = checked.diagnostics ++ found :=
      checkReturn_tells_result after.sound.stands inferred value place
    refine ⟨checkBlock_append before (ret :: rest) s (some function) c, adds, ?_⟩
    have next := arrived.tail (.blockTail ret rest s (some function) _)
    rw [← adds]
    exact (Visit.run_tells (Visit.Reaches.sees next start).1).trans
      (Visit.Reaches.tells next start)

theorem Program.check_declared_result_nested :
    let globals : Scope := ⟨[], [("N", .num)], none⟩
    let named (name : String) : Node := .mk (.namedType name none) none
    let result : Node := .mk (.fnType [named "N"] (named "Gone")) none
    let value : Node := .mk (.str "t") (some ⟨9, 10⟩)
    let ret : Node := .mk (.ret value) none
    let body : List Node := [.mk (.ifElse (named "N") (.mk (.block [ret]) none) [] none) none]
    let function : Node := .mk (.function [] (some result) body) none
    let p : Program := [.mk (.arr [function]) none]
    (∀ m, Node.Within m result → m.kind.isType = true) ∧ BelongsTo body ([] ++ ret :: []) ∧
    ∃ s c, Visit.Reaches (.start p globals) ⟨.block [ret], s, some function, c⟩ ∧
      (checkNode value s (some function) c).diagnostics ++
        misfits (.signature [.num] .any) .str ⟨9, 10⟩ <+: p.check globals := by
  intro globals named result value ret body function p
  have typed : ∀ m, Node.Within m result → m.kind.isType = true := by
    simp [result, named, Node.within_iff, Kind.parts, Node.kind, Kind.isType]
  have belongs : BelongsTo body ([] ++ ret :: []) :=
    .inr ⟨_, List.mem_singleton_self _, .part (by simp [Node.kind, Kind.visited]) rfl (.block none)⟩
  have visited : function.Visited (.mk (.arr [function]) none) :=
    .part (List.mem_singleton_self function) .self
  obtain ⟨_, leads, held⟩ := check_declared_result p globals [] result body none typed
  obtain ⟨s₀, parent, c₀, first⟩ := leads _ (List.mem_singleton_self _) visited
  obtain ⟨below, told⟩ := held [] value none [] belongs
  obtain ⟨s, c, later⟩ := below s₀ parent c₀
  exact ⟨typed, belongs, s, c, first.trans later, (told s c (first.trans later)).2.2⟩

end ScriptCheck
