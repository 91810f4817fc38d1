import ScriptCheck.Proofs.Refinement

/-! Sessions with one checker. A client may check some statements, ask for types in between, take
what has been found so far and go on. Looking is transparent: what is found in the end, what the
root binds and what types are inferred do not depend on when and how often the client looked. Each
look may leave scopes behind, so the two tables have different places for later scopes; they are
related by what the root stands for. -/
namespace ScriptCheck
open ScopeTree

namespace Checker

inductive Request where
  | program (p : Program)
  | block (ns : List Node) (parent : Option Node)
  | node (n : Node) (parent : Option Node)
  | infer (n : Node)
  | take

namespace Request

def serve (c : Checker) : Request → List Diagnostic × Checker
  | program p => c.checkProgram p
  | block ns parent => ([], checkBlock ns root parent c)
  | node n parent => ([], checkNode n root parent c)
  | infer n => ([], (c.infer n root).2)
  | take => c.take

/-- What is left of a request for a client that never looks. -/
def unobserved : Request → Option Request
  | program p => some (block p none)
  | block ns parent => some (block ns parent)
  | node n parent => some (node n parent)
  | infer _ | take => none

end Request

/-- Serves requests in order; all that was handed over is put together. -/
def session (c : Checker) : List Request → List Diagnostic × Checker
  | [] => ([], c)
  | r :: rest =>
    let (told, c) := r.serve c
    let (more, c) := session c rest
    (told ++ more, c)

theorem session_append (c : Checker) (first second : List Request) :
    session c (first ++ second) =
      ((session c first).1 ++ (session (session c first).2 second).1,
        (session (session c first).2 second).2) := by
  induction first generalizing c with
  | nil => rfl
  | cons r rest ih => simp only [List.cons_append, session, ih, List.append_assoc]

/-- The checkers that can be had: one that is new, and any after checking or inferring something in
a scope that is there, or after handing over its diagnostics. -/
inductive Reachable : Checker → Prop where
  | new (globals : Scope) : Reachable (Checker.new globals)
  | block {c : Checker} (before : Reachable c) (ns : List Node) {s : ScopeId}
      (inside : s < c.scopes.size) (parent : Option Node) : Reachable (checkBlock ns s parent c)
  | node {c : Checker} (before : Reachable c) (n : Node) {s : ScopeId}
      (inside : s < c.scopes.size) (parent : Option Node) : Reachable (checkNode n s parent c)
  | infer {c : Checker} (before : Reachable c) (n : Node) {s : ScopeId}
      (inside : s < c.scopes.size) : Reachable (c.infer n s).2
  | take {c : Checker} (before : Reachable c) : Reachable c.take.2

theorem Reachable.nested {c : Checker} (reached : Reachable c) :
    c.scopes.Nested ∧ root < c.scopes.size := by
  have grown {c d : Checker} {s : Nat} (grows : Grows s c.scopes d.scopes)
      (before : c.scopes.Nested ∧ root < c.scopes.size) :
      d.scopes.Nested ∧ root < d.scopes.size :=
    ⟨grows.nested before.1, Nat.lt_of_lt_of_le before.2 grows.size⟩
  induction reached with
  | new globals => exact ⟨new_nested globals, Nat.zero_lt_one⟩
  | block _ ns inside parent ih =>
    exact grown (checkBlock_binds (fun n _ => isolates n) parent inside).toGrows ih
  | node _ n inside parent ih => exact grown (isolates n _ parent _ inside).toGrows ih
  | infer _ n inside ih => exact grown (infer_keeps n inside).toGrows ih
  | take _ ih => exact ih

theorem Reachable.stands {c : Checker} (reached : Reachable c) :
    c.Stands root (c.scopes.outside root) (c.scopes.scope root).vars :=
  ⟨reached.nested.1, reached.nested.2, rfl, rfl⟩

/-- The roots of both checkers stand for the same region, and `d` still holds what `c` has handed
over. -/
structure Shadows (told : List Diagnostic) (c d : Checker) : Prop where
  region : ∃ v b, c.Stands root v b ∧ d.Stands root v b
  diagnostics : d.diagnostics = told ++ c.diagnostics

namespace Shadows

variable {told : List Diagnostic} {c d : Checker}

theorem follow (shadows : Shadows told c d) {c' d' : Checker} {next : Lookups → Bindings → Outcome}
    (first : ∀ v b, c.Stands root v b → Follows root v c c' (next v b))
    (second : ∀ v b, d.Stands root v b → Follows root v d d' (next v b)) :
    Shadows told c' d' := by
  obtain ⟨v, b, here, there⟩ := shadows.region
  have moved := first v b here
  have moved' := second v b there
  refine ⟨⟨v, (next v b).locals, moved.stands, moved'.stands⟩, ?_⟩
  rw [moved'.diagnostics, moved.diagnostics, shadows.diagnostics, List.append_assoc]

theorem block (shadows : Shadows told c d) (ns : List Node) (parent : Option Node) :
    Shadows told (checkBlock ns root parent c) (checkBlock ns root parent d) :=
  shadows.follow (fun _ _ here => checkBlock_follows (fun n _ => faithful n) parent here)
    fun _ _ there => checkBlock_follows (fun n _ => faithful n) parent there

theorem node (shadows : Shadows told c d) (n : Node) (parent : Option Node) :
    Shadows told (checkNode n root parent c) (checkNode n root parent d) :=
  shadows.follow (fun v b here => faithful n root v parent b c here)
    fun v b there => faithful n root v parent b d there

theorem infer (shadows : Shadows told c d) (n : Node) : Shadows told (c.infer n root).2 d := by
  obtain ⟨v, b, here, there⟩ := shadows.region
  exact ⟨⟨v, b, here.infer n, there⟩, shadows.diagnostics⟩

theorem take (shadows : Shadows told c d) : Shadows (told ++ c.take.1) c.take.2 d := by
  obtain ⟨v, b, here, there⟩ := shadows.region
  refine ⟨⟨v, b, ⟨here.nested, here.inside, here.around, here.locals⟩, there⟩, ?_⟩
  rw [shadows.diagnostics, Checker.take, List.append_nil]

theorem vars (shadows : Shadows told c d) :
    (c.scopes.scope root).vars = (d.scopes.scope root).vars := by
  obtain ⟨v, b, here, there⟩ := shadows.region
  rw [here.locals, there.locals]

theorem inferred (shadows : Shadows told c d) (n : Node) :
    (c.infer n root).1 = (d.infer n root).1 := by
  obtain ⟨v, b, here, there⟩ := shadows.region
  rw [here.infer_fst, there.infer_fst]

theorem serve (shadows : Shadows told c d) (r : Request) :
    Shadows (told ++ (r.serve c).1) (r.serve c).2 (session d r.unobserved.toList).2 := by
  cases r with
  | program p => exact (shadows.block p none).take
  | block ns parent =>
    rw [Request.serve, List.append_nil]
    exact shadows.block ns parent
  | node n parent =>
    rw [Request.serve, List.append_nil]
    exact shadows.node n parent
  | infer n =>
    rw [Request.serve, List.append_nil]
    exact shadows.infer n
  | take => exact shadows.take

theorem session (shadows : Shadows told c d) (requests : List Request) :
    Shadows (told ++ (c.session requests).1) (c.session requests).2
      (d.session (requests.filterMap Request.unobserved)).2 := by
  induction requests generalizing told c d with
  | nil =>
    rw [Checker.session, List.append_nil]
    exact shadows
  | cons r rest ih =>
    have later := ih (shadows.serve r)
    have split : (r :: rest).filterMap Request.unobserved =
        r.unobserved.toList ++ rest.filterMap Request.unobserved := by
      cases h : r.unobserved <;> simp [h]
    rw [split, session_append]
    rw [List.append_assoc] at later
    exact later

end Shadows

theorem session_unobserved_silent (c : Checker) (requests : List Request) :
    (c.session (requests.filterMap Request.unobserved)).1 = [] := by
  induction requests generalizing c with
  | nil => rfl
  | cons r rest ih =>
    cases r with
    | program p => exact ih _
    | block ns parent => exact ih _
    | node n parent => exact ih _
    | infer n => exact ih _
    | take => exact ih _

/-- All that a session hands over, followed by what the checker still holds, is what the same
session finds when nothing is inferred or taken before its end. The root then binds the same names
to the same types in the same order, and every node has the same type there. -/
theorem session_transparent (c : Checker) (reached : c.Reachable) (requests : List Request) :
    let observed := c.session requests
    let unobserved := c.session (requests.filterMap Request.unobserved ++ [.take])
    observed.1 ++ observed.2.diagnostics = unobserved.1 ∧
      (observed.2.scopes.scope root).vars = (unobserved.2.scopes.scope root).vars ∧
      ∀ n, (observed.2.infer n root).1 = (unobserved.2.infer n root).1 := by
  have itself : Shadows [] c c := ⟨⟨_, _, reached.stands, reached.stands⟩, rfl⟩
  have shadows := itself.session requests
  have silent := session_unobserved_silent c requests
  dsimp only
  rw [session_append, silent]
  refine ⟨?_, shadows.vars, shadows.inferred⟩
  have held := shadows.diagnostics
  simp only [List.nil_append] at held
  simp [session, Request.serve, take, held]

theorem session_transparent_leftover :
    let text : Node := .mk (.str "t") none
    let number : Node := .mk (.namedType "num" none) none
    let f : Node := .mk (.function [] (some number) []) none
    let x : Node := .mk (.ident "x") none
    let c := checkNode (.mk (.call text []) none) root none
      (Checker.new ⟨[], [("num", .num)], none⟩)
    let requests : List Request := [.infer f, .program [.mk (.define "x" none f false) none],
      .infer f, .block [.mk (.ret text) none] (some f), .take, .node (.mk (.call x [x]) none) none]
    let observed := c.session requests
    let unobserved := c.session (requests.filterMap Request.unobserved ++ [.take])
    c.Reachable ∧ observed.1.length = 2 ∧ observed.2.diagnostics.length = 1 ∧
      observed.2.scopes.size = unobserved.2.scopes.size + 2 ∧
      observed.1 ++ observed.2.diagnostics = unobserved.1 ∧
      (observed.2.infer x root).1 = (unobserved.2.infer x root).1 := by
  intro text number f x c requests observed unobserved
  have reached : c.Reachable := .node (.new _) _ Nat.zero_lt_one none
  obtain ⟨found, _, types⟩ := session_transparent c reached requests
  exact ⟨reached, by decide +kernel, by decide +kernel, by decide +kernel, found, types x⟩

end Checker

end ScriptCheck
