import ScriptCheck.Proofs.Dependence

/-! Statements that change places. What a statement does in a region, the bindings it adds and the
diagnostics it finds, stays the same when names are bound that the statement does not mention. Two
statements of which neither binds what the other binds or mentions can therefore be exchanged. -/
namespace ScriptCheck

open Checker

theorem walkBlock_append (first second : List Node) (v : Lookups) (parent : Option Node)
    (b : Bindings) :
    walkBlock (first ++ second) v parent b =
      (walkBlock first v parent b).andThen fun b => walkBlock second v parent b := by
  induction first generalizing b with
  | nil => rfl
  | cons n rest ih =>
    simp only [List.cons_append, walkBlock, ih, Outcome.andThen, List.append_assoc]

theorem walkBlock_single (n : Node) (v : Lookups) (b : Bindings) :
    walkBlock [n] v none b = walk n v none b := by
  simp only [walkBlock, returnProblems, Outcome.andThen, List.append_nil]

namespace Lookups.Agree

theorem update (v : Lookups) (b more : Bindings) :
    Agree (· ∉ more.names) (v.extend b) (v.extend (b.update more)) :=
  ⟨fun x absent => by simp only [Lookups.extend, Bindings.get?_update_of_not_mem absent], rfl⟩

theorem of_get? (v : Lookups) {b b' : Bindings} (same : ∀ x, b.get? x = b'.get? x) :
    Agree (fun _ => True) (v.extend b) (v.extend b') :=
  ⟨fun x _ => by simp only [Lookups.extend, same x], rfl⟩

end Lookups.Agree

/-- Nothing that `first` binds in its region is bound there or mentioned anywhere by `second`. -/
def Node.Spares (first second : Node) : Prop :=
  ∀ x ∈ declared first, x ∉ declared second ∧ ∀ loc, ¬ Node.Within (.mk (.ident x) loc) second

theorem Node.Spares.mentions {first second : Node} (spares : first.Spares second) :
    second.Mentions (· ∉ declared first) :=
  fun x loc inside bound => (spares x bound).2 loc inside

theorem determined_by_all (n : Node) : Determined (fun _ => True) n :=
  determined fun _ _ _ => trivial

theorem walk_updates (n : Node) (v : Lookups) (b : Bindings) :
    ∃ more : Bindings, more.names = declared n ∧ (walk n v none b).locals = b.update more := by
  obtain ⟨more, names, here, _⟩ :=
    (determined_by_all n v v none b b (by simp) (.refl _ _)).updates
  exact ⟨more, names, here⟩

theorem walk_after {first second : Node} (spares : first.Spares second) (v : Lookups)
    (b : Bindings) :
    Outcome.Alike (declared second) b (walk first v none b).locals (walk second v none b)
      (walk second v none (walk first v none b).locals) := by
  obtain ⟨more, names, here⟩ := walk_updates first v b
  have agree := Lookups.Agree.update v b more
  rw [names, ← here] at agree
  exact determined spares.mentions v v none b _ (by simp) agree

theorem walk_swap {first second : Node} (spares : first.Spares second)
    (spares' : second.Spares first) (v : Lookups) (b : Bindings) (x : String) :
    (walk second v none (walk first v none b).locals).locals.get? x =
      (walk first v none (walk second v none b).locals).locals.get? x := by
  obtain ⟨later, bound, here, there⟩ := (walk_after spares v b).updates
  obtain ⟨early, bound', here', there'⟩ := (walk_after spares' v b).updates
  have apart : ∀ x ∈ early.names, x ∉ later.names := by
    rw [bound, bound']
    exact fun x declares => (spares x declares).1
  rw [there, there', here, here', Bindings.update_comm apart]

theorem walkBlock_same (p : Program) (v : Lookups) {b b' : Bindings}
    (same : ∀ x, b.get? x = b'.get? x) :
    Outcome.Alike (declaredAll p) b b' (walkBlock p v none b) (walkBlock p v none b') :=
  walkBlock_alike (fun n _ => determined_by_all n) (by simp) (.of_get? v same)
    (fun _ _ _ _ _ => trivial)

inductive Runs (v : Lookups) : Bindings → List (Program × List Diagnostic) → Bindings → Prop where
  | done (b : Bindings) : Runs v b [] b
  | part {b b' : Bindings} {p : Program} {rest : List (Program × List Diagnostic)} :
    Runs v (walkBlock p v none b).locals rest b' →
    Runs v b ((p, (walkBlock p v none b).found) :: rest) b'

namespace Runs

variable {v : Lookups} {b b' : Bindings} {parts : List (Program × List Diagnostic)}

theorem whole (runs : Runs v b parts b') :
    walkBlock (parts.flatMap Prod.fst) v none b = ⟨b', parts.flatMap Prod.snd⟩ := by
  induction runs with
  | done b => rfl
  | part _ ih => rw [List.flatMap_cons, walkBlock_append, Outcome.andThen, ih, List.flatMap_cons]

theorem take (runs : Runs v b parts b') (k : Nat) : ∃ b', Runs v b (parts.take k) b' := by
  induction runs generalizing k with
  | done b => exact ⟨b, by simpa using .done b⟩
  | @part b _ p _ _ ih =>
    cases k with
    | zero => exact ⟨b, .done b⟩
    | succ k =>
      obtain ⟨ended, before⟩ := ih k
      exact ⟨ended, .part before⟩

end Runs

/-- Each of these lists of statements is checked after the ones before it and finds the diagnostics
given with it. -/
def Program.Finds (globals : Scope) (parts : List (Program × List Diagnostic)) : Prop :=
  ∀ k, Program.check ((parts.take k).flatMap Prod.fst) globals = (parts.take k).flatMap Prod.snd

theorem Runs.finds {globals : Scope} {b' : Bindings} {parts : List (Program × List Diagnostic)}
    (runs : Runs (Lookups.ofGlobals globals) [] parts b') : Program.Finds globals parts := by
  intro k
  obtain ⟨_, before⟩ := runs.take k
  rw [Program.check_eq, Program.walk, before.whole]

/-- The names and types of the root scope after a program. -/
def Program.rootVars (p : Program) (globals : Scope) : Bindings :=
  (((Checker.new globals).checkProgram p).2.scopes.scope ScopeTree.root).vars

theorem Runs.rootVars {globals : Scope} {b' : Bindings}
    {parts : List (Program × List Diagnostic)}
    (runs : Runs (Lookups.ofGlobals globals) [] parts b') :
    Program.rootVars (parts.flatMap Prod.fst) globals = b' := by
  have locals := (checkBlock_root (parts.flatMap Prod.fst) globals).stands.locals
  rw [Program.walk, runs.whole] at locals
  exact locals

/-- Two statements of which neither binds what the other binds or mentions can change places: every
part of the program finds what it found before, and in the end the root scope binds the same names
to the same types. -/
theorem Program.check_swaps_independent (globals : Scope) (before after : Program)
    (first second : Node) (spares : first.Spares second) (spares' : second.Spares first) :
    ∃ dsBefore dsFirst dsSecond dsAfter,
      Finds globals [(before, dsBefore), ([first], dsFirst), ([second], dsSecond),
        (after, dsAfter)] ∧
      Finds globals [(before, dsBefore), ([second], dsSecond), ([first], dsFirst),
        (after, dsAfter)] ∧
      ∀ x, (rootVars (before ++ [first, second] ++ after) globals).get? x =
        (rootVars (before ++ [second, first] ++ after) globals).get? x := by
  let v := Lookups.ofGlobals globals
  let b := (walkBlock before v none []).locals
  have same := walk_swap spares spares' v b
  have last := walkBlock_same after v same
  have run : Runs v [] _ _ := .part (p := before) <| .part (p := [first]) <|
    .part (p := [second]) <| .part (p := after) (.done _)
  have run' : Runs v [] _ _ := .part (p := before) <| .part (p := [second]) <|
    .part (p := [first]) <| .part (p := after) (.done _)
  simp only [walkBlock_single] at run run'
  have ended := run.rootVars
  have ended' := run'.rootVars
  simp only [List.flatMap_cons, List.flatMap_nil, List.append_nil, List.cons_append,
    List.nil_append] at ended ended'
  rw [(walk_after spares v b).found] at run
  rw [(walk_after spares' v b).found, last.found] at run'
  refine ⟨_, _, _, _, run.finds, run'.finds, fun x => ?_⟩
  obtain ⟨more, _, here, there⟩ := last.updates
  simp only [List.append_assoc, List.cons_append, List.nil_append]
  rw [ended, ended', here, there, Bindings.get?_update _ more, same, ← Bindings.get?_update]

theorem Program.check_swaps_independent_namespace :
    let a : Node := .mk (.ident "a") (some ⟨1, 2⟩)
    let text : Node := .mk (.str "t") (some ⟨3, 4⟩)
    let body : List Node := [.mk (.ret (.mk (.call a []) none)) none]
    let f : Node := .mk (.function [.mk "p" none] none body) none
    let first : Node := .mk (.ns "n" [.mk (.define "m" none f false) none]) none
    let second : Node := .mk (.define "m" none (.mk (.call text [f]) none) false) none
    let before : Program := [.mk (.define "a" none text false) none]
    let after : Program := [.mk (.call (.mk (.ident "n:m") none) []) (some ⟨5, 9⟩)]
    first.Spares second ∧ second.Spares first ∧
    (Program.check (before ++ [first, second] ++ after) {}).map Diagnostic.location =
      [⟨1, 2⟩, ⟨3, 4⟩, ⟨1, 2⟩, ⟨5, 9⟩] ∧
    (Program.check (before ++ [second, first] ++ after) {}).map Diagnostic.location =
      [⟨3, 4⟩, ⟨1, 2⟩, ⟨1, 2⟩, ⟨5, 9⟩] ∧
    (∀ x, (rootVars (before ++ [first, second] ++ after) {}).get? x =
      (rootVars (before ++ [second, first] ++ after) {}).get? x) ∧
    (rootVars (before ++ [first, second] ++ after) {}).names = ["a", "n:m", "m"] ∧
    (rootVars (before ++ [second, first] ++ after) {}).names = ["a", "m", "n:m"] := by
  intro a text body f first second before after
  have long : qualify "n" "m" = "n:m" := by decide
  have spares : first.Spares second := by
    simp [Node.Spares, declared, declaredAll, first, second, f, body, text, a, Node.within_iff,
      Kind.parts, Param.declared, long]
  have spares' : second.Spares first := by
    simp [Node.Spares, declared, declaredAll, first, second, f, body, text, a, Node.within_iff,
      Kind.parts, Param.declared, long]
  obtain ⟨_, _, _, _, _, _, same⟩ := check_swaps_independent {} before after first second spares
    spares'
  exact ⟨spares, spares', by decide +kernel, by decide +kernel, same, by decide +kernel,
    by decide +kernel⟩

end ScriptCheck
