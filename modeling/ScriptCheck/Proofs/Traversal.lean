import Mathlib.Data.List.Forall2
import ScriptCheck.Proofs.Refinement

/-! Every expression is visited once. A call of a literal is wrong wherever it stands, so in a
program that calls nothing but literals each visit of a call leaves one diagnostic; these are then
exactly the calls of the program, in the order of the visits, whatever else is inferred on the way
and however often. -/
namespace ScriptCheck

open List (Forall₂)

namespace Kind

/-- The parts that are visited, in the order of the visits. The destination of an assignment and the
annotations of definitions, parameters and results are not, nor is anything inside a type. -/
def visited : Kind → List Node
  | .define _ _ value _ | .assign _ value | .adjust _ _ value => [value]
  | .ret value => [value]
  | .forLoop _ low high times body => low.toList ++ high.toList ++ times.toList ++ [body]
  | .eachLoop _ items body => [items, body]
  | .loop body | .block body | .function _ _ body => body
  | .ns _ members => members
  | .ifElse cond yes elseifs no => cond :: yes :: (elseifs.flatMap Branch.nodes ++ no.toList)
  | .select about arms default => about :: (arms.flatMap Branch.nodes ++ default.toList)
  | .call target args => target :: args
  | .not operand => [operand]
  | .logic _ left right => [left, right]
  | .template parts => parts.flatMap Part.nodes
  | .index target key => [target, key]
  | .prop target _ => [target]
  | .arr items => items
  | .obj entries => entries.map Entry.value
  | .brk | .cont | .str _ | .num _ | .bool _ | .null | .ident _ | .namedType .. | .fnType ..
  | .other => []

theorem visited_parts {kind : Kind} {m : Node} (there : m ∈ kind.visited) : m ∈ kind.parts := by
  cases kind <;> simp only [visited, parts] at there ⊢ <;> grind

theorem visited_inline {kind : Kind} {ms : List Node} (passes : kind.inline = some ms) :
    kind.visited = ms := by
  cases kind <;> simp only [inline, Option.some.injEq, reduceCtorEq] at passes <;> exact passes

def literalType : Kind → Option Ty
  | .str _ => some .str
  | .num _ => some .num
  | .bool _ => some .bool
  | .null => some .null
  | .arr _ => some .arr
  | .obj _ => some .obj
  | _ => none

end Kind

theorem Node.size_visited {kind : Kind} {m : Node} (there : m ∈ kind.visited)
    (loc : Option Span) : sizeOf m < sizeOf (Node.mk kind loc) := by
  have inside := Kind.size_part (Kind.visited_parts there)
  simp only [Node.mk.sizeOf_spec]
  omega

/-- The calls among the nodes that are visited: a call comes behind the calls in its target and
before those in its arguments. -/
def calls : Node → List Node
  | .mk (.call target args) loc =>
    calls target ++ .mk (.call target args) loc :: args.flatMap calls
  | .mk kind _ => kind.visited.attach.flatMap fun m => calls m.1
termination_by n => sizeOf n
decreasing_by
  · exact Node.size_visited List.mem_cons_self _
  · exact Node.size_visited (List.mem_cons_of_mem _ ‹_›) _
  · exact Node.size_visited m.2 _

theorem calls_of_not_call {kind : Kind} (other : ∀ target args, kind ≠ .call target args)
    (loc : Option Span) : calls (.mk kind loc) = kind.visited.flatMap calls := by
  rw [calls]
  · rw [List.flatMap_subtype fun _ _ => rfl, List.unattach_attach]
  · exact other

def Problem.isNotCallable : Problem → Bool
  | .notCallable _ => true
  | _ => false

theorem head?_append_text {first : String} {c : Char} (starts : first.toList.head? = some c)
    (last : String) : (first ++ last).toList.head? = some c := by
  rw [String.toList_append, List.head?_append, starts, Option.some_or]

theorem getLast?_append_text (first : String) {last : String} {c : Char}
    (ends : last.toList.getLast? = some c) : (first ++ last).toList.getLast? = some c := by
  rw [String.toList_append, List.getLast?_append, ends, Option.some_or]

theorem Problem.isNotCallable_iff (p : Problem) :
    p.isNotCallable = true ↔ ∃ x, p.message = "Type '" ++ x ++ "' is not callable" := by
  have starts {text : String} {c : Char} (first : text.toList.head? = some c) (other : c ≠ 'T') :
      ¬ ∃ x, text = "Type '" ++ x ++ "' is not callable" := by
    rintro ⟨x, rfl⟩
    rw [head?_append_text (head?_append_text rfl x)] at first
    exact other (Option.some.inj first).symm
  have ends {text : String} {c : Char} (last : text.toList.getLast? = some c) (other : c ≠ 'e') :
      ¬ ∃ x, text = "Type '" ++ x ++ "' is not callable" := by
    rintro ⟨x, rfl⟩
    rw [getLast?_append_text _ rfl] at last
    exact other (Option.some.inj last).symm
  cases p with
  | notCallable t => exact ⟨fun _ => ⟨t.text, rfl⟩, fun _ => rfl⟩
  | argumentCount expected actual =>
    exact iff_of_false Bool.false_ne_true (starts
      (head?_append_text (head?_append_text (head?_append_text rfl _) _) _) (by decide))
  | mismatch m =>
    cases m with
    | elementCount expected actual =>
      exact iff_of_false Bool.false_ne_true (starts
        (head?_append_text (head?_append_text (head?_append_text rfl _) _) _) (by decide))
    | moreMembers actual expected =>
      exact iff_of_false Bool.false_ne_true (ends (getLast?_append_text _ rfl) (by decide))
    | notContained member union =>
      exact iff_of_false Bool.false_ne_true (ends (getLast?_append_text _ rfl) (by decide))
    | notAssignable actual expected =>
      exact iff_of_false Bool.false_ne_true (ends (getLast?_append_text _ rfl) (by decide))

/-- The diagnostics that say of something that it cannot be called. -/
def uncallable (ds : List Diagnostic) : List Diagnostic :=
  ds.filter fun d => d.problem.isNotCallable

theorem uncallable_append (first second : List Diagnostic) :
    uncallable (first ++ second) = uncallable first ++ uncallable second := List.filter_append ..

theorem uncallable_misfits (expected actual : Ty) (place : Span) :
    uncallable (misfits expected actual place) = [] := by
  simp [uncallable, misfits, Problem.isNotCallable]

theorem uncallable_returnProblems (n : Node) (v : Lookups) (parent : Option Node) :
    uncallable (returnProblems n v parent) = [] := by
  unfold returnProblems
  split
  · split
    · exact uncallable_misfits _ _ _
    · rfl
  · rfl

/-- A diagnostic that says of the target of a call, which is a literal, that it cannot be called. -/
def Reports (d : Diagnostic) (n : Node) : Prop :=
  ∃ target args loc t, n = .mk (.call target args) loc ∧ target.kind.literalType = some t ∧
    d = ⟨.notCallable t, target.span⟩

def CallsLiterals (n : Node) : Prop :=
  ∀ target args loc, Node.Within (.mk (.call target args) loc) n →
    ∃ t, target.kind.literalType = some t

theorem CallsLiterals.part {n m : Node} (literals : CallsLiterals n) (direct : m ∈ n.kind.parts) :
    CallsLiterals m :=
  fun target args loc inside => literals target args loc (.part direct inside)

theorem typeOf_literal {n : Node} {t : Ty} (literal : n.kind.literalType = some t) (v : Lookups) :
    typeOf n v = t := by
  obtain ⟨kind, loc⟩ := n
  cases kind <;>
    simp only [Node.kind, Kind.literalType, Option.some.injEq, reduceCtorEq] at literal <;>
    exact literal

theorem argumentProblems_literal {kind : Kind} {t : Ty} (literal : kind.literalType = some t)
    (args : List Node) (us : List Ty) (place : Span) : argumentProblems t args us place = [] := by
  cases kind <;> simp only [Kind.literalType, Option.some.injEq, reduceCtorEq] at literal <;>
    subst literal <;> rfl

theorem calleeProblems_literal {kind : Kind} {t : Ty} (literal : kind.literalType = some t)
    (args : Nat) (target place : Span) :
    calleeProblems t args target place = [⟨.notCallable t, target⟩] := by
  cases kind <;> simp only [Kind.literalType, Option.some.injEq, reduceCtorEq] at literal <;>
    subst literal <;> rfl

def Hears (o : Outcome) (ns : List Node) : Prop := Forall₂ Reports (uncallable o.found) ns

namespace Hears

variable {o : Outcome} {ns ms : List Node}

theorem nothing (b : Bindings) : Hears ⟨b, []⟩ [] := .nil

theorem andThen (first : Hears o ns) {next : Bindings → Outcome}
    (second : Hears (next o.locals) ms) : Hears (o.andThen next) (ns ++ ms) := by
  rw [Hears, Outcome.andThen, uncallable_append]
  exact List.rel_append first second

theorem also (first : Hears o ns) {more : List Diagnostic} (silent : uncallable more = []) :
    Hears (o.also more) ns := by
  rw [Hears, Outcome.also, uncallable_append, silent, List.append_nil]
  exact first

theorem leave (inner : Hears o ns) (b : Bindings) : Hears (o.leave b) ns := inner

end Hears

def Heard (n : Node) : Prop :=
  ∀ (v : Lookups) (parent : Option Node) (b : Bindings), Hears (walk n v parent b) (calls n)

section

variable {ns : List Node} (each : ∀ n ∈ ns, Heard n) (v : Lookups) (parent : Option Node)
  (b : Bindings)
include each

theorem walkEach_hears : Hears (walkEach ns v parent b) (ns.flatMap calls) := by
  induction ns generalizing b with
  | nil => exact .nothing b
  | cons n rest ih =>
    obtain ⟨head, tail⟩ := List.forall_mem_cons.mp each
    exact (head v parent b).andThen (ih tail _)

theorem walkIsolated_hears : Hears (walkIsolated ns v parent b) (ns.flatMap calls) := by
  induction ns generalizing b with
  | nil => exact .nothing b
  | cons n rest ih =>
    obtain ⟨head, tail⟩ := List.forall_mem_cons.mp each
    exact ((head (v.extend b) parent []).leave b).andThen (ih tail _)

theorem walkBlock_hears : Hears (walkBlock ns v parent b) (ns.flatMap calls) := by
  induction ns generalizing b with
  | nil => exact .nothing b
  | cons n rest ih =>
    obtain ⟨head, tail⟩ := List.forall_mem_cons.mp each
    refine (head v parent b).andThen ?_
    have returned : Hears ⟨(walk n v parent b).locals,
        returnProblems n (v.extend (walk n v parent b).locals) parent⟩ [] := by
      rw [Hears, uncallable_returnProblems]
      exact .nil
    exact returned.andThen (ih tail _)

end

theorem heard {n : Node} (literals : CallsLiterals n) : Heard n := by
  induction n using Node.ruleInduction with
  | define name annotation value mutable loc ih =>
    intro v parent b
    have checked := ih (literals.part (by simp [Node.kind, Kind.parts])) v parent b
    rw [calls_of_not_call (by simp)]
    simp only [walk, Kind.visited, List.flatMap_cons, List.flatMap_nil]
    refine checked.andThen ?_
    cases annotation with
    | none => exact .nothing _
    | some d =>
      rw [Hears, uncallable_misfits]
      exact .nil
  | assign dest value loc ih =>
    intro v parent b
    have checked := ih (literals.part (by simp [Node.kind, Kind.parts])) v parent b
    rw [calls_of_not_call (by simp)]
    simp only [Kind.visited, List.flatMap_cons, List.flatMap_nil, List.append_nil]
    exact checked.also (uncallable_misfits _ _ _)
  | adjust how dest value loc ih =>
    intro v parent b
    have checked := ih (literals.part (by simp [Node.kind, Kind.parts])) v parent b
    rw [calls_of_not_call (by simp)]
    simp only [Kind.visited, List.flatMap_cons, List.flatMap_nil, List.append_nil]
    exact checked.also (by rw [uncallable_append, uncallable_misfits, uncallable_misfits]; rfl)
  | call target args loc ih each =>
    intro v parent b
    obtain ⟨t, literal⟩ := literals target args loc .self
    have called := ih (literals.part (by simp [Node.kind, Kind.parts])) v parent b
    have given := fun m there => each m there (literals.part (List.mem_cons_of_mem _ there))
    simp only [walk, typeOf_literal literal, calleeProblems_literal literal,
      argumentProblems_literal literal, Outcome.also_nil, calls]
    have told : Hears ((walk target v parent b).also [⟨.notCallable t, target.span⟩])
        (calls target ++ [.mk (.call target args) loc]) := by
      rw [Hears, Outcome.also, uncallable_append]
      exact List.rel_append called (.cons ⟨target, args, loc, t, rfl, literal, rfl⟩ .nil)
    rw [List.append_cons]
    exact told.andThen (walkEach_hears given v parent _)
  | forLoop var low high times body loc each ih =>
    intro v parent b
    have bounds := fun m there => each m there (literals.part (List.mem_append_left _ there))
    have inner := ih (literals.part (by simp [Node.kind, Kind.parts]))
    rw [walk_forLoop, calls_of_not_call (by simp)]
    simp only [Kind.visited, List.flatMap_append, List.flatMap_singleton]
    simp only [← List.flatMap_append]
    exact (walkEach_hears bounds v parent b).andThen ((inner _ parent _).leave _)
  | eachLoop var items body loc first ih =>
    intro v parent b
    have before := first (literals.part (by simp [Node.kind, Kind.parts])) v parent b
    have inner := ih (literals.part (by simp [Node.kind, Kind.parts]))
    rw [calls_of_not_call (by simp)]
    simp only [walk, Kind.visited, List.flatMap_cons, List.flatMap_nil, List.append_nil]
    exact before.andThen ((inner _ parent _).leave _)
  | loop body loc each =>
    intro v parent b
    rw [calls_of_not_call (by simp)]
    exact (walkBlock_hears (fun m there => each m there (literals.part there)) _ _ _).leave b
  | block body loc each =>
    intro v parent b
    rw [calls_of_not_call (by simp)]
    exact (walkBlock_hears (fun m there => each m there (literals.part there)) _ _ _).leave b
  | ifElse cond yes elseifs no loc each =>
    intro v parent b
    rw [walk_ifElse, calls_of_not_call (by simp)]
    exact walkIsolated_hears (fun m there => each m there (literals.part there)) v parent b
  | ns name members loc each =>
    intro v parent b
    rw [calls_of_not_call (by simp)]
    exact (walkBlock_hears (fun m there => each m there (literals.part there)) _ _ _).leave _
  | function params result body loc each =>
    intro v parent b
    have statements := fun m there => each m there (literals.part (List.mem_append_right _ there))
    rw [calls_of_not_call (by simp)]
    exact (walkBlock_hears statements _ _ _).leave b
  | inline kind loc ms passes each =>
    intro v parent b
    have passed := fun m there =>
      each m there (literals.part (Kind.inline_parts passes m there))
    have other : ∀ target args, kind ≠ .call target args := by
      rintro target args rfl
      simp [Kind.inline] at passes
    rw [walk_inline passes, calls_of_not_call other, Kind.visited_inline passes]
    exact walkEach_hears passed v parent b

/-- In a program that calls nothing but literals, the diagnostics that say that something cannot be
called are one for one the visited calls of the program in the order of the visits, each at the
target of its call and with the type of that literal. -/
theorem Program.check_visits_calls_once (p : Program) (globals : Scope)
    (literals : ∀ n ∈ p, ∀ target args loc, Node.Within (.mk (.call target args) loc) n →
      target.kind.literalType ≠ none) :
    Forall₂ (fun d n => ∃ target args loc t, n = .mk (.call target args) loc ∧
        target.kind.literalType = some t ∧ d.location = target.span ∧
        d.message = "Type '" ++ t.text ++ "' is not callable")
      ((p.check globals).filter fun d => d.problem.isNotCallable) (p.flatMap calls) ∧
    ∀ d ∈ p.check globals, d.problem.isNotCallable = true ↔
      ∃ x, d.message = "Type '" ++ x ++ "' is not callable" := by
  have each : ∀ n ∈ p, Heard n := fun n there =>
    heard fun target args loc inside =>
      Option.ne_none_iff_exists'.mp (literals n there target args loc inside)
  have hears := walkBlock_hears each (Lookups.ofGlobals globals) none []
  refine ⟨?_, fun d _ => d.problem.isNotCallable_iff⟩
  rw [p.check_eq globals]
  refine hears.imp ?_
  rintro d n ⟨target, args, loc, t, rfl, literal, rfl⟩
  exact ⟨target, args, loc, t, rfl, literal, rfl, rfl⟩

theorem Program.check_visits_calls_once_nested :
    let text : Node := .mk (.str "t") (some ⟨1, 4⟩)
    let inner : Node := .mk (.call text []) none
    let last : Node := .mk (.call (.mk .null (some ⟨8, 12⟩)) []) none
    let outer : Node := .mk (.call (.mk (.arr [inner]) (some ⟨0, 7⟩)) [last]) none
    let p : Program := [.mk (.assign inner (.mk (.not outer) none)) none,
      .mk (.define "x" (some outer) inner false) none]
    (∀ n ∈ p, ∀ target args loc, Node.Within (.mk (.call target args) loc) n →
      target.kind.literalType ≠ none) ∧
    p.flatMap calls = [inner, outer, last, inner] ∧
    ((p.check {}).filter fun d => d.problem.isNotCallable).length = (p.flatMap calls).length ∧
    (p.check {}).map Diagnostic.location = [⟨1, 4⟩, ⟨0, 7⟩, ⟨8, 12⟩, ⟨1, 4⟩] := by
  intro text inner last outer p
  have literals : ∀ n ∈ p, ∀ target args loc, Node.Within (.mk (.call target args) loc) n →
      target.kind.literalType ≠ none := by
    simp +contextual [p, outer, last, inner, text, Node.within_iff, Kind.parts, or_imp, Node.kind,
      Kind.literalType]
  have listed : p.flatMap calls = [inner, outer, last, inner] := by
    simp [p, outer, last, inner, text, calls, Kind.visited]
  have reports := (check_visits_calls_once p {} literals).1
  exact ⟨literals, listed, reports.length_eq, by decide +kernel⟩

end ScriptCheck
