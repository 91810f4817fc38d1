import ScriptCheck.Config.Basic
import ScriptCheck.Proofs.Precision
import ScriptCheck.Proofs.Refinement

/-! Knowing less about the names a program starts from never makes the checker find more: the
diagnostics that remain are at places where there were diagnostics before, in the same order. -/
namespace ScriptCheck

open List (Forall₂)

/-- The first diagnostics are at some of the places of the second, in the same order. -/
def Fewer (ds' ds : List Diagnostic) : Prop :=
  (ds'.map Diagnostic.location).Sublist (ds.map Diagnostic.location)

namespace Fewer

variable {ds' ds es' es : List Diagnostic}

theorem none (ds : List Diagnostic) : Fewer [] ds := List.nil_sublist _

theorem append (first : Fewer ds' ds) (second : Fewer es' es) : Fewer (ds' ++ es') (ds ++ es) := by
  simp only [Fewer, List.map_append]
  exact List.Sublist.append first second

theorem single (p' p : Problem) (place : Span) : Fewer [⟨p', place⟩] [⟨p, place⟩] :=
  List.Sublist.refl _

end Fewer

theorem misfits_fewer {e' e a' a : Ty} (expected : e'.Coarser e) (actual : a'.Coarser a)
    (place : Span) : Fewer (misfits e' a' place) (misfits e a place) := by
  have places (ms : List Mismatch) : (ms.map fun m => (⟨.mismatch m, place⟩ : Diagnostic)).map
      Diagnostic.location = List.replicate ms.length place := by
    simp [Function.comp_def, List.map_const']
  simp only [Fewer, misfits, places]
  exact (List.replicate_sublist_replicate place).mpr (expected.lenient a' a actual)

theorem calleeProblems_fewer {t' t : Ty} (callee : t'.Coarser t) (args : Nat)
    (target place : Span) :
    Fewer (calleeProblems t' args target place) (calleeProblems t args target place) := by
  cases callee with
  | any u => exact .none _
  | name n =>
    exact List.Sublist.refl _
  | tuple each => exact .single _ _ _
  | union each => exact .single _ _ _
  | function params result =>
    cases params with
    | any q => exact .none _
    | name n => exact .none _
    | tuple each =>
      simp only [calleeProblems, each.length_eq]
      exact List.Sublist.refl _
    | union each => exact .none _
    | function _ _ => exact .none _

theorem positionProblems_fewer {es' es us' us : List Ty} (expected : Forall₂ Ty.Coarser es' es)
    (args : List Node) (actual : Forall₂ Ty.Coarser us' us) :
    Fewer (positionProblems es' args us') (positionProblems es args us) := by
  induction expected generalizing args us' us with
  | nil => exact .none _
  | cons first _ ih =>
    cases args with
    | nil => exact .none _
    | cons arg args =>
      cases actual with
      | nil => exact .none _
      | cons known rest => exact (misfits_fewer first known arg.span).append (ih args rest)

theorem argumentProblems_fewer {t' t : Ty} (callee : t'.Coarser t) (args : List Node)
    {us' us : List Ty} (actual : Forall₂ Ty.Coarser us' us) (place : Span) :
    Fewer (argumentProblems t' args us' place) (argumentProblems t args us place) := by
  cases callee with
  | function params result =>
    have whole := Ty.Coarser.tuple actual
    cases params with
    | any q =>
      have silent : misfits .any (.tuple us') place = [] := by simp [misfits]
      simp only [argumentProblems, Ty.any] at silent ⊢
      rw [silent]
      exact .none _
    | name n => exact misfits_fewer (.name n) whole place
    | tuple each => exact positionProblems_fewer each args actual
    | union each => exact misfits_fewer (.union each) whole place
    | function p r => exact misfits_fewer (.function p r) whole place
  | _ => exact .none _

theorem returnProblems_fewer (n : Node) {v' v : Lookups} (less : Lookups.Coarser v' v)
    (parent : Option Node) : Fewer (returnProblems n v' parent) (returnProblems n v parent) := by
  obtain ⟨kind, loc⟩ := n
  cases parent with
  | none => exact .none _
  | some f =>
    obtain ⟨outer, place⟩ := f
    cases outer with
    | function params result body =>
      cases kind with
      | ret value =>
        simp only [returnProblems, Node.kind, typeOf_function]
        exact misfits_fewer (resultType_of_each less (fun n _ => blurs n) fun e _ => blurs e)
          (blurs value v' v less) _
      | _ => exact .none _
    | _ => exact .none _

structure Outcome.Coarser (o' o : Outcome) : Prop where
  locals : Bindings.Coarser o'.locals o.locals
  found : Fewer o'.found o.found

namespace Outcome.Coarser

variable {o' o : Outcome}

theorem andThen (first : Coarser o' o) {next' next : Bindings → Outcome}
    (second : Coarser (next' o'.locals) (next o.locals)) :
    Coarser (o'.andThen next') (o.andThen next) :=
  ⟨second.locals, first.found.append second.found⟩

theorem also (first : Coarser o' o) {more' more : List Diagnostic} (fewer : Fewer more' more) :
    Coarser (o'.also more') (o.also more) :=
  ⟨first.locals, first.found.append fewer⟩

theorem leave (inner : Coarser o' o) {b' b : Bindings} (locals : Bindings.Coarser b' b) :
    Coarser (o'.leave b') (o.leave b) := ⟨locals, inner.found⟩

end Outcome.Coarser

def Relaxes (n : Node) : Prop :=
  ∀ (v' v : Lookups) (parent : Option Node) (b' b : Bindings), Lookups.Coarser v' v →
    Bindings.Coarser b' b → Outcome.Coarser (walk n v' parent b') (walk n v parent b)

section

variable {ns : List Node} (each : ∀ n ∈ ns, Relaxes n) {v' v : Lookups} {b' b : Bindings}
  (less : Lookups.Coarser v' v) (parent : Option Node) (locals : Bindings.Coarser b' b)
include each less locals

theorem walkEach_coarser :
    Outcome.Coarser (walkEach ns v' parent b') (walkEach ns v parent b) := by
  induction ns generalizing b' b with
  | nil => exact ⟨locals, .none _⟩
  | cons n rest ih =>
    have first := each n List.mem_cons_self v' v parent b' b less locals
    exact first.andThen (ih (fun m h => each m (List.mem_cons_of_mem _ h)) first.locals)

theorem walkBlock_coarser :
    Outcome.Coarser (walkBlock ns v' parent b') (walkBlock ns v parent b) := by
  induction ns generalizing b' b with
  | nil => exact ⟨locals, .none _⟩
  | cons n rest ih =>
    have first := each n List.mem_cons_self v' v parent b' b less locals
    have returned := returnProblems_fewer n (less.extend first.locals) parent
    have others := ih (fun m h => each m (List.mem_cons_of_mem _ h)) first.locals
    exact first.andThen ⟨others.locals, returned.append others.found⟩

theorem walkIsolated_coarser :
    Outcome.Coarser (walkIsolated ns v' parent b') (walkIsolated ns v parent b) := by
  induction ns generalizing b' b with
  | nil => exact ⟨locals, .none _⟩
  | cons n rest ih =>
    have body := each n List.mem_cons_self _ _ parent [] [] (less.extend locals) .nil
    exact (body.leave locals).andThen (ih (fun m h => each m (List.mem_cons_of_mem _ h)) locals)

end

theorem relaxes (n : Node) : Relaxes n := by
  -- both runs bind the same names in the same order, so their regions stay related
  induction n using Node.ruleInduction with
  | define name annotation value mutable loc ih =>
    intro v' v parent b' b less locals
    have actual := (blurs value _ _ (less.extend locals))
    have checked := ih v' v parent b' b less locals
    simp only [walk]
    cases annotation with
    | none => exact checked.andThen ⟨checked.locals.set name actual, .none _⟩
    | some d =>
      have expected := (blurs d _ _ (less.extend checked.locals))
      exact checked.andThen
        ⟨checked.locals.set name expected, misfits_fewer expected actual _⟩
  | assign dest value loc ih =>
    intro v' v parent b' b less locals
    have seen := less.extend locals
    exact (ih v' v parent b' b less locals).also
      (misfits_fewer (blurs dest _ _ seen) (blurs value _ _ seen) _)
  | adjust how dest value loc ih =>
    intro v' v parent b' b less locals
    have seen := less.extend locals
    exact (ih v' v parent b' b less locals).also
      ((misfits_fewer (blurs dest _ _ seen) (.refl .num) _).append
        (misfits_fewer (blurs value _ _ seen) (.refl .num) _))
  | call target args loc ih each =>
    intro v' v parent b' b less locals
    have callee := (blurs target _ _ (less.extend locals))
    have called := (ih v' v parent b' b less locals).also
      (calleeProblems_fewer callee args.length target.span (loc.getD Span.none))
    have actual := typeOfAll_of_each (less.extend called.locals) fun n (_ : n ∈ args) => blurs n
    simp only [walk]
    refine called.andThen ?_
    exact (walkEach_coarser each less parent called.locals).also
      (argumentProblems_fewer callee args actual _)
  | forLoop var low high times body loc each ih =>
    intro v' v parent b' b less locals
    rw [walk_forLoop, walk_forLoop]
    have bounds := walkEach_coarser each less parent locals
    have own : Bindings.Coarser (counter var) (counter var) := by
      cases var with
      | none => exact .nil
      | some name => exact .cons ⟨rfl, .refl .num⟩ .nil
    have inner := ih _ _ parent _ _ (less.extend bounds.locals) own
    exact bounds.andThen (inner.leave bounds.locals)
  | eachLoop var items body loc first ih =>
    intro v' v parent b' b less locals
    have before := first v' v parent b' b less locals
    have own : Bindings.Coarser [(var, .any)] [(var, .any)] := .cons ⟨rfl, .any _⟩ .nil
    have inner := ih _ _ parent _ _ (less.extend before.locals) own
    exact before.andThen (inner.leave before.locals)
  | loop body loc each =>
    intro v' v parent b' b less locals
    exact (walkBlock_coarser each (less.extend locals) _ .nil).leave locals
  | block body loc each =>
    intro v' v parent b' b less locals
    exact (walkBlock_coarser each (less.extend locals) parent .nil).leave locals
  | ifElse cond yes elseifs no loc each =>
    intro v' v parent b' b less locals
    rw [walk_ifElse, walk_ifElse]
    exact walkIsolated_coarser each less parent locals
  | ns name members loc each =>
    intro v' v parent b' b less locals
    have inner := walkBlock_coarser each (less.extend locals) parent .nil
    exact inner.leave (locals.exported name inner.locals)
  | function params result body loc each =>
    intro v' v parent b' b less locals
    have types := typeOfParams_of_each (less.extend locals)
      fun n (_ : n ∈ params.flatMap fun p => p.declared.toList) => blurs n
    have own := Bindings.Coarser.bindAll .nil params types
    exact (walkBlock_coarser each (less.extend locals) _ own).leave locals
  | inline kind loc ms passes each =>
    intro v' v parent b' b less locals
    rw [walk_inline passes, walk_inline passes]
    exact walkEach_coarser each less parent locals

/-- Every name bound in the first scope is bound in the second, where as much or more is known about
its type. -/
structure Scope.Coarser (g' g : Scope) : Prop where
  vars : ∀ x u', g'.vars.get? x = some u' → ∃ u, g.vars.get? x = some u ∧ u'.Coarser u
  types : ∀ x u', g'.types.get? x = some u' → ∃ u, g.types.get? x = some u ∧ u'.Coarser u

namespace Scope.Coarser

variable {g' g : Scope}

theorem lookups (less : Coarser g' g) :
    Lookups.Coarser (Lookups.ofGlobals g') (Lookups.ofGlobals g) := by
  have weaken {o' o : Option Ty} (bound : ∀ u', o' = some u' → ∃ u, o = some u ∧ u'.Coarser u) :
      Ty.Coarser (o'.getD .any) (o.getD .any) := by
    cases o' with
    | none => exact .any _
    | some u' =>
      obtain ⟨u, rfl, known⟩ := bound u' rfl
      exact known
  exact ⟨fun x => weaken (less.vars x), fun x => weaken (less.types x)⟩

theorem set {b' b : Bindings} (x : String) (u : Ty)
    (less : ∀ y u', b'.get? y = some u' → ∃ u, b.get? y = some u ∧ u'.Coarser u) :
    ∀ y u', (b'.set x u).get? y = some u' → ∃ w, (b.set x u).get? y = some w ∧ u'.Coarser w := by
  intro y u' found
  rw [Bindings.get?_set] at found ⊢
  by_cases same : y = x
  · rw [if_pos same] at found ⊢
    obtain rfl := Option.some.inj found
    exact ⟨u, rfl, .refl u⟩
  · rw [if_neg same] at found ⊢
    exact less y u' found

theorem setVariable (less : Coarser g' g) (x : String) (u : Ty) :
    Coarser (g'.setVariable x u) (g.setVariable x u) := ⟨set x u less.vars, less.types⟩

theorem setType (less : Coarser g' g) (x : String) (u : Ty) :
    Coarser (g'.setType x u) (g.setType x u) := ⟨less.vars, set x u less.types⟩

theorem empty (g : Scope) : Coarser {} g := ⟨fun _ _ => nofun, fun _ _ => nofun⟩

theorem bindEntries {bind : Scope → String → Ty → Scope}
    (keeps : ∀ s' s x u, Coarser s' s → Coarser (bind s' x u) (bind s x u))
    (entries : List (String × String)) {s' s t : Scope} (less : Coarser s' s)
    (bound : Config.bindEntries bind entries s = .ok t) :
    ∃ t', Config.bindEntries bind entries s' = .ok t' ∧ Coarser t' t := by
  induction entries generalizing s' s with
  | nil =>
    obtain rfl := Except.ok.inj bound
    exact ⟨s', rfl, less⟩
  | cons entry rest ih =>
    obtain ⟨name, text⟩ := entry
    simp only [Config.bindEntries] at bound ⊢
    cases read : Config.readEntry name text with
    | error e => simp [read, Bind.bind, Except.bind] at bound
    | ok u =>
      simp only [read, Bind.bind, Except.bind] at bound ⊢
      exact ih (keeps s' s name u less) bound

theorem rootScope {c : Config} {known : Scope}
    (configured : Config.rootScope { c with stdlib := true } = .ok known) :
    ∃ less, Config.rootScope { c with stdlib := false } = .ok less ∧ Coarser less known := by
  simp only [Config.rootScope, Bind.bind, Except.bind] at configured ⊢
  cases typed : Config.bindEntries Scope.setType c.types Standard.scope with
  | error e => simp [typed] at configured
  | ok s =>
    obtain ⟨s', typed', less⟩ :=
      bindEntries (fun _ _ x u less => less.setType x u) c.types (empty Standard.scope) typed
    simp only [typed, typed', if_true, Bool.false_eq_true, if_false] at configured ⊢
    exact bindEntries (fun _ _ x u less => less.setVariable x u) c.globals less configured

end Scope.Coarser

theorem Program.check_fewer (p : Program) {g' g : Scope} (less : Scope.Coarser g' g) :
    Fewer (p.check g') (p.check g) := by
  rw [p.check_eq g', p.check_eq g]
  exact (walkBlock_coarser (fun n _ => relaxes n) less.lookups none .nil).found

theorem Fewer.eq_nil {ds' ds : List Diagnostic} (fewer : Fewer ds' ds) (clean : ds = []) :
    ds' = [] := by
  subst clean
  exact List.map_eq_nil_iff.mp (List.sublist_nil.mp fewer)

/-- Globals that say less give diagnostics at some of the same places in the same order. So what is
clean stays clean, and no program fails for want of the standard library. -/
theorem Program.check_gradual (p : Program) :
    (∀ less known : Scope, Scope.Coarser less known →
      ((p.check less).map Diagnostic.location).Sublist
          ((p.check known).map Diagnostic.location) ∧
        (p.check known = [] → p.check less = [])) ∧
    ∀ (c : Config) (on : Scope), Config.rootScope { c with stdlib := true } = .ok on →
      ∃ off, Config.rootScope { c with stdlib := false } = .ok off ∧
        ((p.check off).map Diagnostic.location).Sublist
          ((p.check on).map Diagnostic.location) := by
  refine ⟨fun less known coarser => ?_, fun c on configured => ?_⟩
  · have fewer := p.check_fewer coarser
    exact ⟨fewer, fewer.eq_nil⟩
  · obtain ⟨off, same, coarser⟩ := Scope.Coarser.rootScope configured
    exact ⟨off, same, p.check_fewer coarser⟩

theorem Program.check_gradual_call :
    let text (start stop : UInt64) : Node := .mk (.str "t") (some ⟨start, stop⟩)
    let p : Program := [.mk (.call (.mk (.ident "f") none) [text 2 5]) (some ⟨0, 6⟩),
      .mk (.define "x" (some (.mk (.namedType "num" none) none)) (text 11 14) false)
        (some ⟨7, 14⟩)]
    let known : Scope :=
      ⟨[("f", .signature [.num] .num)], [("num", .num), ("str", .str)], none⟩
    let less : Scope := ⟨[("f", .signature [.any] .num)], [("num", .num)], none⟩
    Scope.Coarser less known ∧
      ((p.check less).map Diagnostic.location).Sublist
        ((p.check known).map Diagnostic.location) ∧
      (p.check less).map Diagnostic.location = [⟨7, 14⟩] ∧
      (p.check known).map Diagnostic.location = [⟨2, 5⟩, ⟨7, 14⟩] ∧
      Config.rootScope { stdlib := true } = .ok Standard.scope ∧
      ∃ off, Config.rootScope { stdlib := false } = .ok off ∧
        ((p.check off).map Diagnostic.location).Sublist
          ((p.check Standard.scope).map Diagnostic.location) := by
  intro text p known less
  have coarser : Scope.Coarser less known := by
    refine ⟨fun x u' found => ?_, fun x u' found => ?_⟩
    · obtain ⟨rfl, rfl⟩ : "f" = x ∧ Ty.signature [.any] .num = u' := by
        simpa [less, Bindings.get?] using found
      exact ⟨_, rfl, .function (.tuple (.cons (.any _) .nil)) (.refl _)⟩
    · obtain ⟨rfl, rfl⟩ : "num" = x ∧ Ty.num = u' := by
        simpa [less, Bindings.get?] using found
      exact ⟨_, rfl, .refl _⟩
  obtain ⟨fewer, switched⟩ := check_gradual p
  exact ⟨coarser, (fewer less known coarser).1, by decide +kernel, by decide +kernel, rfl,
    switched {} Standard.scope rfl⟩

end ScriptCheck
