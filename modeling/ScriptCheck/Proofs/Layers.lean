import Mathlib.Data.List.Forall2
import ScriptCheck.Config.Basic
import ScriptCheck.Proofs.Dependence

/-! The scope that the programs of a project start from. Configured entries are laid over the
standard bindings, type aliases first. A name that is there keeps its place and gets a new type, and
a new name goes to the end. The first entry that is no type, in this order, is the error. -/
namespace ScriptCheck

open List (Forall₂)

namespace Config

def rejected (entry : String × String) : Bool := !(Ty.parse entry.2).isOk

/-- The error names the first rejected entry and says what is wrong with its text. -/
structure FirstRejected (entries : List (String × String)) (e : TypeEntryError) : Prop where
  first : entries.find? rejected = some (e.name, e.text)
  cause : Ty.parse e.text = .error e.cause

def Reads (entry : String × String) (binding : String × Ty) : Prop :=
  binding.1 = entry.1 ∧ Ty.parse entry.2 = .ok binding.2

theorem Reads.not_rejected {entry : String × String} {binding : String × Ty}
    (reads : Reads entry binding) : rejected entry = false := by
  rw [rejected, reads.2]
  rfl

section Entries

variable {entries : List (String × String)} {read : Bindings}

theorem names_of_reads (reads : Forall₂ Reads entries read) :
    read.names = entries.map Prod.fst := by
  induction reads with
  | nil => rfl
  | cons head _ ih => exact congrArg₂ List.cons head.1 ih

theorem accepted_iff_reads (entries : List (String × String)) :
    (∀ entry ∈ entries, ∃ t, Ty.parse entry.2 = .ok t) ↔ ∃ read, Forall₂ Reads entries read := by
  induction entries with
  | nil => simp
  | cons entry rest ih =>
    rw [List.forall_mem_cons, ih]
    constructor
    · rintro ⟨⟨t, parsed⟩, read, reads⟩
      exact ⟨(entry.1, t) :: read, .cons ⟨rfl, parsed⟩ reads⟩
    · rintro ⟨_, reads⟩
      cases reads with
      | cons head tail => exact ⟨⟨_, head.2⟩, _, tail⟩

theorem reads_or_rejects (entries : List (String × String)) :
    (∃ read, Forall₂ Reads entries read) ∨ ∃ e, FirstRejected entries e := by
  induction entries with
  | nil => exact .inl ⟨[], .nil⟩
  | cons entry rest ih =>
    obtain ⟨name, text⟩ := entry
    cases parsed : Ty.parse text with
    | error cause =>
      have here : rejected (name, text) = true := by
        rw [rejected, parsed]
        rfl
      exact .inr ⟨⟨name, text, cause⟩, List.find?_cons_of_pos here, parsed⟩
    | ok t =>
      have head : Reads (name, text) (name, t) := ⟨rfl, parsed⟩
      refine ih.imp (fun ⟨read, reads⟩ => ⟨_ :: read, .cons head reads⟩) ?_
      rintro ⟨e, first, cause⟩
      exact ⟨e, by rw [List.find?_cons, head.not_rejected, first], cause⟩

theorem bindEntries_reads (bind : Scope → String → Ty → Scope)
    (reads : Forall₂ Reads entries read) (s : Scope) :
    bindEntries bind entries s = .ok (read.foldl (fun s b => bind s b.1 b.2) s) := by
  induction reads generalizing s with
  | nil => rfl
  | @cons entry binding rest others head _ ih =>
    obtain ⟨_, text⟩ := entry
    obtain ⟨name, t⟩ := binding
    obtain ⟨rfl, parsed⟩ := head
    have here : readEntry name text = .ok t := by
      rw [readEntry, show Ty.parse text = .ok t from parsed]
      rfl
    rw [bindEntries, here, List.foldl_cons]
    exact ih _

theorem bindEntries_rejects (bind : Scope → String → Ty → Scope) {e : TypeEntryError}
    (rejects : FirstRejected entries e) (s : Scope) :
    bindEntries bind entries s = .error e := by
  obtain ⟨first, cause⟩ := rejects
  induction entries generalizing s with
  | nil => simp at first
  | cons entry rest ih =>
    obtain ⟨name, text⟩ := entry
    rw [List.find?_cons] at first
    rw [bindEntries, readEntry]
    cases parsed : Ty.parse text with
    | error other =>
      rw [rejected, parsed] at first
      obtain ⟨rfl, rfl⟩ := Prod.mk.inj (Option.some.inj first)
      obtain rfl := Except.error.inj (parsed.symm.trans cause)
      rfl
    | ok t =>
      rw [rejected, parsed] at first
      exact ih _ first

end Entries

theorem foldl_setType (read : Bindings) (s : Scope) :
    read.foldl (fun s b => s.setType b.1 b.2) s = { s with types := s.types.update read } := by
  induction read generalizing s with
  | nil => rfl
  | cons b rest ih =>
    rw [List.foldl_cons, ih]
    rfl

theorem foldl_setVariable (read : Bindings) (s : Scope) :
    read.foldl (fun s b => s.setVariable b.1 b.2) s = { s with vars := s.vars.update read } := by
  induction read generalizing s with
  | nil => rfl
  | cons b rest ih =>
    rw [List.foldl_cons, ih]
    rfl

def baseScope (c : Config) : Scope := if c.stdlib then Standard.scope else {}

theorem baseScope_types (c : Config) :
    c.baseScope.types = if c.stdlib then Standard.types else [] := by
  rw [baseScope, apply_ite Scope.types]
  rfl

theorem baseScope_vars (c : Config) :
    c.baseScope.vars = if c.stdlib then Standard.vars else [] := by
  rw [baseScope, apply_ite Scope.vars]
  rfl

section Root

variable {c : Config} {types globals : Bindings}

theorem rootScope_reads (typed : Forall₂ Reads c.types types)
    (given : Forall₂ Reads c.globals globals) :
    c.rootScope = .ok { c.baseScope with
      types := c.baseScope.types.update types, vars := c.baseScope.vars.update globals } := by
  have first := bindEntries_reads Scope.setType typed c.baseScope
  rw [foldl_setType] at first
  rw [rootScope, ← baseScope, first]
  refine (bindEntries_reads Scope.setVariable given _).trans ?_
  rw [foldl_setVariable]

theorem rootScope_rejects {e : TypeEntryError} (rejects : FirstRejected (c.types ++ c.globals) e) :
    c.rootScope = .error e := by
  obtain ⟨first, cause⟩ := rejects
  rw [List.find?_append] at first
  rw [rootScope, ← baseScope]
  rcases Option.or_eq_some_iff.mp first with here | ⟨none, there⟩
  · rw [bindEntries_rejects Scope.setType ⟨here, cause⟩]
    rfl
  · rcases reads_or_rejects c.types with ⟨types, typed⟩ | ⟨other, rejects⟩
    · rw [bindEntries_reads Scope.setType typed]
      exact bindEntries_rejects Scope.setVariable ⟨there, cause⟩ _
    · rw [rejects.first] at none
      cases none

theorem all_reads_or_rejects (c : Config) :
    (∃ types globals, Forall₂ Reads c.types types ∧ Forall₂ Reads c.globals globals) ∨
      ∃ e, FirstRejected (c.types ++ c.globals) e := by
  refine (reads_or_rejects (c.types ++ c.globals)).imp_left fun read => ?_
  have accepted := (accepted_iff_reads _).mpr read
  rw [List.forall_mem_append, accepted_iff_reads, accepted_iff_reads] at accepted
  obtain ⟨⟨types, typed⟩, globals, given⟩ := accepted
  exact ⟨types, globals, typed, given⟩

end Root

end Config

structure Bindings.Layered (base : Bindings) (entries : List (String × String)) (b : Bindings) :
    Prop where
  /-- The old names in their places, then the new ones in the order of the entries. -/
  names : b.names = addNames base.names (entries.map Prod.fst)
  /-- A configured name stands for the type of its text, the last one if there are several. -/
  given : ∀ before name text after, entries = before ++ (name, text) :: after →
    name ∉ after.map Prod.fst → ∃ t, Ty.parse text = .ok t ∧ b.get? name = some t
  kept : ∀ name, name ∉ entries.map Prod.fst → b.get? name = base.get? name

namespace Bindings

variable {entries : List (String × String)} {read : Bindings}

theorem get?_update_given {before after : List (String × String)} {name text : String}
    (reads : Forall₂ Config.Reads (before ++ (name, text) :: after) read)
    (last : name ∉ after.map Prod.fst) :
    ∃ t, Ty.parse text = .ok t ∧ ∀ base : Bindings, (base.update read).get? name = some t := by
  induction before generalizing read with
  | nil =>
    cases reads with
    | @cons _ binding _ later head rest =>
      rw [← Config.names_of_reads rest] at last
      refine ⟨binding.2, head.2, fun base => ?_⟩
      rw [update, List.foldl_cons, ← update, get?_update_of_not_mem last, get?_set,
        if_pos head.1.symm]
  | cons entry before ih =>
    cases reads with
    | cons _ rest =>
      obtain ⟨t, parsed, bound⟩ := ih rest
      exact ⟨t, parsed, fun base => bound _⟩

theorem layered_update (reads : Forall₂ Config.Reads entries read) (base : Bindings) :
    Layered base entries (base.update read) where
  names := by rw [names_update, Config.names_of_reads reads]
  given before name text after split last := by
    subst split
    obtain ⟨t, parsed, bound⟩ := get?_update_given reads last
    exact ⟨t, parsed, bound base⟩
  kept name absent := by
    rw [← Config.names_of_reads reads] at absent
    exact get?_update_of_not_mem absent base

end Bindings

/-- The root scope can be built if and only if every configured text is a type expression. If not,
the error is about the first entry that is none, type aliases before variables. If so, the
configured aliases are laid over the standard ones, or over nothing without the standard library,
and so are the variables. -/
theorem Config.rootScope_layers (c : Config) :
    ((∃ scope, c.rootScope = .ok scope) ↔
      ∀ entry ∈ c.types ++ c.globals, ∃ t, Ty.parse entry.2 = .ok t) ∧
    (∀ e, c.rootScope = .error e ↔ FirstRejected (c.types ++ c.globals) e) ∧
    ∀ scope, c.rootScope = .ok scope →
      Bindings.Layered (if c.stdlib then Standard.types else []) c.types scope.types ∧
      Bindings.Layered (if c.stdlib then Standard.vars else []) c.globals scope.vars := by
  rw [← baseScope_types, ← baseScope_vars, List.forall_mem_append, accepted_iff_reads,
    accepted_iff_reads]
  rcases all_reads_or_rejects c with ⟨types, globals, typed, given⟩ | ⟨e, rejects⟩
  · have built := rootScope_reads typed given
    refine ⟨iff_of_true ⟨_, built⟩ ⟨⟨types, typed⟩, globals, given⟩, fun e => ?_,
      fun scope same => ?_⟩
    · refine ⟨fun failed => ?_, rootScope_rejects⟩
      rw [built] at failed
      cases failed
    · obtain rfl := Except.ok.inj (built.symm.trans same)
      exact ⟨Bindings.layered_update typed _, Bindings.layered_update given _⟩
  · have failed := rootScope_rejects rejects
    have refused : ¬ ∃ scope, c.rootScope = .ok scope := by
      rintro ⟨scope, built⟩
      rw [failed] at built
      cases built
    refine ⟨iff_of_false refused ?_, fun e' => ⟨fun same => ?_, rootScope_rejects⟩,
      fun scope built => absurd ⟨scope, built⟩ refused⟩
    · rintro ⟨⟨types, typed⟩, globals, given⟩
      exact refused ⟨_, rootScope_reads typed given⟩
    · obtain rfl := Except.error.inj (failed.symm.trans same)
      exact rejects

/-- A standard alias and a standard variable get new types where they stand, and new names come
behind the standard ones. An alias that is no type is the error, whatever is wrong behind it. -/
theorem Config.rootScope_layers_overriding :
    let c : Config := {
      types := [("id", "num | str"), ("num", "str")]
      globals := [("print", "@(id): null"), ("x", "[num]")] }
    let bad : Config := {
      stdlib := false
      types := [("a", "num"), ("b", "[num"), ("c", "")]
      globals := [("x", "|")] }
    let e : TypeEntryError := ⟨"b", "[num", ⟨.expectedMark ']', 4⟩⟩
    (∃ scope, c.rootScope = .ok scope ∧
      scope.types.names = Ty.builtin ++ ["id"] ∧ scope.types.get? "num" = some .str ∧
      scope.types.get? "str" = some .str ∧
      scope.vars.names = Standard.vars.names ++ ["x"] ∧
      scope.vars.get? "print" = some (.signature [.name "id"] .null)) ∧
    FirstRejected (bad.types ++ bad.globals) e ∧ bad.rootScope = .error e := by
  intro c bad e
  have number : Ty.parse "str" = .ok .str := by decide +kernel
  have print : Ty.parse "@(id): null" = .ok (.signature [.name "id"] .null) := by decide +kernel
  have accepted : ∀ entry ∈ c.types ++ c.globals, ∃ t, Ty.parse entry.2 = .ok t := by
    have union : Ty.parse "num | str" = .ok (.union [.num, .str]) := by decide +kernel
    have tuple : Ty.parse "[num]" = .ok (.tuple [.num]) := by decide +kernel
    simp [c, number, print, union, tuple]
  have first : FirstRejected (bad.types ++ bad.globals) e := ⟨by decide +kernel, by decide +kernel⟩
  obtain ⟨builds, _, layers⟩ := rootScope_layers c
  obtain ⟨scope, built⟩ := builds.mpr accepted
  obtain ⟨types, vars⟩ := layers scope built
  obtain ⟨t, parsed, bound⟩ := types.given [("id", "num | str")] "num" "str" [] rfl (by simp)
  obtain rfl := Except.ok.inj (number.symm.trans parsed)
  obtain ⟨u, parsed, given⟩ := vars.given [] "print" "@(id): null" [("x", "[num]")] rfl (by simp)
  obtain rfl := Except.ok.inj (print.symm.trans parsed)
  refine ⟨⟨scope, built, ?_, bound, ?_, ?_, given⟩, first, ((rootScope_layers bad).2.1 e).mpr first⟩
  · exact types.names.trans (by decide +kernel)
  · exact (types.kept "str" (by decide)).trans (by decide +kernel)
  · exact vars.names.trans (by decide +kernel)

end ScriptCheck
