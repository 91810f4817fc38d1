import ScriptCheck.Proofs.Precision
import ScriptCheck.Proofs.Visits

/-! Returns of functions that do not say what they return. Such a function is inferred again at each
`return`, with its parameters bound once more over all that stands around the `return`. The value
that the result was taken from is therefore read twice, and the two readings differ only in what the
parameters stand for: where an annotated parameter has been bound to something else in the meantime,
the function can reject the very value that its result was taken from. -/
namespace ScriptCheck
open ScopeTree

def Node.MentionsVar (x : String) (n : Node) : Prop := ∃ loc, Node.Within (.mk (.ident x) loc) n

/-- What names stand for once the parameters are bound over them. -/
def Lookups.rebound (w : Lookups) (params : List Param) : Lookups :=
  w.extend (bindAll params (typeOfParams params w) [])

theorem Lookups.rebound_var (w : Lookups) (params : List Param) (x : String) :
    (w.rebound params).var x =
      ((lastDeclared params x).map fun a => typeOfMaybe a w).or (w.var x) := by
  simp only [rebound, extend, get?_bindAll, Bindings.get?, Option.or_none]

theorem Lookups.rebound_stays {v w : Lookups} {params : List Param} {x : String} {a : Node}
    (seen : Lookups.Agree (· = x) (v.rebound params) w)
    (known : lastDeclared params x = some (some a)) (closed : ∀ y, ¬ a.MentionsVar y) :
    w.var x = some (typeOf a w) := by
  have types : Lookups.Agree (fun _ => False) v w := ⟨fun _ => False.elim, seen.type⟩
  have given := v.rebound_var params x
  rw [known] at given
  calc
    w.var x = (v.rebound params).var x := (seen.var x rfl).symm
    _ = some (typeOf a v) := given
    _ = some (typeOf a w) := by rw [settled (fun y l inside => closed y ⟨l, inside⟩) _ _ types]

/-- A parameter without annotation is bound to `any`. So less is known of a value once the
parameters are bound again, provided that the annotated ones it mentions have the types they are
given. -/
theorem typeOf_rebound_coarser {params : List Param} {value : Node} {w : Lookups}
    (stays : ∀ x a, lastDeclared params x = some (some a) → value.MentionsVar x →
      w.var x = some (typeOf a w)) :
    Ty.Coarser (typeOf value (w.rebound params)) (typeOf value w) := by
  classical
  let u : Lookups :=
    { w with var := fun x => if value.MentionsVar x then (w.rebound params).var x else w.var x }
  have agree : Lookups.Agree value.MentionsVar (w.rebound params) u :=
    ⟨fun x mentioned => (if_pos mentioned).symm, rfl⟩
  have mentions : value.Mentions value.MentionsVar := fun x loc inside => ⟨loc, inside⟩
  have coarser : Lookups.Coarser u w := by
    refine ⟨fun x => ?_, fun x => .refl _⟩
    by_cases mentioned : value.MentionsVar x
    · simp only [u, if_pos mentioned, Lookups.rebound_var]
      cases known : lastDeclared params x with
      | none => exact .refl _
      | some declared =>
        cases declared with
        | none => exact .any _
        | some a =>
          rw [stays x a known mentioned]
          exact .refl _
    · simp only [u, if_neg mentioned]
      exact .refl _
  rw [settled mentions _ _ agree]
  exact blurs value u w coarser

theorem resultType_of_firstReturn {params : List Param} {body : List Node} {value : Node}
    (first : firstReturn body = some value) (w : Lookups) :
    resultType params none body w = typeOf value (w.rebound params) := by
  simp only [resultType, typeOfReturn_eq, first, Lookups.rebound, Option.map_some,
    Option.getD_some]

namespace Checker

/-- The type of a node in a new scope below `s` that binds the parameters. -/
def inferBelow (c : Checker) (params : List Param) (n : Node) (s : ScopeId) : Ty :=
  (((c.openChild s).2.bindParams params s (c.openChild s).1).infer n (c.openChild s).1).1

theorem inferBelow_eq {c : Checker} {s : Nat} {v : Lookups} {b : Bindings} (here : c.Stands s v b)
    (params : List Param) (n : Node) :
    c.inferBelow params n s = typeOf n ((v.extend b).rebound params) :=
  (here.params params).infer_fst n

section

variable {params : List Param} {value : Node} {c : Checker} {s : Nat} {v : Lookups} {b : Bindings}
  (here : c.Stands s v b)
include here

theorem checkReturn_itself {body : List Node} (first : firstReturn body = some value)
    (loc place : Option Span) :
    (c.checkReturn (.mk (.ret value) place) s
      (some (.mk (.function params none body) loc))).diagnostics =
      c.diagnostics ++ misfits (c.inferBelow params value s) (c.infer value s).1
        (value.loc.getD (Node.mk (.ret value) place).span) := by
  have told := (checkReturn_follows (.mk (.ret value) place)
    (some (.mk (.function params none body) loc)) here).diagnostics
  simp only [returnProblems, Node.kind, typeOf_function, resultType_of_firstReturn first] at told
  rw [told, inferBelow_eq here, here.infer_fst]

theorem inferBelow_accepts (stays : ∀ x a, lastDeclared params x = some (some a) →
      value.MentionsVar x → c.scopes.getVariable s x = some (c.infer a s).1) :
    Ty.mismatches (c.inferBelow params value s) (c.infer value s).1 = [] := by
  have coarser : Ty.Coarser (typeOf value ((v.extend b).rebound params))
      (typeOf value (v.extend b)) := by
    refine typeOf_rebound_coarser fun x a known mentioned => ?_
    have seen : (c.scopes.view s).var x = _ := stays x a known mentioned
    rwa [here.view, here.infer_fst] at seen
  rw [inferBelow_eq here, here.infer_fst, Ty.mismatches_of_coarser coarser (.refl _)]

end

namespace Visit

variable {params : List Param} {body : List Node} {loc : Option Span} {s : ScopeId}
  {parent : Option Node} {c : Checker}

theorem Reaches.statements {result : Option Node} {b : Visit}
    (reached : Reaches ⟨.node (.mk (.function params result body) loc), s, parent, c⟩ b)
    (other : b.task ≠ .node (.mk (.function params result body) loc)) :
    Reaches ⟨.block body, (c.openChild s).1, some (.mk (.function params result body) loc),
      (c.openChild s).2.bindParams params s (c.openChild s).1⟩ b := by
  rcases Relation.ReflTransGen.cases_head reached with rfl | ⟨next, step, rest⟩
  · exact absurd rfl other
  · cases step with
    | inline kind loc ms s parent c passes => simp [Kind.inline] at passes
    | function => exact rest

theorem Reaches.enters {result : Option Node} {ret : Node} {rest : List Node} {s' : ScopeId}
    {around : Option Node} {d : Checker}
    (sound : Sound ⟨.node (.mk (.function params result body) loc), s, parent, c⟩)
    (reached : Reaches ⟨.node (.mk (.function params result body) loc), s, parent, c⟩
      ⟨.block (ret :: rest), s', around, d⟩) {x : String} (free : ∀ n ∈ body, ¬ n.Rebinds x) :
    Lookups.Agree (· = x) ((c.scopes.view s).rebound params)
      ((checkNode ret s' around d).scopes.view s') := by
  have inner := reached.statements (by simp)
  have entered := sound.stands.params params
  obtain ⟨there, seen⟩ := Reaches.sees inner ⟨entered.nested, entered.inside⟩
  have checked := (isolates ret s' around d there.inside).agree there.nested there.inside
  have unbound : ¬ Task.Rebinds x (.block body) := fun ⟨n, member, bound⟩ => free n member bound
  have before : Lookups.Agree (· = x) _ _ := seen.only (by rintro _ rfl; exact unbound)
  have after : Lookups.Agree (· = x) _ _ := checked.only (by
    rintro _ rfl bound
    exact unbound (Reaches.rebinds inner ⟨ret, List.mem_cons_self, rebinds_of_declared bound⟩))
  rw [view, entered.view, ← sound.stands.view] at before
  exact before.trans after

end Visit

end Checker

open Checker

/-- A function that does not say what it returns is held against the value that its result is taken
from. What is found is what the type of the value with the parameters bound once more says against
its type as it stands, and it is found in the program. Nothing is found if every annotated parameter
that the value mentions is still seen with the type of its annotation; that is so if these
annotations mention no variable and no statement of the function binds these parameters again. -/
theorem Program.check_return_of_itself (p : Program) (globals : Scope) {params : List Param}
    {body rest : List Node} {loc place : Option Span} {s s' : ScopeId} {parent : Option Node}
    {c d : Checker} {value : Node} (first : firstReturn body = some value) :
    let function : Node := .mk (.function params none body) loc
    let ret : Node := .mk (.ret value) place
    Visit.Reaches (.start p globals) ⟨.node function, s, parent, c⟩ →
    Visit.Reaches ⟨.node function, s, parent, c⟩
      ⟨.block (ret :: rest), s', some function, d⟩ →
    let checked := checkNode ret s' (some function) d
    let found := misfits (checked.inferBelow params value s') (checked.infer value s').1
      (value.loc.getD ret.span)
    (checked.checkReturn ret s' (some function)).diagnostics = checked.diagnostics ++ found ∧
    checked.diagnostics ++ found <+: p.check globals ∧
    ((∀ x a, lastDeclared params x = some (some a) → value.MentionsVar x →
      checked.scopes.getVariable s' x = some (checked.infer a s').1) → found = []) ∧
    ((∀ x a, lastDeclared params x = some (some a) → value.MentionsVar x →
      (∀ y, ¬ a.MentionsVar y) ∧ ∀ n ∈ body, ¬ n.Rebinds x) → found = []) := by
  intro function ret reached returned checked found
  have sound := (Visit.Reaches.sees reached (Visit.start_sound p globals)).1
  have there := (Visit.Reaches.sees returned sound).1
  have after : Visit.Sees _ _ ⟨.block rest, s', some function, checked⟩ :=
    .of_binds there (isolates ret s' (some function) d there.inside)
  have here : checked.Stands s' _ _ := after.sound.stands
  have told : (checked.checkReturn ret s' (some function)).diagnostics =
      checked.diagnostics ++ found := checkReturn_itself here first loc place
  have fits (stays : ∀ x a, lastDeclared params x = some (some a) → value.MentionsVar x →
      checked.scopes.getVariable s' x = some (checked.infer a s').1) : found = [] := by
    simp only [found, misfits, inferBelow_accepts here stays, List.map_nil]
  refine ⟨told, ?_, fits, fun kept => fits fun x a known mentioned => ?_⟩
  · obtain ⟨_, _, next⟩ := (Visit.Calls.blockTail ret rest s' (some function) d).sees there
    rw [← told]
    exact (Visit.run_tells next.sound).trans
      (Visit.Reaches.tells (reached.trans returned) (Visit.start_sound p globals))
  · obtain ⟨closed, free⟩ := kept x a known mentioned
    have stays := Lookups.rebound_stays (Visit.Reaches.enters sound returned free) known closed
    rw [here.infer_fst, ← here.view]
    exact stays

theorem Program.check_return_of_itself_nested :
    let globals : Scope := ⟨[], [("num", .num)], none⟩
    let value : Node := .mk (.ident "x") (some ⟨9, 10⟩)
    let ret : Node := .mk (.ret value) none
    let other : Node := .mk (.define "z" none (.mk (.ident "y") none) false) none
    let params : List Param := [.mk "x" (some (.mk (.namedType "num" none) none)), .mk "y" none]
    let body : List Node := [other, .mk (.block [ret]) none]
    let function : Node := .mk (.function params none body) none
    let c := Checker.new globals
    let inner := (c.openChild root).1
    let entered := (c.openChild root).2.bindParams params root inner
    let e := (checkNode other inner (some function) entered).checkReturn other inner (some function)
    let checked := checkNode ret (e.openChild inner).1 (some function) (e.openChild inner).2
    firstReturn body = some value ∧
    (checked.infer value (e.openChild inner).1).1 = .num ∧
    (checked.checkReturn ret (e.openChild inner).1 (some function)).diagnostics =
      checked.diagnostics := by
  intro globals value ret other params body function c inner entered e checked
  have first : firstReturn body = some value := rfl
  have reached : Visit.Reaches (.start [function] globals) ⟨.node function, root, none, c⟩ :=
    .single (.blockHead function [] root none c)
  have statements : Visit.Reaches ⟨.node function, root, none, c⟩
      ⟨.block [.mk (.block [ret]) none], inner, some function, e⟩ :=
    (Relation.ReflTransGen.single (.function params none body none root none c)).tail
      (.blockTail other [.mk (.block [ret]) none] inner (some function) entered)
  have returned : Visit.Reaches ⟨.node function, root, none, c⟩
      ⟨.block [ret], (e.openChild inner).1, some function, (e.openChild inner).2⟩ :=
    (statements.tail (.blockHead (.mk (.block [ret]) none) [] inner (some function) e)).tail
      (.block [ret] none inner (some function) e)
  obtain ⟨told, _, _, kept⟩ :=
    check_return_of_itself [function] globals first reached returned
  have unbound : ∀ n ∈ body, ¬ n.Rebinds "x" := by
    simp [body, other, ret, value, Node.Rebinds, Node.within_iff, Kind.parts, Kind.binds,
      Node.kind]
  rw [kept, List.append_nil] at told
  · exact ⟨first, by decide +kernel, told⟩
  · intro x a known _
    obtain ⟨-, rfl, rfl⟩ : x ≠ "y" ∧ x = "x" ∧ .mk (.namedType "num" none) none = a := by
      simpa [params, lastDeclared, ite_eq_iff] using known
    refine ⟨?_, unbound⟩
    simp [Node.MentionsVar, Node.within_iff, Kind.parts]

/-- A parameter that the statements define anew: the function returns a string, and is said to
return a number. -/
theorem Program.check_return_of_itself_shadowed :
    let value : Node := .mk (.ident "x") (some ⟨9, 10⟩)
    let again : Node := .mk (.define "x" none (.mk (.str "t") none) false) none
    let body : List Node := [again, .mk (.ret value) none]
    let params : List Param := [.mk "x" (some (.mk (.namedType "num" none) none))]
    firstReturn body = some value ∧
    (Program.check [.mk (.function params none body) none] Standard.scope).map
        (fun d => (d.message, d.location)) =
      [("Type 'str' is not assignable to type 'num'", ⟨9, 10⟩)] :=
  ⟨rfl, by decide +kernel⟩

end ScriptCheck
