import ScriptCheck.Proofs.Environment

/-! Which `return` counts for a function that does not say what it returns. To look for it and to
type what is found are two separate steps, whatever the types are made of. So what holds of types
is met at a function literal as something that holds of one value in its body. -/
namespace ScriptCheck

mutual
def firstReturn : List Node → Option Node
  | [] => none
  | n :: rest => (firstReturnIn n).or (firstReturn rest)
termination_by structural ns => ns

/-- Function literals own their returns and are not entered. -/
def firstReturnIn : Node → Option Node
  | .mk (.ret value) _ => some value
  | .mk (.block body) _ => firstReturn body
  | .mk (.loop body) _ => firstReturn body
  | .mk (.forLoop _ _ _ _ body) _ => firstReturnIn body
  | .mk (.eachLoop _ _ body) _ => firstReturnIn body
  | .mk (.ifElse _ yes elseifs no) _ =>
    (firstReturnIn yes).or ((firstReturnBranches elseifs).or (firstReturnMaybe no))
  | .mk (.select _ arms default) _ =>
    (firstReturnBranches arms).or (firstReturnMaybe default)
  | _ => none
termination_by structural n => n

def firstReturnMaybe : Option Node → Option Node
  | none => none
  | some n => firstReturnIn n
termination_by structural o => o

def firstReturnBranches : List Branch → Option Node
  | [] => none
  | .mk _ body :: rest => (firstReturnIn body).or (firstReturnBranches rest)
termination_by structural bs => bs
end

section FirstReturn

variable {e : Node}

theorem firstReturn_mem {ns : List Node} (found : firstReturn ns = some e) :
    ∃ n ∈ ns, firstReturnIn n = some e := by
  induction ns with
  | nil => simp [firstReturn] at found
  | cons n rest ih =>
    rcases Option.or_eq_some_iff.mp found with here | ⟨_, later⟩
    · exact ⟨n, List.mem_cons_self, here⟩
    · obtain ⟨m, there, inside⟩ := ih later
      exact ⟨m, List.mem_cons_of_mem _ there, inside⟩

theorem firstReturnMaybe_mem {o : Option Node} (found : firstReturnMaybe o = some e) :
    ∃ n ∈ o.toList, firstReturnIn n = some e := by
  cases o with
  | none => simp [firstReturnMaybe] at found
  | some n => exact ⟨n, by simp, found⟩

theorem firstReturnBranches_mem {bs : List Branch} (found : firstReturnBranches bs = some e) :
    ∃ n ∈ bs.flatMap Branch.nodes, firstReturnIn n = some e := by
  induction bs with
  | nil => simp [firstReturnBranches] at found
  | cons b rest ih =>
    obtain ⟨test, body⟩ := b
    rcases Option.or_eq_some_iff.mp found with here | ⟨_, later⟩
    · exact ⟨body, by simp [Branch.nodes], here⟩
    · obtain ⟨m, there, inside⟩ := ih later
      exact ⟨m, by simp [there], inside⟩

theorem firstReturnIn_part {kind : Kind} {loc : Option Span}
    (found : firstReturnIn (.mk kind loc) = some e) :
    e ∈ kind.parts ∨ ∃ m ∈ kind.parts, firstReturnIn m = some e := by
  cases kind with
  | ret value =>
    obtain rfl : value = e := Option.some.inj found
    exact .inl (by simp [Kind.parts])
  | block body => exact .inr (firstReturn_mem found)
  | loop body => exact .inr (firstReturn_mem found)
  | forLoop var low high times body => exact .inr ⟨body, by simp [Kind.parts], found⟩
  | eachLoop var items body => exact .inr ⟨body, by simp [Kind.parts], found⟩
  | ifElse cond yes elseifs no =>
    rcases Option.or_eq_some_iff.mp found with here | ⟨_, later⟩
    · exact .inr ⟨yes, by simp [Kind.parts], here⟩
    · rcases Option.or_eq_some_iff.mp later with here | ⟨_, last⟩
      · obtain ⟨m, there, inside⟩ := firstReturnBranches_mem here
        exact .inr ⟨m, by simp [Kind.parts, -List.mem_flatMap, there], inside⟩
      · obtain ⟨m, there, inside⟩ := firstReturnMaybe_mem last
        exact .inr ⟨m, by simp [Kind.parts, -List.mem_flatMap, -Option.mem_toList, there], inside⟩
  | select about arms default =>
    rcases Option.or_eq_some_iff.mp found with here | ⟨_, last⟩
    · obtain ⟨m, there, inside⟩ := firstReturnBranches_mem here
      exact .inr ⟨m, by simp [Kind.parts, -List.mem_flatMap, there], inside⟩
    · obtain ⟨m, there, inside⟩ := firstReturnMaybe_mem last
      exact .inr ⟨m, by simp [Kind.parts, -List.mem_flatMap, -Option.mem_toList, there], inside⟩
  | _ => simp [firstReturnIn] at found

theorem firstReturnIn_within {n : Node} (found : firstReturnIn n = some e) : e.Within n := by
  induction n using Node.induction with
  | step n ih =>
    obtain ⟨kind, loc⟩ := n
    rcases firstReturnIn_part found with direct | ⟨m, direct, inside⟩
    · exact .part direct .self
    · exact .part direct (ih m direct inside)

end FirstReturn

/-- Ways to look for a `return` in a node, in statements, in an optional node and in branches, which
go the way of `firstReturn` and end in something that is made of the value. -/
structure Scan {α : Type} (value : Node → α) (node : Node → Option α) (list : List Node → Option α)
    (maybe : Option Node → Option α) (branches : List Branch → Option α) : Prop where
  nil : list [] = none
  cons : ∀ n rest, list (n :: rest) = (node n).or (list rest)
  absent : maybe none = none
  present : ∀ n, maybe (some n) = node n
  empty : branches [] = none
  branch : ∀ test body rest,
    branches (.mk test body :: rest) = (node body).or (branches rest)
  step : ∀ kind loc, node (.mk kind loc) =
    match kind with
    | .ret e => some (value e)
    | .block body | .loop body => list body
    | .forLoop _ _ _ _ body | .eachLoop _ _ body => node body
    | .ifElse _ yes elseifs no => (node yes).or ((branches elseifs).or (maybe no))
    | .select _ arms default => (branches arms).or (maybe default)
    | _ => none

namespace Scan

variable {α : Type} {value : Node → α} {node : Node → Option α} {list : List Node → Option α}
  {maybe : Option Node → Option α} {branches : List Branch → Option α}
  (scan : Scan value node list maybe branches)
include scan

theorem list_of_each {ns : List Node} (each : ∀ n ∈ ns, node n = (firstReturnIn n).map value) :
    list ns = (firstReturn ns).map value := by
  induction ns with
  | nil => exact scan.nil
  | cons n rest ih =>
    obtain ⟨head, tail⟩ := List.forall_mem_cons.mp each
    rw [scan.cons, firstReturn, Option.map_or, head, ih tail]

theorem maybe_of_each {o : Option Node}
    (each : ∀ n ∈ o.toList, node n = (firstReturnIn n).map value) :
    maybe o = (firstReturnMaybe o).map value := by
  cases o with
  | none => exact scan.absent
  | some n => rw [scan.present, firstReturnMaybe, each n (by simp)]

theorem branches_of_each {bs : List Branch}
    (each : ∀ n ∈ bs.flatMap Branch.nodes, node n = (firstReturnIn n).map value) :
    branches bs = (firstReturnBranches bs).map value := by
  induction bs with
  | nil => exact scan.empty
  | cons b rest ih =>
    obtain ⟨test, body⟩ := b
    simp only [List.flatMap_cons, List.forall_mem_append] at each
    have here := each.1 body (by simp [Branch.nodes])
    rw [scan.branch, firstReturnBranches, Option.map_or, here, ih each.2]

theorem node_eq (n : Node) : node n = (firstReturnIn n).map value := by
  induction n using Node.induction with
  | step n each =>
    obtain ⟨kind, loc⟩ := n
    change ∀ m ∈ kind.parts, node m = (firstReturnIn m).map value at each
    rw [scan.step]
    cases kind with
    | block body => exact scan.list_of_each each
    | loop body => exact scan.list_of_each each
    | forLoop var low high times body => exact each body (by simp [Kind.parts])
    | eachLoop var items body => exact each body (by simp [Kind.parts])
    | ifElse cond yes elseifs no =>
      simp only [Kind.parts, List.forall_mem_cons, List.forall_mem_append] at each
      obtain ⟨_, first, others, last⟩ := each
      simp only [firstReturnIn, Option.map_or, first, scan.branches_of_each others,
        scan.maybe_of_each last]
    | select about arms default =>
      simp only [Kind.parts, List.forall_mem_cons, List.forall_mem_append] at each
      obtain ⟨_, others, last⟩ := each
      simp only [firstReturnIn, Option.map_or, scan.branches_of_each others,
        scan.maybe_of_each last]
    | _ => rfl

theorem list_eq (ns : List Node) : list ns = (firstReturn ns).map value :=
  scan.list_of_each fun n _ => scan.node_eq n

end Scan

theorem inferReturn_eq (ns : List Node) (s : ScopeId) (t : ScopeTree) :
    inferReturn ns s t = (firstReturn ns).map fun e => infer e s t := by
  have scan : Scan (infer · s t) (inferReturnIn · s t) (inferReturn · s t)
      (inferReturnMaybe · s t) (inferReturnBranches · s t) :=
    { nil := rfl
      cons := fun _ _ => Option.orElse_eq_or
      absent := rfl
      present := fun _ => rfl
      empty := rfl
      branch := fun _ _ _ => Option.orElse_eq_or
      step := fun kind _ => by
        cases kind <;> simp only [inferReturnIn, Option.orElse_eq_orElse, Option.orElse_eq_or] }
  exact scan.list_eq ns

theorem typeOfReturn_eq (ns : List Node) (v : Lookups) :
    typeOfReturn ns v = (firstReturn ns).map fun e => typeOf e v := by
  have scan : Scan (typeOf · v) (typeOfReturnIn · v) (typeOfReturn · v) (typeOfReturnMaybe · v)
      (typeOfReturnBranches · v) :=
    { nil := rfl
      cons := fun _ _ => rfl
      absent := rfl
      present := fun _ => rfl
      empty := rfl
      branch := fun _ _ _ => rfl
      step := fun kind _ => by cases kind <;> rfl }
  exact scan.list_eq ns

def Kind.returned : Kind → Option Node
  | .function _ _ body => firstReturn body
  | _ => none

theorem Node.returned_part {n e : Node} (found : n.kind.returned = some e) :
    ∃ p ∈ n.kind.parts, e.Within p := by
  obtain ⟨kind, loc⟩ := n
  cases kind with
  | function params result body =>
    obtain ⟨p, there, inside⟩ := firstReturn_mem found
    exact ⟨p, List.mem_append_right _ there, firstReturnIn_within inside⟩
  | _ => cases found

/-- Induction with the parts of a node at hand and, at a function literal, with the value that it
returns first, however deep that stands. -/
@[elab_as_elim]
theorem Node.valueInduction {motive : Node → Prop}
    (step : ∀ n, (∀ m ∈ n.kind.parts, motive m) → (∀ e, n.kind.returned = some e → motive e) →
      motive n) (n : Node) : motive n := by
  induction n using Node.deepInduction with
  | step n ih =>
    refine step n (fun m direct => ih m direct m .self) fun e found => ?_
    obtain ⟨p, direct, inside⟩ := n.returned_part found
    exact ih p direct e inside

end ScriptCheck
