import Mathlib.Tactic.Common
import ScriptCheck.Tree.Node

/-! Induction over syntax trees. A node is reached after all nodes that stand directly in it, and
the rules of the checker are met as twelve cases: eleven kinds with a rule of their own, and all
the kinds that do no more than pass on to some of their parts. -/
namespace ScriptCheck

namespace Branch

def nodes : Branch → List Node
  | .mk test body => [test, body]

end Branch

namespace Part

def nodes : Part → List Node
  | .text _ => []
  | .expr e => [e]

end Part

def Entry.value : Entry → Node
  | .mk _ value => value

def Param.declared : Param → Option Node
  | .mk _ declared => declared

namespace Kind

def parts : Kind → List Node
  | .define _ declared value _ => declared.toList ++ [value]
  | .assign dest value | .adjust _ dest value => [dest, value]
  | .ret value => [value]
  | .forLoop _ low high times body => low.toList ++ high.toList ++ times.toList ++ [body]
  | .eachLoop _ items body => [items, body]
  | .loop body | .block body => body
  | .ns _ members => members
  | .ifElse cond yes elseifs no => cond :: yes :: (elseifs.flatMap Branch.nodes ++ no.toList)
  | .function params result body =>
    params.flatMap (fun p => p.declared.toList) ++ result.toList ++ body
  | .select about arms default => about :: (arms.flatMap Branch.nodes ++ default.toList)
  | .call target args => target :: args
  | .not operand => [operand]
  | .logic _ left right => [left, right]
  | .template parts => parts.flatMap Part.nodes
  | .index target key => [target, key]
  | .prop target _ => [target]
  | .arr items => items
  | .obj entries => entries.map Entry.value
  | .namedType _ inner => inner.toList
  | .fnType params result => params ++ [result]
  | .brk | .cont | .str _ | .num _ | .bool _ | .null | .ident _ | .other => []

/-- The parts to pass on to, in order, if passing on is all that there is to do. -/
def inline : Kind → Option (List Node)
  | .ret value => some [value]
  | .select about arms default => some (about :: (arms.flatMap Branch.nodes ++ default.toList))
  | .not operand => some [operand]
  | .logic _ left right => some [left, right]
  | .template parts => some (parts.flatMap Part.nodes)
  | .index target key => some [target, key]
  | .prop target _ => some [target]
  | .arr items => some items
  | .obj entries => some (entries.map Entry.value)
  | .brk | .cont | .str _ | .num _ | .bool _ | .null | .ident _ | .namedType .. | .fnType ..
  | .other => some []
  | _ => none

theorem inline_parts {kind : Kind} {ms : List Node} (passes : kind.inline = some ms) :
    ∀ m ∈ ms, m ∈ kind.parts := by
  cases kind <;> simp only [inline, Option.some.injEq, reduceCtorEq] at passes <;>
    subst passes <;> simp [parts]

end Kind

theorem Node.size_maybe {o : Option Node} {m : Node} (h : o = some m) : sizeOf m < sizeOf o := by
  subst h
  simp only [Option.some.sizeOf_spec]
  omega

theorem Branch.size_nodes {bs : List Branch} {m : Node} (h : m ∈ bs.flatMap Branch.nodes) :
    sizeOf m < sizeOf bs := by
  obtain ⟨⟨test, body⟩, hb, hm⟩ := List.mem_flatMap.mp h
  have whole := List.sizeOf_lt_of_mem hb
  simp only [nodes, List.mem_cons, List.not_mem_nil, or_false] at hm
  rcases hm with rfl | rfl <;> simp only [Branch.mk.sizeOf_spec] at whole <;> omega

theorem Param.size_declared {ps : List Param} {m : Node}
    (h : m ∈ ps.flatMap fun p => p.declared.toList) : sizeOf m < sizeOf ps := by
  obtain ⟨⟨name, declared⟩, hp, hm⟩ := List.mem_flatMap.mp h
  have whole := List.sizeOf_lt_of_mem hp
  have inside := Node.size_maybe (Option.mem_toList.mp hm)
  simp only [Param.mk.sizeOf_spec, Param.declared] at whole inside
  omega

theorem Part.size_nodes {ps : List Part} {m : Node} (h : m ∈ ps.flatMap Part.nodes) :
    sizeOf m < sizeOf ps := by
  obtain ⟨p, hp, hm⟩ := List.mem_flatMap.mp h
  have whole := List.sizeOf_lt_of_mem hp
  cases p with
  | text s => simp [nodes] at hm
  | expr e =>
    simp only [nodes, List.mem_singleton] at hm
    subst hm
    simp only [Part.expr.sizeOf_spec] at whole
    omega

theorem Entry.size_value {es : List Entry} {m : Node} (h : m ∈ es.map Entry.value) :
    sizeOf m < sizeOf es := by
  obtain ⟨⟨key, value⟩, he, rfl⟩ := List.mem_map.mp h
  have whole := List.sizeOf_lt_of_mem he
  simp only [Entry.mk.sizeOf_spec, Entry.value] at whole ⊢
  omega

theorem Kind.size_part {kind : Kind} {m : Node} (h : m ∈ kind.parts) :
    sizeOf m < sizeOf kind := by
  have inList {ms : List Node} (h : m ∈ ms) : sizeOf m < sizeOf ms := List.sizeOf_lt_of_mem h
  cases kind <;> simp [parts, -List.mem_flatMap, -List.mem_map] at h ⊢ <;>
    grind [→ Branch.size_nodes, → Param.size_declared, → Part.size_nodes, → Entry.size_value]

theorem Node.induction {motive : Node → Prop}
    (step : ∀ n, (∀ m ∈ n.kind.parts, motive m) → motive n) (n : Node) : motive n :=
  step n fun m h =>
    have smaller : sizeOf m < sizeOf n := by
      cases n with
      | mk kind loc =>
        have inside : sizeOf m < sizeOf kind := Kind.size_part h
        simp only [Node.mk.sizeOf_spec]
        omega
    Node.induction step m
termination_by sizeOf n

/-- Induction by the rules of the checker, with what the rule visits at hand. -/
@[elab_as_elim]
theorem Node.ruleInduction {motive : Node → Prop}
    (define : ∀ name declared value mutable loc, motive value →
      motive (.mk (.define name declared value mutable) loc))
    (assign : ∀ dest value loc, motive value → motive (.mk (.assign dest value) loc))
    (adjust : ∀ how dest value loc, motive value → motive (.mk (.adjust how dest value) loc))
    (call : ∀ target args loc, motive target → (∀ m ∈ args, motive m) →
      motive (.mk (.call target args) loc))
    (forLoop : ∀ var low high times body loc,
      (∀ m ∈ low.toList ++ high.toList ++ times.toList, motive m) → motive body →
      motive (.mk (.forLoop var low high times body) loc))
    (eachLoop : ∀ var items body loc, motive items → motive body →
      motive (.mk (.eachLoop var items body) loc))
    (loop : ∀ body loc, (∀ m ∈ body, motive m) → motive (.mk (.loop body) loc))
    (block : ∀ body loc, (∀ m ∈ body, motive m) → motive (.mk (.block body) loc))
    (ifElse : ∀ cond yes elseifs no loc,
      (∀ m ∈ cond :: yes :: (elseifs.flatMap Branch.nodes ++ no.toList), motive m) →
      motive (.mk (.ifElse cond yes elseifs no) loc))
    (ns : ∀ name members loc, (∀ m ∈ members, motive m) → motive (.mk (.ns name members) loc))
    (function : ∀ params result body loc, (∀ m ∈ body, motive m) →
      motive (.mk (.function params result body) loc))
    (inline : ∀ kind loc ms, kind.inline = some ms → (∀ m ∈ ms, motive m) →
      motive (.mk kind loc)) (n : Node) : motive n := by
  induction n using Node.induction with
  | step n ih =>
    obtain ⟨kind, loc⟩ := n
    change ∀ m ∈ kind.parts, motive m at ih
    cases kind with
    | define => exact define _ _ _ _ _ (ih _ (by simp [Kind.parts]))
    | assign => exact assign _ _ _ (ih _ (by simp [Kind.parts]))
    | adjust => exact adjust _ _ _ _ (ih _ (by simp [Kind.parts]))
    | call =>
      exact call _ _ _ (ih _ (by simp [Kind.parts])) fun m h => ih m (List.mem_cons_of_mem _ h)
    | forLoop =>
      exact forLoop _ _ _ _ _ _ (fun m h => ih m (List.mem_append_left _ h))
        (ih _ (by simp [Kind.parts]))
    | eachLoop =>
      exact eachLoop _ _ _ _ (ih _ (by simp [Kind.parts])) (ih _ (by simp [Kind.parts]))
    | loop => exact loop _ _ ih
    | block => exact block _ _ ih
    | ifElse => exact ifElse _ _ _ _ _ ih
    | ns => exact ns _ _ _ ih
    | function => exact function _ _ _ _ fun m h => ih m (List.mem_append_right _ h)
    | _ => exact inline _ _ _ rfl fun m h => ih m (Kind.inline_parts rfl m h)

/-- `m` is `n` itself or stands somewhere in it. -/
inductive Node.Within (m : Node) : Node → Prop where
  | self : Within m m
  | part {p n : Node} (direct : p ∈ n.kind.parts) (inside : Within m p) : Within m n

theorem Node.Within.trans {k m n : Node} (inner : k.Within m) (outer : m.Within n) :
    k.Within n := by
  induction outer with
  | self => exact inner
  | part direct _ ih => exact .part direct ih

theorem Node.within_iff {m : Node} {kind : Kind} {loc : Option Span} :
    m.Within (.mk kind loc) ↔ m = .mk kind loc ∨ ∃ p ∈ kind.parts, m.Within p := by
  constructor
  · intro inside
    cases inside with
    | self => exact .inl rfl
    | part direct inside => exact .inr ⟨_, direct, inside⟩
  · rintro (rfl | ⟨p, direct, inside⟩)
    · exact .self
    · exact .part direct inside

@[elab_as_elim]
theorem Node.deepInduction {motive : Node → Prop}
    (step : ∀ n, (∀ p ∈ n.kind.parts, ∀ m, m.Within p → motive m) → motive n) (n : Node) :
    motive n := by
  have inside : ∀ n m : Node, m.Within n → motive m := by
    intro n
    induction n using Node.induction with
    | step n ih =>
      intro m within
      cases within with
      | self => exact step n ih
      | part direct deeper => exact ih _ direct m deeper
  exact inside n n .self

end ScriptCheck
