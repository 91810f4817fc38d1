import ScriptCheck.Proofs.Footprint

/-! Which `return` counts. A function that does not say what it returns is scanned for its `return`
statements from left to right, and the first one decides. All else in its body can be replaced, as
long as no other `return` comes first in this order. -/
namespace ScriptCheck

def Branch.body : Branch → Node
  | .mk _ body => body

namespace Kind

/-- The parts that are scanned for a `return`, in order. Conditions, bounds, tests and values are
not, and a function literal has no such part: its returns are its own. -/
def scanned : Kind → List Node
  | .block body | .loop body => body
  | .forLoop _ _ _ _ body | .eachLoop _ _ body => [body]
  | .ifElse _ yes elseifs no => yes :: (elseifs.map Branch.body ++ no.toList)
  | .select _ arms default => arms.map Branch.body ++ default.toList
  | _ => []

theorem scanned_parts {kind : Kind} {m : Node} (there : m ∈ kind.scanned) : m ∈ kind.parts := by
  have bodies {bs : List Branch} (listed : m ∈ bs.map Branch.body) :
      m ∈ bs.flatMap Branch.nodes := by
    obtain ⟨⟨test, body⟩, branch, rfl⟩ := List.mem_map.mp listed
    exact List.mem_flatMap.mpr ⟨_, branch, by simp [Branch.nodes, Branch.body]⟩
  cases kind <;> simp only [scanned, parts] at there ⊢ <;> grind

end Kind

structure Return where
  value : Node
  loc : Option Span

/-- All `return` statements that the scan of a node comes to, in its order. -/
def Node.returns : Node → List Return
  | .mk (.ret value) loc => [⟨value, loc⟩]
  | .mk kind _ => kind.scanned.attach.flatMap fun m => m.1.returns
termination_by n => sizeOf n
decreasing_by
  have inside := Kind.size_part (Kind.scanned_parts m.2)
  simp only [Node.mk.sizeOf_spec]
  omega

theorem Node.returns_ret (value : Node) (loc : Option Span) :
    (Node.mk (.ret value) loc).returns = [⟨value, loc⟩] := by rw [returns]

theorem Node.returns_of_not_ret {kind : Kind} (other : ∀ value, kind ≠ .ret value)
    (loc : Option Span) : (Node.mk kind loc).returns = kind.scanned.flatMap Node.returns := by
  rw [returns]
  · rw [List.flatMap_subtype fun _ _ => rfl, List.unattach_attach]
  · exact other

def firstValue (rs : List Return) : Option Node := rs.head?.map Return.value

theorem firstValue_append (first second : List Return) :
    firstValue (first ++ second) = (firstValue first).or (firstValue second) := by
  simp only [firstValue, List.head?_append, Option.map_or]

theorem firstValue_scan :
    Scan id (fun n => firstValue n.returns) (fun ns => firstValue (ns.flatMap Node.returns))
      (fun o => firstValue (o.toList.flatMap Node.returns))
      (fun bs => firstValue ((bs.map Branch.body).flatMap Node.returns)) where
  nil := rfl
  cons n rest := firstValue_append n.returns _
  absent := rfl
  present n := by rw [Option.toList_some, List.flatMap_singleton]
  empty := rfl
  branch _ body rest := firstValue_append body.returns _
  step kind loc := by
    cases kind with
    | ret value => rw [Node.returns_ret]; rfl
    | forLoop var low high times body =>
      rw [Node.returns_of_not_ret (by simp), Kind.scanned, List.flatMap_singleton]
    | eachLoop var items body =>
      rw [Node.returns_of_not_ret (by simp), Kind.scanned, List.flatMap_singleton]
    | ifElse cond yes elseifs no =>
      rw [Node.returns_of_not_ret (by simp), Kind.scanned, List.flatMap_cons, List.flatMap_append,
        firstValue_append, firstValue_append]
    | select about arms default =>
      rw [Node.returns_of_not_ret (by simp), Kind.scanned, List.flatMap_append, firstValue_append]
    | _ => rw [Node.returns_of_not_ret (by simp)]; rfl

theorem firstReturn_eq_head (ns : List Node) :
    firstReturn ns = (ns.flatMap Node.returns).head?.map Return.value := by
  have same := firstValue_scan.list_eq ns
  rw [Option.map_id] at same
  exact same.symm

/-- The second list is the first one with some nodes replaced, none of which matters for the first
`return`. The lists hold the nodes that are still to be scanned; the scan of a node goes on with its
scanned parts and then with the nodes behind it. -/
inductive Replaced : List Node → List Node → Prop where
  | nil : Replaced [] []
  | found (value : Node) (loc loc' : Option Span) (rest rest' : List Node) :
    Replaced (.mk (.ret value) loc :: rest) (.mk (.ret value) loc' :: rest')
  | scan {kind kind' : Kind} (loc loc' : Option Span) {rest rest' : List Node}
      (other : ∀ value, kind ≠ .ret value) (other' : ∀ value, kind' ≠ .ret value)
      (parts : Replaced (kind.scanned ++ rest) (kind'.scanned ++ rest')) :
    Replaced (.mk kind loc :: rest) (.mk kind' loc' :: rest')
  | drop {n : Node} {rest ns : List Node} (silent : n.returns = []) (later : Replaced rest ns) :
    Replaced (n :: rest) ns
  | add {n : Node} {rest ns : List Node} (silent : n.returns = []) (later : Replaced ns rest) :
    Replaced ns (n :: rest)

theorem Replaced.firstReturn {ns ns' : List Node} (replaced : Replaced ns ns') :
    firstReturn ns = firstReturn ns' := by
  rw [firstReturn_eq_head, firstReturn_eq_head]
  induction replaced with
  | nil => rfl
  | found value loc loc' rest rest' =>
    simp only [List.flatMap_cons, Node.returns_ret, List.singleton_append, List.head?_cons,
      Option.map_some]
  | scan loc loc' other other' _ ih =>
    rw [List.flatMap_append, List.flatMap_append] at ih
    rw [List.flatMap_cons, List.flatMap_cons, Node.returns_of_not_ret other,
      Node.returns_of_not_ret other', ih]
  | drop silent _ ih => rw [List.flatMap_cons, silent, List.nil_append, ih]
  | add silent _ ih => rw [List.flatMap_cons, silent, List.nil_append, ih]

theorem infer_function_congr {body body' : List Node} (same : firstReturn body = firstReturn body')
    (params : List Param) (loc loc' : Option Span) (s : ScopeId) (t : ScopeTree) :
    infer (.mk (.function params none body) loc) s t =
      infer (.mk (.function params none body') loc') s t := by
  simp only [infer, inferReturn_eq, same]

/-- The scan of some statements finds the value of the first of all their `return` statements, from
left to right, and nothing if there is none; what is inferred is the type of that value. So the type
of a function that does not say what it returns stays the same when whatever comes behind that
`return`, or is not scanned, is replaced without putting another `return` before it. -/
theorem inferReturn_first (ns : List Node) :
    firstReturn ns = (ns.flatMap Node.returns).head?.map Return.value ∧
    (∀ s t, inferReturn ns s t = (ns.flatMap Node.returns).head?.map fun r => infer r.value s t) ∧
    ∀ ns', Replaced ns ns' → ∀ params loc loc' s t,
      infer (.mk (.function params none ns) loc) s t =
        infer (.mk (.function params none ns') loc') s t := by
  refine ⟨firstReturn_eq_head ns, fun s t => ?_, fun ns' replaced params loc loc' s t => ?_⟩
  · rw [inferReturn_eq, firstReturn_eq_head, Option.map_map]
    rfl
  · exact infer_function_congr replaced.firstReturn params loc loc' s t

/-- The first `return` stands in a loop in the second branch of a conditional. A literal before it,
with a `return` of its own, becomes a call, the condition and the test change, and all that comes
behind it goes, with three other returns. -/
theorem inferReturn_first_branch :
    let text : Node := .mk (.str "t") none
    let name (x : String) : Node := .mk (.ident x) none
    let back (value : Node) : Node := .mk (.ret value) none
    let literal : Node := .mk (.function [] none [back (name "x")]) none
    let empty : Node := .mk (.block []) none
    let body : List Node := [.mk (.define "f" none literal false) none,
      .mk (.ifElse (name "x") empty [.mk (name "y") (.mk (.loop [back text, back (name "x")]) none)]
        (some (back (name "y")))) none, back literal]
    let body' : List Node := [.mk (.call literal [name "x"]) none,
      .mk (.ifElse literal empty [.mk text (.mk (.loop [back text, literal]) none)] none) none]
    (body.flatMap Node.returns).length = 4 ∧ Replaced body body' ∧
    ∀ params s t, infer (.mk (.function params none body) none) s t =
        infer (.mk (.function params none body') none) s t ∧
      (infer (.mk (.function [] none body') none) s t).1 = .signature [] .str := by
  intro text name back literal empty body body'
  have count : (body.flatMap Node.returns).length = 4 := by
    simp [body, back, empty, Node.returns_ret, Node.returns_of_not_ret, Kind.scanned, Branch.body]
  have replaced : Replaced body body' :=
    .scan none none (by simp) (by simp) (.scan none none (by simp) (by simp)
      (.scan none none (by simp) (by simp) (.scan none none (by simp) (by simp)
        (.found text none none _ _))))
  refine ⟨count, replaced, fun params s t => ⟨?_, rfl⟩⟩
  exact (inferReturn_first body).2.2 body' replaced params none none s t

end ScriptCheck
