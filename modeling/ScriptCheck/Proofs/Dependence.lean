import ScriptCheck.Proofs.Isolation
import ScriptCheck.Proofs.Refinement

/-! What a statement depends on and what it does. The type of a node depends on the variables and
the type aliases that it mentions, and on nothing else around it. So checking a statement is a list
of bindings and a list of diagnostics that are the same wherever those variables are; statements
that bind nothing of what the other binds or mentions can change places. -/
namespace ScriptCheck

structure Lookups.Agree (names : String → Prop) (v w : Lookups) : Prop where
  var : ∀ x, names x → v.var x = w.var x
  type : v.type = w.type

namespace Lookups.Agree

variable {names fewer : String → Prop} {u v w : Lookups}

theorem refl (names : String → Prop) (v : Lookups) : Agree names v v := ⟨fun _ _ => rfl, rfl⟩

theorem trans (first : Agree names u v) (second : Agree names v w) : Agree names u w :=
  ⟨fun x named => (first.var x named).trans (second.var x named), first.type.trans second.type⟩

theorem only (agree : Agree names v w) (less : ∀ x, fewer x → names x) : Agree fewer v w :=
  ⟨fun x named => agree.var x (less x named), agree.type⟩

theorem extend (agree : Agree names v w) (b : Bindings) :
    Agree names (v.extend b) (w.extend b) :=
  ⟨fun x named => by simp only [Lookups.extend, agree.var x named], agree.type⟩

end Lookups.Agree

def Node.Mentions (names : String → Prop) (n : Node) : Prop :=
  ∀ x loc, Node.Within (.mk (.ident x) loc) n → names x

structure Lookups.AgreeOn (v w : Lookups) (n : Node) : Prop where
  var : ∀ x loc, Node.Within (.mk (.ident x) loc) n → v.var x = w.var x
  type : ∀ x inner loc, Node.Within (.mk (.namedType x inner) loc) n → v.type x = w.type x

namespace Lookups.AgreeOn

variable {v w : Lookups} {n m : Node}

theorem within (agree : v.AgreeOn w n) (inside : m.Within n) : v.AgreeOn w m where
  var x loc deeper := agree.var x loc (deeper.trans inside)
  type x inner loc deeper := agree.type x inner loc (deeper.trans inside)

theorem extend (agree : v.AgreeOn w n) (b : Bindings) : (v.extend b).AgreeOn (w.extend b) n where
  var x loc inside := by simp only [Lookups.extend, agree.var x loc inside]
  type := agree.type

end Lookups.AgreeOn

section Types

variable {v w : Lookups}

theorem typeOfAll_congr {ns : List Node} (each : ∀ n ∈ ns, typeOf n v = typeOf n w) :
    typeOfAll ns v = typeOfAll ns w := by
  induction ns with
  | nil => rfl
  | cons n rest ih =>
    obtain ⟨head, tail⟩ := List.forall_mem_cons.mp each
    rw [typeOfAll, typeOfAll, head, ih tail]

theorem typeOfParams_congr {params : List Param}
    (each : ∀ n ∈ params.flatMap fun p => p.declared.toList, typeOf n v = typeOf n w) :
    typeOfParams params v = typeOfParams params w := by
  induction params with
  | nil => rfl
  | cons p rest ih =>
    obtain ⟨name, declared⟩ := p
    simp only [List.flatMap_cons, List.forall_mem_append, Param.declared] at each
    have first : typeOfMaybe declared v = typeOfMaybe declared w := by
      cases declared with
      | none => rfl
      | some d => exact each.1 d (by simp)
    rw [typeOfParams, typeOfParams, first, ih each.2]

theorem resultType_congr {params : List Param} {result : Option Node} {body : List Node}
    (annotations : ∀ n ∈ params.flatMap fun p => p.declared.toList, typeOf n v = typeOf n w)
    (declared : ∀ d ∈ result, typeOf d v = typeOf d w)
    (value : ∀ e, firstReturn body = some e →
      ∀ b, typeOf e (v.extend b) = typeOf e (w.extend b)) :
    resultType params result body v = resultType params result body w := by
  cases result with
  | some d => exact declared d rfl
  | none =>
    simp only [resultType, typeOfReturn_eq, typeOfParams_congr annotations]
    cases found : firstReturn body with
    | none => rfl
    | some e => exact value e found _

/-- The type of a node depends on the names that are mentioned in it and on nothing else. -/
theorem typeOf_congr {n : Node} (agree : v.AgreeOn w n) : typeOf n v = typeOf n w := by
  induction n using Node.valueInduction generalizing v w with
  | step n ih valued =>
    have each : ∀ m ∈ n.kind.parts, typeOf m v = typeOf m w := fun m direct =>
      ih m direct (agree.within (.part direct .self))
    have value (e : Node) (found : n.kind.returned = some e) (b : Bindings) :
        typeOf e (v.extend b) = typeOf e (w.extend b) := by
      obtain ⟨p, direct, inside⟩ := n.returned_part found
      exact valued e found ((agree.within (.part direct inside)).extend b)
    obtain ⟨kind, loc⟩ := n
    change ∀ m ∈ kind.parts, typeOf m v = typeOf m w at each
    cases kind with
    | ident name => simp only [typeOf, agree.var name loc .self]
    | namedType name inner => simp only [typeOf, agree.type name inner loc .self]
    | fnType params result =>
      simp only [Kind.parts, List.forall_mem_append, List.forall_mem_singleton] at each
      simp only [typeOf, typeOfAll_congr each.1, each.2]
    | function params result body =>
      simp only [Kind.parts, List.forall_mem_append] at each
      obtain ⟨⟨annotations, declared⟩, -⟩ := each
      rw [typeOf_function, typeOf_function, typeOfParams_congr annotations,
        resultType_congr annotations
          (fun d there => declared d (Option.mem_toList.mpr there)) value]
    | call target args => simp only [typeOf, each target (by simp [Kind.parts])]
    | _ => rfl

variable {names : String → Prop}

theorem Node.Mentions.part {n m : Node} (mentions : n.Mentions names)
    (direct : m ∈ n.kind.parts) : m.Mentions names :=
  fun x loc deeper => mentions x loc (.part direct deeper)

def Settled (names : String → Prop) (n : Node) : Prop :=
  ∀ v w, Lookups.Agree names v w → typeOf n v = typeOf n w

theorem settled {n : Node} (mentions : n.Mentions names) : Settled names n := fun _ _ agree =>
  typeOf_congr ⟨fun x loc inside => agree.var x (mentions x loc inside),
    fun _ _ _ _ => by rw [agree.type]⟩

end Types

namespace Bindings

def update (b more : Bindings) : Bindings := more.foldl (fun b e => b.set e.1 e.2) b

theorem update_append (b first second : Bindings) :
    b.update (first ++ second) = (b.update first).update second := List.foldl_append ..

theorem names_update (b more : Bindings) :
    (b.update more).names = addNames b.names more.names := by
  induction more generalizing b with
  | nil => exact (addNames_nil _).symm
  | cons e rest ih =>
    rw [update, List.foldl_cons, ← update, ih, names_set, addNames_append]
    rfl

theorem get?_update (b more : Bindings) (x : String) :
    (b.update more).get? x = ((update [] more).get? x).or (b.get? x) := by
  induction more generalizing b with
  | nil => rfl
  | cons e rest ih =>
    simp only [update, List.foldl_cons] at ih ⊢
    rw [ih, ih (set e.1 e.2 []), get?_set, get?_set]
    by_cases same : x = e.1
    · simp [same]
    · simp [same, get?]

theorem get?_update_of_not_mem {more : Bindings} {x : String} (absent : x ∉ more.names)
    (b : Bindings) : (b.update more).get? x = b.get? x := by
  have none : (update [] more).get? x = Option.none := by
    rw [get?_eq_none_iff, names_update, names, List.map_nil, addNames_to_nil, List.mem_eraseDups]
    exact absent
  rw [get?_update, none, Option.none_or]

theorem update_comm {first second : Bindings}
    (apart : ∀ x ∈ first.names, x ∉ second.names) (b : Bindings) (x : String) :
    ((b.update first).update second).get? x = ((b.update second).update first).get? x := by
  by_cases here : x ∈ first.names
  · rw [get?_update_of_not_mem (apart x here), get?_update b first,
      get?_update (b.update second) first, get?_update_of_not_mem (apart x here)]
  · rw [get?_update (b.update first) second, get?_update_of_not_mem here,
      get?_update_of_not_mem here, get?_update b second]

end Bindings

theorem exported_eq_update (ns : String) (inner b : Bindings) :
    exported ns inner b = b.update (inner.map fun e => (qualify ns e.1, e.2)) := by
  rw [Bindings.update, List.foldl_map]
  rfl

/-- Two regions with names `b` and `b'` have both bound `bound`, to the same types in the same
order, and the same was found in both. -/
structure Outcome.Alike (bound : List String) (b b' : Bindings) (o o' : Outcome) : Prop where
  updates : ∃ more : Bindings, more.names = bound ∧ o.locals = b.update more ∧
    o'.locals = b'.update more
  found : o'.found = o.found

namespace Outcome.Alike

variable {bound more : List String} {b b' : Bindings} {o o' : Outcome}

theorem still (b b' : Bindings) (ds : List Diagnostic) : Alike [] b b' ⟨b, ds⟩ ⟨b', ds⟩ :=
  ⟨⟨[], rfl, rfl, rfl⟩, rfl⟩

theorem bind (b b' : Bindings) (name : String) (u : Ty) (ds : List Diagnostic) :
    Alike [name] b b' ⟨b.set name u, ds⟩ ⟨b'.set name u, ds⟩ :=
  ⟨⟨[(name, u)], rfl, rfl, rfl⟩, rfl⟩

theorem andThen (first : Alike bound b b' o o') {next next' : Bindings → Outcome}
    (second : Alike more o.locals o'.locals (next o.locals) (next' o'.locals)) :
    Alike (bound ++ more) b b' (o.andThen next) (o'.andThen next') := by
  obtain ⟨ups, rfl, here, there⟩ := first.updates
  obtain ⟨later, rfl, here', there'⟩ := second.updates
  refine ⟨⟨ups ++ later, List.map_append, ?_, ?_⟩, ?_⟩
  · rw [Bindings.update_append, ← here]
    exact here'
  · rw [Bindings.update_append, ← there]
    exact there'
  · simp only [Outcome.andThen, first.found, second.found]

theorem also (first : Alike bound b b' o o') (ds : List Diagnostic) :
    Alike bound b b' (o.also ds) (o'.also ds) :=
  ⟨first.updates, by simp only [Outcome.also, first.found]⟩

theorem leave {c c' : Bindings} (inner : Alike bound c c' o o') (b b' : Bindings) :
    Alike [] b b' (o.leave b) (o'.leave b') := ⟨⟨[], rfl, rfl, rfl⟩, inner.found⟩

theorem agree (first : Alike bound b b' o o') {names : String → Prop} {v v' : Lookups}
    (agree : Lookups.Agree names (v.extend b) (v'.extend b')) :
    Lookups.Agree names (v.extend o.locals) (v'.extend o'.locals) := by
  obtain ⟨ups, _, here, there⟩ := first.updates
  refine ⟨fun x named => ?_, agree.type⟩
  have before := agree.var x named
  simp only [Lookups.extend] at before ⊢
  rw [here, there, Bindings.get?_update b, Bindings.get?_update b', Option.or_assoc,
    Option.or_assoc, before]

end Outcome.Alike

section Effects

variable {names : String → Prop}

def Determined (names : String → Prop) (n : Node) : Prop :=
  ∀ (v v' : Lookups) (parent : Option Node) (b b' : Bindings),
    (∀ f ∈ parent, f.Mentions names) → Lookups.Agree names (v.extend b) (v'.extend b') →
    Outcome.Alike (declared n) b b' (walk n v parent b) (walk n v' parent b')

theorem returnProblems_settled {n : Node} (mentions : n.Mentions names) {parent : Option Node}
    (around : ∀ f ∈ parent, f.Mentions names) {v w : Lookups}
    (agree : Lookups.Agree names v w) :
    returnProblems n v parent = returnProblems n w parent := by
  obtain ⟨kind, loc⟩ := n
  cases parent with
  | none => rfl
  | some f =>
    obtain ⟨outer, place⟩ := f
    cases outer with
    | function params result body =>
      cases kind with
      | ret value =>
        have type := settled (around _ rfl) v w agree
        have actual := settled (mentions.part (m := value) (by simp [Node.kind, Kind.parts])) v w
          agree
        simp only [returnProblems, Node.kind, type, actual]
      | _ => rfl
    | _ => rfl

section

variable {ns : List Node} (each : ∀ n ∈ ns, Determined names n) {v v' : Lookups}
  {parent : Option Node} {b b' : Bindings} (around : ∀ f ∈ parent, f.Mentions names)
  (agree : Lookups.Agree names (v.extend b) (v'.extend b'))
include each around agree

theorem walkEach_alike :
    Outcome.Alike (declaredAll ns) b b' (walkEach ns v parent b) (walkEach ns v' parent b') := by
  induction ns generalizing b b' with
  | nil => exact .still b b' []
  | cons n rest ih =>
    obtain ⟨head, tail⟩ := List.forall_mem_cons.mp each
    have first := head v v' parent b b' around agree
    exact first.andThen (ih tail (first.agree agree))

theorem walkIsolated_alike :
    Outcome.Alike [] b b' (walkIsolated ns v parent b) (walkIsolated ns v' parent b') := by
  induction ns with
  | nil => exact .still b b' []
  | cons n rest ih =>
    obtain ⟨head, tail⟩ := List.forall_mem_cons.mp each
    have first := (head _ _ parent [] [] around (agree.extend [])).leave b b'
    exact first.andThen (ih tail)

theorem walkBlock_alike (mentions : ∀ n ∈ ns, n.Mentions names) :
    Outcome.Alike (declaredAll ns) b b' (walkBlock ns v parent b) (walkBlock ns v' parent b') := by
  induction ns generalizing b b' with
  | nil => exact .still b b' []
  | cons n rest ih =>
    obtain ⟨head, tail⟩ := List.forall_mem_cons.mp each
    obtain ⟨here, later⟩ := List.forall_mem_cons.mp mentions
    have first := head v v' parent b b' around agree
    have seen := first.agree agree
    have returned := returnProblems_settled here around seen
    refine first.andThen ?_
    rw [returned]
    exact (Outcome.Alike.still _ _ _).andThen (ih tail seen later)

end

theorem determined {n : Node} (mentions : n.Mentions names) : Determined names n := by
  induction n using Node.ruleInduction with
  | define name annotation value mutable loc ih =>
    intro v v' parent b b' around agree
    have written : value.Mentions names := mentions.part (by simp [Node.kind, Kind.parts])
    have checked := ih written v v' parent b b' around agree
    simp only [walk, settled written _ _ agree]
    refine checked.andThen ?_
    cases annotation with
    | none => exact .bind _ _ name _ []
    | some d =>
      have annotated : d.Mentions names := mentions.part (by simp [Node.kind, Kind.parts])
      simp only [settled annotated _ _ (checked.agree agree)]
      exact .bind _ _ name _ _
  | assign dest value loc ih =>
    intro v v' parent b b' around agree
    have target : dest.Mentions names := mentions.part (by simp [Node.kind, Kind.parts])
    have written : value.Mentions names := mentions.part (by simp [Node.kind, Kind.parts])
    simp only [walk, settled target _ _ agree, settled written _ _ agree]
    exact (ih written v v' parent b b' around agree).also _
  | adjust how dest value loc ih =>
    intro v v' parent b b' around agree
    have target : dest.Mentions names := mentions.part (by simp [Node.kind, Kind.parts])
    have written : value.Mentions names := mentions.part (by simp [Node.kind, Kind.parts])
    simp only [walk, settled target _ _ agree, settled written _ _ agree]
    exact (ih written v v' parent b b' around agree).also _
  | call target args loc ih each =>
    intro v v' parent b b' around agree
    have called : target.Mentions names := mentions.part (by simp [Node.kind, Kind.parts])
    have given : ∀ m ∈ args, m.Mentions names := fun m there =>
      mentions.part (List.mem_cons_of_mem _ there)
    simp only [walk, settled called _ _ agree]
    have told := (ih called v v' parent b b' around agree).also
      (calleeProblems (typeOf target (v'.extend b')) args.length target.span (loc.getD Span.none))
    refine told.andThen ?_
    have seen := told.agree agree
    rw [typeOfAll_congr fun m there => settled (given m there) _ _ seen]
    exact (walkEach_alike (fun m there => each m there (given m there)) around seen).also _
  | forLoop var low high times body loc each ih =>
    intro v v' parent b b' around agree
    rw [walk_forLoop, walk_forLoop]
    have bounds := walkEach_alike
      (fun m there => each m there (mentions.part (List.mem_append_left _ there))) around agree
    have inner := ih (mentions.part (by simp [Node.kind, Kind.parts])) _ _ parent (counter var)
      (counter var) around ((bounds.agree agree).extend _)
    rw [declared_forLoop, ← List.append_nil (declaredAll _)]
    exact bounds.andThen (inner.leave _ _)
  | eachLoop var items body loc first ih =>
    intro v v' parent b b' around agree
    have before := first (mentions.part (by simp [Node.kind, Kind.parts])) v v' parent b b' around
      agree
    have inner := ih (mentions.part (by simp [Node.kind, Kind.parts])) _ _ parent [(var, .any)]
      [(var, .any)] around ((before.agree agree).extend _)
    have whole := before.andThen (inner.leave _ _)
    rwa [List.append_nil] at whole
  | loop body loc each =>
    intro v v' parent b b' around agree
    have statements : ∀ m ∈ body, m.Mentions names := fun m there => mentions.part there
    have itself : ∀ f ∈ some (Node.mk (.loop body) loc), f.Mentions names := by
      simpa using mentions
    exact (walkBlock_alike (fun m there => each m there (statements m there)) itself
      (agree.extend []) statements).leave b b'
  | block body loc each =>
    intro v v' parent b b' around agree
    have statements : ∀ m ∈ body, m.Mentions names := fun m there => mentions.part there
    exact (walkBlock_alike (fun m there => each m there (statements m there)) around
      (agree.extend []) statements).leave b b'
  | ifElse cond yes elseifs no loc each =>
    intro v v' parent b b' around agree
    rw [walk_ifElse, walk_ifElse]
    exact walkIsolated_alike (fun m there => each m there (mentions.part there)) around agree
  | ns name members loc each =>
    intro v v' parent b b' around agree
    have statements : ∀ m ∈ members, m.Mentions names := fun m there => mentions.part there
    have inner := walkBlock_alike (fun m there => each m there (statements m there)) around
      (agree.extend []) statements
    obtain ⟨ups, bound, here, there⟩ := inner.updates
    refine ⟨⟨(Bindings.update [] ups).map fun e => (qualify name e.1, e.2), ?_, ?_, ?_⟩,
      inner.found⟩
    · have own := Bindings.names_update [] ups
      rw [bound, show Bindings.names [] = [] from rfl, Bindings.addNames_to_nil] at own
      rw [declared, ← own]
      simp only [Bindings.names, List.map_map]
      rfl
    · simp only [walk, Outcome.leave, here, exported_eq_update]
    · simp only [walk, Outcome.leave, there, exported_eq_update]
  | function params result body loc each =>
    intro v v' parent b b' around agree
    have parts : ∀ m ∈ (Kind.function params result body).parts, m.Mentions names := fun m there =>
      mentions.part there
    simp only [Kind.parts, List.forall_mem_append] at parts
    obtain ⟨⟨annotations, _⟩, statements⟩ := parts
    have itself : ∀ f ∈ some (Node.mk (.function params result body) loc), f.Mentions names := by
      simpa using mentions
    simp only [walk, typeOfParams_congr fun m there => settled (annotations m there) _ _ agree]
    exact (walkBlock_alike (fun m there => each m there (statements m there)) itself
      (agree.extend _) statements).leave b b'
  | inline kind loc ms passes each =>
    intro v v' parent b b' around agree
    rw [walk_inline passes, walk_inline passes, declared_inline passes]
    have passed : ∀ m ∈ ms, Determined names m := fun m there =>
      each m there (mentions.part (Kind.inline_parts passes m there))
    exact walkEach_alike passed around agree

end Effects

end ScriptCheck
