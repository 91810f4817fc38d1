import Mathlib.Tactic.Common
import ScriptCheck.Proofs.Records
import ScriptCheck.Proofs.Streaming

/-! Members of records. A tag, a place, a span and the fields of a node are all collected in the
same way: some keys are known, a known key may stand once, and its value has to be readable. So the
order of the members does not matter, nor do members that are not known; all that a change of their
order can change is which fault is found first. -/
namespace ScriptCheck

section

variable {α : Type}

abbrev Readers (α : Type) := String → Option (Json → Option α)

def collect (readers : Readers α) (seen : String → Option α) (m : String × Json) :
    Option (String → Option α) :=
  match readers m.1 with
  | none => some seen
  | some read =>
    if (seen m.1).isSome then none
    else (read m.2).map fun x key => if key = m.1 then some x else seen key

/-- What the members of a record say about each key, if nothing is wrong with them. -/
def gather (readers : Readers α) (ms : List (String × Json)) : Option (String → Option α) :=
  ms.foldlM (collect readers) fun _ => none

theorem collect_comm (readers : Readers α) (seen : String → Option α) (m n : String × Json) :
    ((collect readers seen m).bind fun s => collect readers s n) =
      (collect readers seen n).bind fun s => collect readers s m := by
  obtain ⟨k, i⟩ := m
  obtain ⟨l, j⟩ := n
  cases first : readers k with
  | none => simp [collect, first]
  | some read =>
    cases second : readers l with
    | none => simp [collect, second]
    | some read' =>
      by_cases same : k = l
      · subst same
        obtain rfl := Option.some.inj (first.symm.trans second)
        simp only [collect, first]
        cases seen k <;> cases read i <;> cases read j <;> simp
      · have other : ¬ l = k := fun h => same h.symm
        simp only [collect, first, second]
        cases seenK : seen k <;> cases seenL : seen l <;> cases read i <;> cases read' j <;>
          simp [same, other, seenK, seenL]
        funext key
        by_cases here : key = k <;> by_cases there : key = l <;> simp_all

theorem foldlM_collect_perm (readers : Readers α) {ms ms' : List (String × Json)}
    (perm : ms.Perm ms') (seen : String → Option α) :
    ms.foldlM (collect readers) seen = ms'.foldlM (collect readers) seen := by
  induction perm generalizing seen with
  | nil => rfl
  | cons m _ ih =>
    simp only [List.foldlM_cons]
    congr
    funext s
    exact ih s
  | swap m n rest =>
    have exchange := collect_comm readers seen n m
    simp only [List.foldlM_cons, Option.bind_eq_bind, ← Option.bind_assoc, exchange]
  | trans _ _ first second => exact (first seen).trans (second seen)

theorem gather_perm (readers : Readers α) {ms ms' : List (String × Json)} (perm : ms.Perm ms') :
    gather readers ms = gather readers ms' := foldlM_collect_perm readers perm _

theorem gather_drop {readers : Readers α} {key : String} (unknown : readers key = none) (j : Json)
    (before after : List (String × Json)) :
    gather readers (before ++ (key, j) :: after) = gather readers (before ++ after) := by
  simp [gather, List.foldlM_append, List.foldlM_cons, collect, unknown]

theorem gather_member {readers : Readers α} {key : String} {j j' : Json}
    (same : ∀ read ∈ readers key, read j = read j') (before after : List (String × Json)) :
    gather readers (before ++ (key, j) :: after) =
      gather readers (before ++ (key, j') :: after) := by
  have steps (seen : String → Option α) :
      collect readers seen (key, j) = collect readers seen (key, j') := by
    cases known : readers key with
    | none => simp [collect, known]
    | some read => simp [collect, known, same read (by simp [known])]
  simp only [gather, List.foldlM_append, List.foldlM_cons, steps]

end

/-! Tags, places and spans -/

def sole {α : Type} (name : String) (read : Json → Except ShapeError α) : Readers α :=
  fun key => if key = name then some fun j => (read j).toOption else none

theorem gather_sole {α β : Type} {name : String} {read : Json → Except ShapeError α}
    {search : Option α → List (String × Json) → Except ShapeError β}
    (step : ∀ seen m rest, (search seen (m :: rest)).toOption =
      if m.1 = name then
        if seen.isSome then none
        else (read m.2).toOption.bind fun x => (search (some x) rest).toOption
      else (search seen rest).toOption) (ms : List (String × Json)) :
    (search none ms).toOption =
      (gather (sole name read) ms).bind fun s => (search (s name) []).toOption := by
  have onward (s : String → Option α) : (search (s name) ms).toOption =
      (ms.foldlM (collect (sole name read)) s).bind fun s => (search (s name) []).toOption := by
    induction ms generalizing s with
    | nil => rfl
    | cons m rest ih =>
      rw [step, List.foldlM_cons]
      by_cases known : m.1 = name
      · simp only [collect, sole, known, if_true]
        cases (s name).isSome with
        | true => rfl
        | false =>
          cases (read m.2).toOption with
          | none => rfl
          | some x =>
            have next := ih fun key => if key = name then some x else s key
            rw [if_pos rfl] at next
            exact next
      · simp only [collect, sole, known, if_false]
        exact ih s
  exact onward fun _ => none

theorem tagOf_gather (ms : List (String × Json)) :
    (tagOf none ms).toOption =
      (gather (sole "type" Tag.ofJson) ms).bind fun s => (tagOf (s "type") []).toOption := by
  refine gather_sole ?_ ms
  intro seen m rest
  rw [tagOf]
  split
  · split
    · rfl
    · rw [toOption_bind]
  · rfl

theorem placeOf_gather (ms : List (String × Json)) :
    (placeOf none ms).toOption =
      (gather (sole "loc" locOf) ms).bind fun s => (placeOf (s "loc") []).toOption := by
  refine gather_sole ?_ ms
  intro seen m rest
  rw [placeOf]
  split
  · split
    · rfl
    · rw [toOption_bind]
  · rfl

def offsetReaders : Readers UInt64 :=
  fun key => if key = "start" ∨ key = "end" then some fun j => (offsetOf j).toOption else none

theorem spanMembers_gather (ms : List (String × Json)) :
    (spanMembers ⟨none, none⟩ ms).toOption = (gather offsetReaders ms).bind fun s =>
      (PartialSpan.finish ⟨s "start", s "end"⟩).toOption := by
  have onward (s : String → Option UInt64) : (spanMembers ⟨s "start", s "end"⟩ ms).toOption =
      (ms.foldlM (collect offsetReaders) s).bind fun s =>
        (PartialSpan.finish ⟨s "start", s "end"⟩).toOption := by
    induction ms generalizing s with
    | nil => rfl
    | cons m rest ih =>
      obtain ⟨key, j⟩ := m
      rw [spanMembers, List.foldlM_cons]
      by_cases start : key = "start"
      · subst start
        have next (n : UInt64) := ih fun k => if k = "start" then some n else s k
        simp only [collect, offsetReaders, true_or, if_true]
        cases seen : s "start" <;> cases read : offsetOf j <;> simp_all [Bind.bind, Except.bind]
      · by_cases stop : key = "end"
        · subst stop
          have next (n : UInt64) := ih fun k => if k = "end" then some n else s k
          simp only [collect, offsetReaders, or_true, if_true]
          cases seen : s "end" <;> cases read : offsetOf j <;> simp_all [Bind.bind, Except.bind]
        · simp only [collect, offsetReaders, start, stop, or_self, if_false]
          exact ih s
  exact onward fun _ => none

/-! Fields -/

def fieldReaders (schema : List (String × Shape)) : Readers Field :=
  fun key => (schema.lookup key).map fun shape j => (shape.read j).toOption

theorem fieldsOf_gather (schema : List (String × Shape)) (ms : List (String × Json)) :
    (fieldsOf schema [] ms).toOption.map (fun fs key => fs.lookup key) =
      gather (fieldReaders schema) ms := by
  have onward (seen : Fields) :
      (fieldsOf schema seen ms).toOption.map (fun fs key => fs.lookup key) =
        ms.foldlM (collect (fieldReaders schema)) fun key => seen.lookup key := by
    induction ms generalizing seen with
    | nil =>
      rw [fieldsOf]
      rfl
    | cons m rest ih =>
      obtain ⟨key, j⟩ := m
      rw [List.foldlM_cons]
      cases known : schema.lookup key with
      | none =>
        rw [fieldsOf]
        simp only [known, collect, fieldReaders, Option.map_none, Option.bind_eq_bind,
          Option.bind_some, ih]
      | some shape =>
        cases dup : seen.lookup key with
        | some field =>
          rw [fieldsOf]
          simp [known, dup, collect, fieldReaders]
        | none =>
          rw [fieldsOf_known known dup, toOption_bind]
          simp only [collect, fieldReaders, known, dup, Option.map_some, Option.isSome_none,
            Bool.false_eq_true, if_false]
          cases (shape.read j).toOption with
          | none => rfl
          | some field =>
            have added : (fun k => List.lookup k (seen ++ [(key, field)])) =
                fun k => if k = key then some field else seen.lookup k := by
              funext k
              rw [List.lookup_append, List.lookup_cons]
              by_cases same : k = key
              · simp [same, dup]
              · simp [same, beq_false_of_ne same]
            have next := ih (seen ++ [(key, field)])
            rw [added] at next
            exact next
  exact onward []

theorem fieldsOf_congr {β : Type} {schema : List (String × Shape)} {ms ms' : List (String × Json)}
    (same : gather (fieldReaders schema) ms = gather (fieldReaders schema) ms')
    {use : Fields → Option β}
    (plain : ∀ fs gs : Fields, (∀ key, fs.lookup key = gs.lookup key) → use fs = use gs) :
    (fieldsOf schema [] ms).toOption.bind use = (fieldsOf schema [] ms').toOption.bind use := by
  rw [← fieldsOf_gather, ← fieldsOf_gather] at same
  cases one : (fieldsOf schema [] ms).toOption with
  | none =>
    rw [one, Option.map_none, eq_comm, Option.map_eq_none_iff] at same
    rw [same]
  | some fs =>
    rw [one, Option.map_some, eq_comm, Option.map_eq_some_iff] at same
    obtain ⟨gs, other, tables⟩ := same
    rw [other]
    exact plain fs gs fun key => (congrFun tables key).symm

theorem Kind.ofFields_congr {fs gs : Fields} (same : ∀ key, fs.lookup key = gs.lookup key)
    (tag : Tag) : Kind.ofFields fs tag = Kind.ofFields gs tag := by
  cases tag <;> simp only [ofFields, Fields.node, Fields.maybeNode, Fields.nodes,
    Fields.nodesOrNone, Fields.text, Fields.maybeText, Fields.flag, Fields.flagOrFalse,
    Fields.number, Fields.branches, Fields.params, Fields.parts, Fields.entries, same]

end ScriptCheck
