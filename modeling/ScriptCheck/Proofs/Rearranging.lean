import Mathlib.Logic.Relation
import ScriptCheck.Proofs.Members
import ScriptCheck.Proofs.Outermost

/-! One tree, many texts. The members of a node, of a place, of a branch and of a parameter may
stand in any order, and among them anything may stand under a key that is not known there. Changes
of this kind, at any depth, do not change whether a text loads nor what it loads as. -/
namespace ScriptCheck

inductive Spot where
  | leaf
  | value (shape : Shape)
  | span
  | branch (test body : String)
  | param
  | part

namespace Spot

def isRecord : Spot → Bool
  | .value .node | .span | .branch _ _ | .param => true
  | _ => false

def ofItems : Shape → Option Spot
  | .nodes => some (.value .node)
  | .branches test body => some (.branch test body)
  | .params => some .param
  | .parts => some .part
  | _ => none

/-- Among these members the key is known, and its value stands for the second spot. Which fields a
node has depends on the kind that its `type` names. -/
inductive Knows (ms : List (String × Json)) : Spot → String → Spot → Prop where
  | type : Knows ms (.value .node) "type" .leaf
  | loc : Knows ms (.value .node) "loc" .span
  | field {j : Json} {tag : Tag} {key : String} {shape : Shape} (typed : ("type", j) ∈ ms)
      (named : Tag.ofJson j = .ok tag) (known : tag.schema.lookup key = some shape) :
    Knows ms (.value .node) key (.value shape)
  | start : Knows ms .span "start" .leaf
  | stop : Knows ms .span "end" .leaf
  | test (test body : String) : Knows ms (.branch test body) test (.value .node)
  | body (test body : String) : Knows ms (.branch test body) body (.value .node)
  | name : Knows ms .param "name" .leaf
  | declared : Knows ms .param "argType" (.value .maybeNode)

end Spot

open Spot (Knows)

/-- One change in the way in which something is written. -/
inductive Reworded : Spot → Json → Json → Prop where
  | permute {spot : Spot} (record : spot.isRecord = true) {ms ms' : List (String × Json)}
      (perm : ms.Perm ms') : Reworded spot (.object ms) (.object ms')
  | drop {spot : Spot} (record : spot.isRecord = true) {key : String} (j : Json)
      {before after : List (String × Json)}
      (unknown : ∀ inner, ¬ Knows (before ++ after) spot key inner) :
    Reworded spot (.object (before ++ (key, j) :: after)) (.object (before ++ after))
  | member {spot inner : Spot} {key : String} {j j' : Json} {before after : List (String × Json)}
      (known : Knows (before ++ (key, j) :: after) spot key inner)
      (inside : Reworded inner j j') :
    Reworded spot (.object (before ++ (key, j) :: after)) (.object (before ++ (key, j') :: after))
  | given {j j' : Json} (inside : Reworded (.value .node) j j') :
    Reworded (.value .maybeNode) j j'
  | embedded {j j' : Json} (inside : Reworded (.value .node) j j') : Reworded .part j j'
  | item {shape : Shape} {spot : Spot} (listed : Spot.ofItems shape = some spot) {j j' : Json}
      (before after : List Json) (inside : Reworded spot j j') :
    Reworded (.value shape) (.array (before ++ j :: after)) (.array (before ++ j' :: after))
  | entry {j j' : Json} (key : String) (before after : List (String × Json))
      (inside : Reworded (.value .node) j j') :
    Reworded (.value .entries) (.object (before ++ (key, j) :: after))
      (.object (before ++ (key, j') :: after))
  | pair {test body : String} {j j' : Json} (before after : List Json)
      (inside : Reworded (.value .node) j j') :
    Reworded (.branch test body) (.array (before ++ j :: after)) (.array (before ++ j' :: after))
  | annotated {j j' : Json} (name : Json) (after : List Json)
      (inside : Reworded (.value .maybeNode) j j') :
    Reworded .param (.array (name :: j :: after)) (.array (name :: j' :: after))

/-! Items of lists -/

def givenOf : Json → Option (Option Node)
  | .null => some none
  | j => (Node.ofJson j).toOption.map some

def branchOf (test body : String) : Json → Option Branch
  | .object ms =>
    (fieldsOf [(test, .node), (body, .node)] [] ms).toOption.bind fun fs =>
      (fs.node test).toOption.bind fun t => (fs.node body).toOption.map (Branch.mk t)
  | .array [a, b] =>
    (Node.ofJson a).toOption.bind fun t => (Node.ofJson b).toOption.map (Branch.mk t)
  | _ => none

def paramOf : Json → Option Param
  | .object ms =>
    (fieldsOf [("name", .text), ("argType", .maybeNode)] [] ms).toOption.bind fun fs =>
      (fs.text "name").toOption.map fun name => .mk name (fs.maybeNode "argType")
  | .array [a] => (textOf a).toOption.map fun name => .mk name none
  | .array [a, b] => (textOf a).toOption.bind fun name => (givenOf b).map (Param.mk name)
  | _ => none

def partOf : Json → Option Part
  | .string s => some (.text s)
  | j => (Node.ofJson j).toOption.map .expr

theorem map_eq_bind {α β : Type} (f : α → β) (o : Option α) :
    o.map f = o.bind fun a => some (f a) := Option.map_eq_bind

theorem branchesOf_mapM (test body : String) (js : List Json) :
    (branchesOf test body js).toOption = js.mapM (branchOf test body) := by
  refine mapM_of_cons (by rw [branchesOf]) (fun j rest => ?_) js
  cases j with
  | array items =>
    rcases items with _ | ⟨a, _ | ⟨b, _ | ⟨c, extra⟩⟩⟩ <;>
      simp [branchesOf, branchOf, toOption_bind, pure_eq_ok, map_eq_bind, Option.bind_assoc]
  | _ =>
    simp [branchesOf, branchOf, toOption_bind, pure_eq_ok, map_eq_bind, Option.bind_assoc]

theorem paramsOf_mapM (js : List Json) : (paramsOf js).toOption = js.mapM paramOf := by
  refine mapM_of_cons (by rw [paramsOf]) (fun j rest => ?_) js
  cases j with
  | array items =>
    rcases items with _ | ⟨a, _ | ⟨b, _ | ⟨c, extra⟩⟩⟩
    case nil | cons.nil =>
      simp [paramsOf, paramOf, toOption_bind, pure_eq_ok, map_eq_bind, Option.bind_assoc]
    case cons.cons.nil | cons.cons.cons =>
      cases b <;>
        simp [paramsOf, paramOf, givenOf, toOption_bind, pure_eq_ok, map_eq_bind, Option.bind_assoc]
  | _ =>
    simp [paramsOf, paramOf, toOption_bind, pure_eq_ok, map_eq_bind, Option.bind_assoc]

theorem partsOf_mapM (js : List Json) : (partsOf js).toOption = js.mapM partOf := by
  refine mapM_of_cons (by rw [partsOf]) (fun j rest => ?_) js
  cases j with
  | string s =>
    simp [partsOf, partOf, toOption_bind, pure_eq_ok, map_eq_bind]
  | _ =>
    simp only [partsOf, partOf]
    split <;> simp_all [toOption_bind, pure_eq_ok, map_eq_bind]

/-- Both values are loaded as the same thing, or neither is loaded. -/
def Spot.Same : Spot → Json → Json → Prop
  | .leaf, j, j' => j = j'
  | .value shape, j, j' => (shape.read j).toOption = (shape.read j').toOption
  | .span, j, j' => (locOf j).toOption = (locOf j').toOption
  | .branch test body, j, j' => branchOf test body j = branchOf test body j'
  | .param, j, j' => paramOf j = paramOf j'
  | .part, j, j' => partOf j = partOf j'

theorem Spot.same_equivalence (spot : Spot) : Equivalence spot.Same := by
  cases spot <;> exact ⟨fun _ => rfl, Eq.symm, Eq.trans⟩

/-! Tags -/

theorem tagOf_seen {tag found : Tag} {ms : List (String × Json)}
    (read : tagOf (some tag) ms = .ok found) : found = tag ∧ ∀ j, ("type", j) ∉ ms := by
  induction ms with
  | nil => exact ⟨(Except.ok.inj read).symm, by simp⟩
  | cons m rest ih =>
    rw [tagOf] at read
    split at read
    · cases read
    · rename_i other
      obtain ⟨same, absent⟩ := ih read
      refine ⟨same, fun j there => ?_⟩
      rcases List.mem_cons.mp there with rfl | there
      · exact other rfl
      · exact absent j there

theorem tagOf_eq_ok {tag : Tag} {ms : List (String × Json)} (read : tagOf none ms = .ok tag) :
    (∃ j, ("type", j) ∈ ms) ∧ ∀ j, ("type", j) ∈ ms → Tag.ofJson j = .ok tag := by
  induction ms with
  | nil => cases read
  | cons m rest ih =>
    obtain ⟨key, value⟩ := m
    rw [tagOf] at read
    split at read
    · rename_i same
      obtain rfl : key = "type" := same
      obtain ⟨found, named, read⟩ := bind_eq_ok.mp read
      obtain ⟨rfl, absent⟩ := tagOf_seen read
      refine ⟨⟨value, List.mem_cons_self⟩, fun j there => ?_⟩
      rcases List.mem_cons.mp there with same | there
      · rw [(Prod.mk.inj same).2]
        exact named
      · exact absurd there (absent j)
    · rename_i other
      obtain ⟨⟨j, there⟩, all⟩ := ih read
      refine ⟨⟨j, List.mem_cons_of_mem _ there⟩, fun k listed => ?_⟩
      rcases List.mem_cons.mp listed with same | listed
      · exact absurd (Prod.mk.inj same).1.symm other
      · exact all k listed

/-! Records -/

namespace Spot

theorem same_node {j j' : Json} :
    (value .node).Same j j' ↔ (Node.ofJson j).toOption = (Node.ofJson j').toOption := by
  have inj : Function.Injective Field.node := fun _ _ => Field.node.inj
  simp only [Same, Shape.read, toOption_map, (Option.map_injective inj).eq_iff]

theorem same_node_of_gather {ms ms' : List (String × Json)}
    (place : gather (sole "loc" locOf) ms = gather (sole "loc" locOf) ms')
    (tag : gather (sole "type" Tag.ofJson) ms = gather (sole "type" Tag.ofJson) ms')
    (fields : ∀ tag, tagOf none ms = .ok tag →
      gather (fieldReaders tag.schema) ms = gather (fieldReaders tag.schema) ms') :
    (value .node).Same (.object ms) (.object ms') := by
  have tags : (tagOf none ms).toOption = (tagOf none ms').toOption := by
    rw [tagOf_gather, tagOf_gather, tag]
  have places : (placeOf none ms).toOption = (placeOf none ms').toOption := by
    rw [placeOf_gather, placeOf_gather, place]
  have kinds : (kindOf ms).toOption = (kindOf ms').toOption := by
    simp only [kindOf, toOption_bind, ← tags]
    cases read : (tagOf none ms).toOption with
    | none => rfl
    | some t =>
      refine fieldsOf_congr (fields t (toOption_eq_some.mp read)) fun fs gs same => ?_
      rw [Kind.ofFields_congr same]
  rw [same_node, Node.ofJson_object, Node.ofJson_object]
  simp only [toOption_bind, places, kinds]

theorem same_span_of_gather {ms ms' : List (String × Json)}
    (offsets : gather offsetReaders ms = gather offsetReaders ms') :
    span.Same (.object ms) (.object ms') := by
  simp only [Same, locOf, toOption_map, spanMembers_gather, offsets]

theorem same_branch_of_gather {test body : String} {ms ms' : List (String × Json)}
    (fields : gather (fieldReaders [(test, .node), (body, .node)]) ms =
      gather (fieldReaders [(test, .node), (body, .node)]) ms') :
    (branch test body).Same (.object ms) (.object ms') :=
  fieldsOf_congr fields fun fs gs same => by simp only [Fields.node, same]

theorem same_param_of_gather {ms ms' : List (String × Json)}
    (fields : gather (fieldReaders [("name", .text), ("argType", .maybeNode)]) ms =
      gather (fieldReaders [("name", .text), ("argType", .maybeNode)]) ms') :
    param.Same (.object ms) (.object ms') :=
  fieldsOf_congr fields fun fs gs same => by simp only [Fields.text, Fields.maybeNode, same]

inductive Reading (ms : List (String × Json)) : Spot → {α : Type} → Readers α → Prop where
  | place : Reading ms (value .node) (sole "loc" locOf)
  | tag : Reading ms (value .node) (sole "type" Tag.ofJson)
  | fields {tag : Tag} (tagged : tagOf none ms = .ok tag) :
    Reading ms (value .node) (fieldReaders tag.schema)
  | offsets : Reading ms span offsetReaders
  | branch (test body : String) :
    Reading ms (branch test body) (fieldReaders [(test, .node), (body, .node)])
  | param : Reading ms param (fieldReaders [("name", .text), ("argType", .maybeNode)])

theorem same_of_reading {spot : Spot} (record : spot.isRecord = true)
    {ms ms' : List (String × Json)}
    (alike : ∀ {α : Type} {readers : Readers α}, Reading ms spot readers →
      gather readers ms = gather readers ms') : spot.Same (.object ms) (.object ms') :=
  match spot, record with
  | .value .node, _ =>
    same_node_of_gather (alike .place) (alike .tag) fun _ tagged => alike (.fields tagged)
  | .span, _ => same_span_of_gather (alike .offsets)
  | .branch test body, _ => same_branch_of_gather (alike (.branch test body))
  | .param, _ => same_param_of_gather (alike .param)

variable {ms : List (String × Json)} {spot inner : Spot} {α : Type} {readers : Readers α}
  {key : String} {read : Json → Option α}

theorem sole_eq_some {name : String} {load : Json → Except ShapeError α} :
    sole name load key = some read ↔ key = name ∧ (fun j => (load j).toOption) = read := by
  simp [sole]

theorem offsetReaders_eq_some {read : Json → Option UInt64} :
    offsetReaders key = some read ↔
      (key = "start" ∨ key = "end") ∧ (fun j => (offsetOf j).toOption) = read := by
  simp [offsetReaders]

theorem fieldReaders_eq_some {schema : List (String × Shape)} {read : Json → Option Field} :
    fieldReaders schema key = some read ↔
      ∃ shape, schema.lookup key = some shape ∧ (fun j => (shape.read j).toOption) = read := by
  simp [fieldReaders]

theorem lookup_pair {a b : String} {x y shape : Shape}
    (known : [(a, x), (b, y)].lookup key = some shape) :
    key = a ∧ x = shape ∨ key = b ∧ y = shape := by
  simp only [List.lookup_cons, List.lookup_nil] at known
  split at known
  · exact .inl ⟨by simp_all, Option.some.inj known⟩
  · split at known
    · exact .inr ⟨by simp_all, Option.some.inj known⟩
    · cases known

theorem Reading.knows (reading : Reading ms spot readers) (reads : readers key = some read) :
    ∃ inner, Knows ms spot key inner := by
  cases reading with
  | place =>
    obtain ⟨rfl, -⟩ := sole_eq_some.mp reads
    exact ⟨_, .loc⟩
  | tag =>
    obtain ⟨rfl, -⟩ := sole_eq_some.mp reads
    exact ⟨_, .type⟩
  | fields tagged =>
    obtain ⟨⟨j, typed⟩, all⟩ := tagOf_eq_ok tagged
    obtain ⟨shape, known, -⟩ := fieldReaders_eq_some.mp reads
    exact ⟨_, .field typed (all j typed) known⟩
  | offsets =>
    obtain ⟨rfl | rfl, -⟩ := offsetReaders_eq_some.mp reads
    · exact ⟨_, .start⟩
    · exact ⟨_, .stop⟩
  | branch test body =>
    obtain ⟨shape, known, -⟩ := fieldReaders_eq_some.mp reads
    rcases lookup_pair known with ⟨rfl, -⟩ | ⟨rfl, -⟩
    · exact ⟨_, .test _ _⟩
    · exact ⟨_, .body _ _⟩
  | param =>
    obtain ⟨shape, known, -⟩ := fieldReaders_eq_some.mp reads
    rcases lookup_pair known with ⟨rfl, -⟩ | ⟨rfl, -⟩
    · exact ⟨_, .name⟩
    · exact ⟨_, .declared⟩

theorem Reading.unread (reading : Reading ms spot readers)
    (unknown : ∀ inner, ¬ Knows ms spot key inner) : readers key = none := by
  cases reads : readers key with
  | none => rfl
  | some read =>
    obtain ⟨inner, known⟩ := reading.knows reads
    exact absurd known (unknown inner)

theorem Knows.record (known : Knows ms spot key inner) : spot.isRecord = true := by
  cases known <;> rfl

theorem Reading.respects (reading : Reading ms spot readers) (reads : readers key = some read)
    (known : Knows ms spot key inner) {j j' : Json} (same : inner.Same j j') :
    read j = read j' := by
  cases reading with
  | place =>
    obtain ⟨here, rfl⟩ := sole_eq_some.mp reads
    cases known with
    | type => exact absurd here (by decide)
    | loc => exact same
    | @field _ tag _ _ _ _ listed =>
      rw [here, tag.schema_reserved.2] at listed
      cases listed
  | tag =>
    obtain ⟨here, rfl⟩ := sole_eq_some.mp reads
    cases known with
    | type => rw [show j = j' from same]
    | loc => exact absurd here (by decide)
    | @field _ tag _ _ _ _ listed =>
      rw [here, tag.schema_reserved.1] at listed
      cases listed
  | @fields tag tagged =>
    obtain ⟨shape, listed, rfl⟩ := fieldReaders_eq_some.mp reads
    cases known with
    | type => simp [tag.schema_reserved.1] at listed
    | loc => simp [tag.schema_reserved.2] at listed
    | field typed named here =>
      obtain rfl := Except.ok.inj (((tagOf_eq_ok tagged).2 _ typed).symm.trans named)
      obtain rfl := Option.some.inj (listed.symm.trans here)
      exact same
  | offsets =>
    obtain ⟨-, rfl⟩ := offsetReaders_eq_some.mp reads
    cases known <;> rw [show j = j' from same]
  | branch test body =>
    obtain ⟨shape, listed, rfl⟩ := fieldReaders_eq_some.mp reads
    obtain rfl : Shape.node = shape := by
      rcases lookup_pair listed with ⟨-, rfl⟩ | ⟨-, rfl⟩ <;> rfl
    cases known <;> exact same
  | param =>
    obtain ⟨shape, listed, rfl⟩ := fieldReaders_eq_some.mp reads
    cases known with
    | name => rw [show j = j' from same]
    | declared =>
      obtain rfl : Shape.maybeNode = shape := Option.some.inj listed
      exact same

/-! What stands inside a value -/

theorem same_given {j j' : Json} :
    (value .maybeNode).Same j j' ↔ givenOf j = givenOf j' := by
  have inj : Function.Injective Field.maybeNode := fun _ _ => Field.maybeNode.inj
  have read (j : Json) : (Shape.maybeNode.read j).toOption = (givenOf j).map Field.maybeNode := by
    cases j <;> simp [Shape.read, givenOf, toOption_map]
  simp only [Same, read, (Option.map_injective inj).eq_iff]

theorem same_nodes {j j' : Json} :
    (value .nodes).Same j j' ↔ (programOf j).toOption = (programOf j').toOption := by
  have inj : Function.Injective Field.nodes := fun _ _ => Field.nodes.inj
  have read (j : Json) :
      (Shape.nodes.read j).toOption = (programOf j).toOption.map Field.nodes := by
    cases j <;> simp [Shape.read, programOf, toOption_map]
  simp only [Same, read, (Option.map_injective inj).eq_iff]

theorem mapM_middle {α : Type} {item : Json → Option α} {j j' : Json} (same : item j = item j')
    (before after : List Json) :
    (before ++ j :: after).mapM item = (before ++ j' :: after).mapM item := by
  simp only [List.mapM_append, List.mapM_cons, same]

theorem same_item {shape : Shape} {spot : Spot} (listed : Spot.ofItems shape = some spot)
    {j j' : Json} (same : spot.Same j j') (before after : List Json) :
    (value shape).Same (.array (before ++ j :: after)) (.array (before ++ j' :: after)) := by
  cases shape <;> cases listed <;> simp only [Same, Shape.read, toOption_map]
  case nodes => rw [nodesOf_mapM, nodesOf_mapM, mapM_middle (same_node.mp same)]
  case branches => rw [branchesOf_mapM, branchesOf_mapM, mapM_middle same]
  case params => rw [paramsOf_mapM, paramsOf_mapM, mapM_middle same]
  case parts => rw [partsOf_mapM, partsOf_mapM, mapM_middle same]

theorem same_entry {j j' : Json} (same : (value .node).Same j j') (key : String)
    (before after : List (String × Json)) :
    (value .entries).Same (.object (before ++ (key, j) :: after))
      (.object (before ++ (key, j') :: after)) := by
  have onward (seen : List Entry) : (entriesOf seen (before ++ (key, j) :: after)).toOption =
      (entriesOf seen (before ++ (key, j') :: after)).toOption := by
    induction before generalizing seen with
    | nil => simp only [List.nil_append, entriesOf, toOption_bind, same_node.mp same]
    | cons m rest ih => simp only [List.cons_append, entriesOf, toOption_bind, ih]
  simp only [Same, Shape.read, toOption_map, onward]

theorem same_pair {test body : String} {j j' : Json} (same : (value .node).Same j j')
    (before after : List Json) :
    (branch test body).Same (.array (before ++ j :: after)) (.array (before ++ j' :: after)) := by
  have nodes := same_node.mp same
  rcases before with _ | ⟨a, _ | ⟨b, rest⟩⟩
  · rcases after with _ | ⟨b, _ | ⟨c, rest⟩⟩ <;> simp [Same, branchOf, nodes]
  · cases after <;> simp [Same, branchOf, nodes]
  · cases rest <;> simp [Same, branchOf]

end Spot

open Spot

/-! Whole texts -/

/-- What is written as a node is an object, so it is never taken for something missing or for a
text. -/
theorem Reworded.objects {j j' : Json} (reworded : Reworded (.value .node) j j') :
    ∃ ms ms', j = .object ms ∧ j' = .object ms' := by
  cases reworded with
  | permute | drop | member => exact ⟨_, _, rfl, rfl⟩
  | item listed => cases listed

theorem Reworded.same {spot : Spot} {j j' : Json} (reworded : Reworded spot j j') :
    spot.Same j j' := by
  induction reworded with
  | permute record perm =>
    exact same_of_reading record fun {_ readers} _ => gather_perm readers perm
  | @drop spot record key j before after unknown =>
    -- which keys are known is told by the members that stay, so they are taken as the first list
    refine (same_equivalence spot).symm (same_of_reading record fun reading => ?_)
    exact (gather_drop (reading.unread unknown) j before after).symm
  | @member spot inner key j j' before after known _ ih =>
    refine same_of_reading known.record fun reading => ?_
    exact gather_member (fun read reads => reading.respects reads known ih) before after
  | given inside ih =>
    obtain ⟨ms, ms', rfl, rfl⟩ := inside.objects
    rw [same_given]
    exact congrArg (Option.map some) (same_node.mp ih)
  | embedded inside ih =>
    obtain ⟨ms, ms', rfl, rfl⟩ := inside.objects
    exact congrArg (Option.map Part.expr) (same_node.mp ih)
  | item listed before after _ ih => exact same_item listed ih before after
  | entry key before after _ ih => exact same_entry ih key before after
  | pair before after _ ih => exact same_pair ih before after
  | annotated name after _ ih =>
    cases after with
    | nil => simp only [Same, paramOf, same_given.mp ih]
    | cons => simp [Same, paramOf]

/-- Texts whose values differ only in the order of the members of records and in members that are
not known load alike: both give the same program, or neither gives one. -/
theorem Program.parse_reworded {text text' : String} {j j' : Json}
    (valid : Json.ofText text = .ok j) (valid' : Json.ofText text' = .ok j')
    (alike : Relation.EqvGen (Reworded (.value .nodes)) j j') (p : Program) :
    Program.parse text = .ok p ↔ Program.parse text' = .ok p := by
  have same : (value .nodes).Same j j' :=
    (same_equivalence _).eqvGen_iff.mp (alike.mono fun _ _ => Reworded.same)
  rw [← toOption_eq_some, ← toOption_eq_some, parse_of_ofText valid, parse_of_ofText valid',
    same_nodes.mp same]

/-- The members of the inner node are exchanged and one is added, then those of the outer node are
exchanged. -/
theorem Program.parse_reworded_nested :
    let text := r#"[{"type":"not","expr":{"type":"identifier","name":"x"}}]"#
    let text' := r#"[{"expr":{"name":"x","by":[],"type":"identifier"},"type":"not"}]"#
    ∃ j j' p, Json.ofText text = .ok j ∧ Json.ofText text' = .ok j' ∧
      Relation.EqvGen (Reworded (.value .nodes)) j j' ∧
      Program.parse text = .ok p ∧ Program.parse text' = .ok p := by
  intro text text'
  let type : String × Json := ("type", .string "not")
  let ident : String × Json := ("type", .string "identifier")
  let name : String × Json := ("name", .string "x")
  let note : String × Json := ("by", .array [])
  have inside {j j' : Json} (inner : Reworded (.value .node) j j') :
      Reworded (.value .nodes) (.array [.object [type, ("expr", j)]])
        (.array [.object [type, ("expr", j')]]) := by
    have known : Knows [type, ("expr", j)] (.value .node) "expr" (.value .node) :=
      @Knows.field _ (.string "not") .not _ _ List.mem_cons_self rfl rfl
    exact .item rfl [] [] (@Reworded.member _ _ "expr" _ _ [type] [] known inner)
  have swapped := inside (.permute rfl (.swap name ident []))
  have unknown : ∀ inner, ¬ Knows [name, ident] (.value .node) "by" inner := by
    intro inner known
    generalize here : "by" = key at known
    cases known with
    | type | loc => exact absurd here (by decide)
    | field typed named listed =>
      obtain rfl : _ = Json.string "identifier" := by simpa [name, ident] using typed
      obtain rfl := Except.ok.inj named
      subst here
      cases listed
  have added := inside (@Reworded.drop _ rfl "by" (.array []) [name] [ident] unknown)
  have turned : Reworded (.value .nodes)
      (.array [.object [type, ("expr", .object [name, note, ident])]])
      (.array [.object [("expr", .object [name, note, ident]), type]]) :=
    .item rfl [] [] (.permute rfl (.swap _ _ []))
  have alike := ((Relation.EqvGen.rel _ _ swapped).trans _ _ _ (.symm _ _ (.rel _ _ added))).trans
    _ _ _ (.rel _ _ turned)
  have valid : Json.ofText text =
      .ok (.array [.object [type, ("expr", .object [ident, name])]]) := by
    dsimp only [text, type, ident, name]
    cbv
  have valid' : Json.ofText text' =
      .ok (.array [.object [("expr", .object [name, note, ident]), type]]) := by
    dsimp only [text', type, ident, name, note]
    cbv
  have loads : Program.parse text = .ok [⟨.not ⟨.ident "x", none⟩, none⟩] :=
    toOption_eq_some.mp (parse_of_ofText valid)
  exact ⟨_, _, _, valid, valid', alike, loads, (parse_reworded valid valid' alike _).mp loads⟩

end ScriptCheck
