import ScriptCheck.Proofs.Nodes
import ScriptCheck.Proofs.Values
import ScriptCheck.Tree.Loading
import ScriptCheck.Tree.Text

/-! Nodes are loaded from the objects that they are written as. The members of a kind are listed
with what they hold; each is read back alone, and a kind is made again of all of them. -/
namespace ScriptCheck

/-- What a member of a node holds. Members that are absent hold nothing. -/
inductive Content where
  | node (n : Node)
  | given (n : Node)
  | nodes (ns : List Node)
  | text (s : String)
  | givenText (s : String)
  | flag (b : Bool)
  | number (x : Binary64)
  | branches (test body : String) (bs : List Branch)
  | params (ps : List Param)
  | parts (ps : List Part)
  | entries (es : List Entry)

namespace Content

def shape : Content → Shape
  | .node _ => .node
  | .given _ => .maybeNode
  | .nodes _ => .nodes
  | .text _ => .text
  | .givenText _ => .maybeText
  | .flag _ => .flag
  | .number _ => .number
  | .branches test body _ => .branches test body
  | .params _ => .params
  | .parts _ => .parts
  | .entries _ => .entries

def toJson : Content → Json
  | .node n | .given n => n.toJson
  | .nodes ns => .array (nodesToJson ns)
  | .text s | .givenText s => .string s
  | .flag b => .bool b
  | .number x => .number (.real x)
  | .branches test body bs => .array (branchesToJson test body bs)
  | .params ps => .array (paramsToJson ps)
  | .parts ps => .array (partsToJson ps)
  | .entries es => .object (entriesToJson es)

def field : Content → Field
  | .node n => .node n
  | .given n => .maybeNode (some n)
  | .nodes ns => .nodes ns
  | .text s => .text s
  | .givenText s => .maybeText (some s)
  | .flag b => .flag b
  | .number x => .number x
  | .branches _ _ bs => .branches bs
  | .params ps => .params ps
  | .parts ps => .parts ps
  | .entries es => .entries es

/- The nodes that stand directly in it. -/
def inner : Content → List Node
  | .node n | .given n => [n]
  | .nodes ns => ns
  | .text _ | .givenText _ | .flag _ | .number _ => []
  | .branches _ _ bs => bs.flatMap Branch.nodes
  | .params ps => ps.flatMap fun p => p.declared.toList
  | .parts ps => ps.flatMap Part.nodes
  | .entries es => es.map Entry.value

end Content

abbrev Contents := List (String × Content)

namespace Contents

def written (cs : Contents) : List (String × Json) := cs.map fun c => (c.1, c.2.toJson)

def fields (cs : Contents) : Fields := cs.map fun c => (c.1, c.2.field)

def maybe (name : String) (n : Option Node) : Contents := (n.map fun n => (name, .given n)).toList

end Contents

open Contents (maybe)

def Kind.contents : Kind → Contents
  | .define name declared value mutable =>
    ("name", .text name) :: maybe "varType" declared ++
      [("expr", .node value), ("mut", .flag mutable)]
  | .assign dest value | .adjust _ dest value => [("dest", .node dest), ("expr", .node value)]
  | .ret value => [("expr", .node value)]
  | .forLoop var low high times body =>
    (var.map fun v => ("var", .givenText v)).toList ++ maybe "from" low ++ maybe "to" high ++
      maybe "times" times ++ [("for", .node body)]
  | .eachLoop var items body => [("var", .text var), ("items", .node items), ("for", .node body)]
  | .loop body | .block body => [("statements", .nodes body)]
  | .ns name members => [("name", .text name), ("members", .nodes members)]
  | .ifElse cond yes elseifs no =>
    ("cond", .node cond) :: ("then", .node yes) :: ("elseif", .branches "cond" "then" elseifs) ::
      maybe "else" no
  | .function params result body =>
    ("args", .params params) :: maybe "retType" result ++ [("children", .nodes body)]
  | .select about arms default =>
    ("about", .node about) :: ("qs", .branches "q" "a" arms) :: maybe "default" default
  | .call target args => [("target", .node target), ("args", .nodes args)]
  | .not operand => [("expr", .node operand)]
  | .logic _ left right => [("left", .node left), ("right", .node right)]
  | .template parts => [("tmpl", .parts parts)]
  | .index target key => [("target", .node target), ("index", .node key)]
  | .prop target name => [("target", .node target), ("name", .text name)]
  | .str value => [("value", .text value)]
  | .num value => [("value", .number value)]
  | .bool value => [("value", .flag value)]
  | .arr items => [("value", .nodes items)]
  | .obj entries => [("value", .entries entries)]
  | .ident name => [("name", .text name)]
  | .namedType name inner => ("name", .text name) :: maybe "inner" inner
  | .fnType params result => [("args", .nodes params), ("result", .node result)]
  | .brk | .cont | .null | .other => []

theorem optional_eq (name : String) (n : Option Node) :
    optional name n = Contents.written (maybe name n) := by
  cases n with
  | none => simp [optional, maybe, Contents.written]
  | some n => simp [optional, maybe, Contents.written, Content.toJson]

theorem Kind.members_eq (kind : Kind) : kind.members = kind.contents.written := by
  cases kind with
  | forLoop var low high times body =>
    cases var <;> simp [members, contents, optional_eq, Contents.written, Content.toJson]
  | _ => simp [members, contents, optional_eq, Contents.written, Content.toJson]

theorem forall_mem_maybe {name : String} {n : Option Node} {P : String × Content → Prop} :
    (∀ c ∈ maybe name n, P c) ↔ ∀ m ∈ n, P (name, .given m) := by
  cases n <;> simp [maybe]

theorem Kind.contents_parts (kind : Kind) :
    ∀ c ∈ kind.contents, ∀ m ∈ c.2.inner, m ∈ kind.parts := by
  cases kind <;>
    simp only [contents, parts, Content.inner, List.forall_mem_cons, List.forall_mem_append,
      forall_mem_maybe]
  all_goals simp +contextual

theorem Kind.contents_known (kind : Kind) :
    ∀ c ∈ kind.contents, kind.tag.schema.lookup c.1 = some c.2.shape := by
  cases kind with
  | adjust how => cases how <;>
      simp [contents, tag, Adjustment.tag, Tag.schema, Content.shape, List.lookup_cons]
  | logic how => cases how <;>
      simp [contents, tag, Connective.tag, Tag.schema, Content.shape, List.lookup_cons]
  | _ =>
    simp only [contents, tag, Tag.schema, Content.shape, List.forall_mem_cons,
      List.forall_mem_append, forall_mem_maybe]
    simp [List.lookup_cons]

theorem Kind.contents_names (kind : Kind) : (kind.contents.map Prod.fst).Nodup := by
  cases kind with
  | define name declared => cases declared <;> simp [contents, maybe]
  | forLoop var low high times =>
    cases var <;> cases low <;> cases high <;> cases times <;> simp [contents, maybe]
  | ifElse cond yes elseifs no => cases no <;> simp [contents, maybe]
  | function params result => cases result <;> simp [contents, maybe]
  | select about arms default => cases default <;> simp [contents, maybe]
  | namedType name inner => cases inner <;> simp [contents, maybe]
  | _ => simp [contents]

theorem Kind.ofFields_contents (kind : Kind) :
    Kind.ofFields kind.contents.fields kind.tag = .ok kind := by
  cases kind with
  | define name declared => cases declared <;> rfl
  | forLoop var low high times =>
    cases var <;> cases low <;> cases high <;> cases times <;> rfl
  | adjust how => cases how <;> rfl
  | logic how => cases how <;> rfl
  | ifElse cond yes elseifs no => cases no <;> rfl
  | function params result => cases result <;> rfl
  | select about arms default => cases default <;> rfl
  | namedType name inner => cases inner <;> rfl
  | _ => rfl

/-! Loading -/

/- What a member is read as. -/
def Shape.read : Shape → Json → Except ShapeError Field
  | .node, j => .node <$> Node.ofJson j
  | .maybeNode, .null => .ok (.maybeNode none)
  | .maybeNode, j => (.maybeNode ∘ some) <$> Node.ofJson j
  | .nodes, .array js => .nodes <$> nodesOf js
  | .text, j => .text <$> textOf j
  | .maybeText, .null => .ok (.maybeText none)
  | .maybeText, j => (.maybeText ∘ some) <$> textOf j
  | .flag, j => .flag <$> flagOf j
  | .number, j => .number <$> numberOf j
  | .branches test body, .array js => .branches <$> branchesOf test body js
  | .params, .array js => .params <$> paramsOf js
  | .parts, .array js => .parts <$> partsOf js
  | .entries, .object ms => .entries <$> entriesOf [] ms
  | _, _ => .error .unsuitable

theorem fieldsOf_known {schema : List (String × Shape)} {key : String} {shape : Shape}
    (known : schema.lookup key = some shape) {seen : Fields} (new : seen.lookup key = none)
    (j : Json) (rest : List (String × Json)) :
    fieldsOf schema seen ((key, j) :: rest) =
      shape.read j >>= fun field => fieldsOf schema (seen ++ [(key, field)]) rest := by
  rw [fieldsOf]
  simp only [known, new, Option.isSome_none, Bool.false_eq_true, if_false]
  cases shape <;> cases j <;> rfl

theorem fieldsOf_others {schema : List (String × Shape)} {seen : Fields}
    {ms : List (String × Json)} (unknown : ∀ m ∈ ms, schema.lookup m.1 = none) :
    fieldsOf schema seen ms = .ok seen := by
  induction ms with
  | nil => rw [fieldsOf]
  | cons m ms ih =>
    rw [List.forall_mem_cons] at unknown
    obtain ⟨key, j⟩ := m
    rw [fieldsOf]
    simp only [unknown.1]
    exact ih unknown.2

/- The member is read as what it holds. -/
def Content.Loads (c : Content) : Prop := c.shape.read c.toJson = .ok c.field

theorem fieldsOf_contents {schema : List (String × Shape)} {cs : Contents}
    (known : ∀ c ∈ cs, schema.lookup c.1 = some c.2.shape) (loads : ∀ c ∈ cs, c.2.Loads)
    (names : (cs.map Prod.fst).Nodup) {others : List (String × Json)}
    (unknown : ∀ m ∈ others, schema.lookup m.1 = none) :
    fieldsOf schema [] (cs.written ++ others) = .ok cs.fields := by
  have onward (seen : Fields) (new : ∀ c ∈ cs, seen.lookup c.1 = none) :
      fieldsOf schema seen (cs.written ++ others) = .ok (seen ++ cs.fields) := by
    induction cs generalizing seen with
    | nil => simpa [Contents.written, Contents.fields] using fieldsOf_others unknown
    | cons c cs ih =>
      rw [List.forall_mem_cons] at known loads new
      rw [List.map_cons, List.nodup_cons] at names
      have later : ∀ d ∈ cs, (seen ++ [(c.1, c.2.field)]).lookup d.1 = none := by
        intro d h
        have other : d.1 ≠ c.1 := fun same => names.1 (same ▸ List.mem_map_of_mem h)
        simp [List.lookup_append, new.2 d h, List.lookup_cons, beq_false_of_ne other]
      have rest := ih known.2 loads.2 names.2 _ later
      change fieldsOf schema seen ((c.1, c.2.toJson) :: (Contents.written cs ++ others)) = _
      rw [fieldsOf_known known.1 new.1, loads.1]
      change fieldsOf schema (seen ++ [(c.1, c.2.field)]) (Contents.written cs ++ others) = _
      rw [rest, List.append_assoc]
      rfl
  exact onward [] fun _ _ => rfl

theorem nodesOf_written {ns : List Node} (each : ∀ n ∈ ns, Node.ofJson n.toJson = .ok n) :
    nodesOf (nodesToJson ns) = .ok ns := by
  induction ns with
  | nil => rfl
  | cons n ns ih =>
    rw [List.forall_mem_cons] at each
    rw [nodesToJson, nodesOf, each.1, ih each.2]
    rfl

theorem branchesOf_written {test body : String} (apart : test ≠ body) {bs : List Branch}
    (each : ∀ n ∈ bs.flatMap Branch.nodes, Node.ofJson n.toJson = .ok n) :
    branchesOf test body (branchesToJson test body bs) = .ok bs := by
  induction bs with
  | nil => rfl
  | cons branch bs ih =>
    obtain ⟨t, b⟩ := branch
    simp only [List.flatMap_cons, Branch.nodes, List.cons_append, List.nil_append,
      List.forall_mem_cons] at each
    obtain ⟨first, second, others⟩ := each
    let cs : Contents := [(test, .node t), (body, .node b)]
    have swapped : (body == test) = false := beq_false_of_ne apart.symm
    have fields : fieldsOf [(test, .node), (body, .node)] [] (cs.written ++ []) =
        .ok cs.fields := by
      apply fieldsOf_contents
      · simp [cs, Content.shape, List.lookup_cons, swapped]
      · simp [cs, Content.Loads, Content.shape, Content.toJson, Content.field, Shape.read, first,
          second]
      · simp [cs, apart]
      · simp
    have named : cs.fields.node test = .ok t ∧ cs.fields.node body = .ok b := by
      simp [cs, Contents.fields, Fields.node, Content.field, List.lookup_cons, swapped]
    have object : Json.object [(test, t.toJson), (body, b.toJson)] =
        .object (cs.written ++ []) := rfl
    rw [branchesToJson, object, branchesOf, ih others]
    simp only [fields, named, Bind.bind, Except.bind, Pure.pure, Except.pure]

theorem Node.toJson_object (n : Node) : ∃ ms, n.toJson = .object ms := by
  cases n with
  | mk kind loc => exact ⟨_, Node.toJson.eq_1 kind loc⟩

theorem Content.loads_given {n : Node} (read : Node.ofJson n.toJson = .ok n) :
    (Content.given n).Loads := by
  obtain ⟨ms, object⟩ := n.toJson_object
  rw [object] at read
  simp only [Loads, shape, toJson, field, object, Shape.read, read]
  rfl

theorem paramsOf_written {ps : List Param}
    (each : ∀ n ∈ ps.flatMap fun p => p.declared.toList, Node.ofJson n.toJson = .ok n) :
    paramsOf (paramsToJson ps) = .ok ps := by
  induction ps with
  | nil => rfl
  | cons param ps ih =>
    obtain ⟨name, declared⟩ := param
    rw [List.flatMap_cons, List.forall_mem_append] at each
    obtain ⟨first, others⟩ := each
    let cs : Contents := ("name", .text name) :: maybe "argType" declared
    have fields : fieldsOf [("name", .text), ("argType", .maybeNode)] [] (cs.written ++ []) =
        .ok cs.fields := by
      apply fieldsOf_contents
      · exact List.forall_mem_cons.mpr ⟨rfl, forall_mem_maybe.mpr fun n _ => rfl⟩
      · refine List.forall_mem_cons.mpr ⟨rfl, forall_mem_maybe.mpr fun n h => ?_⟩
        exact Content.loads_given (first n (Option.mem_toList.mpr h))
      · cases declared <;> simp [cs, maybe]
      · simp
    have named : cs.fields.text "name" = .ok name ∧ cs.fields.maybeNode "argType" = declared := by
      cases declared <;> exact ⟨rfl, rfl⟩
    have object : ("name", Json.string name) :: optional "argType" declared = cs.written ++ [] := by
      rw [optional_eq, List.append_nil]
      rfl
    rw [paramsToJson, object, paramsOf, ih others]
    simp only [fields, named, Bind.bind, Except.bind, Pure.pure, Except.pure]

theorem partsOf_written {ps : List Part}
    (each : ∀ n ∈ ps.flatMap Part.nodes, Node.ofJson n.toJson = .ok n) :
    partsOf (partsToJson ps) = .ok ps := by
  induction ps with
  | nil => rfl
  | cons p ps ih =>
    rw [List.flatMap_cons, List.forall_mem_append] at each
    cases p with
    | text s =>
      rw [partsToJson, partsOf, ih each.2]
      rfl
    | expr e =>
      obtain ⟨ms, object⟩ := e.toJson_object
      have first : Node.ofJson e.toJson = .ok e := each.1 e (List.mem_singleton_self e)
      rw [object] at first
      rw [partsToJson, object, partsOf, ih each.2, first]
      · rfl
      · simp

theorem putEntry_new {key : String} {es : List Entry} (new : key ∉ es.map Entry.key)
    (value : Node) : putEntry key value es = es ++ [.mk key value] := by
  induction es with
  | nil => rfl
  | cons e es ih =>
    obtain ⟨k, v⟩ := e
    rw [List.map_cons, List.mem_cons, not_or] at new
    have other : k ≠ key := Ne.symm new.1
    rw [putEntry, if_neg other, ih new.2]
    rfl

theorem entriesOf_written {es : List Entry} (keys : (es.map Entry.key).Nodup)
    (each : ∀ n ∈ es.map Entry.value, Node.ofJson n.toJson = .ok n) :
    entriesOf [] (entriesToJson es) = .ok es := by
  have onward (seen : List Entry) (new : ((seen ++ es).map Entry.key).Nodup) :
      entriesOf seen (entriesToJson es) = .ok (seen ++ es) := by
    clear keys
    induction es generalizing seen with
    | nil => rw [entriesToJson, entriesOf, List.append_nil]
    | cons e es ih =>
      obtain ⟨key, value⟩ := e
      rw [List.map_cons, List.forall_mem_cons] at each
      have fresh : key ∉ seen.map Entry.key := by
        intro h
        rw [List.map_append, List.nodup_append] at new
        exact new.2.2 key h key List.mem_cons_self rfl
      have first : Node.ofJson value.toJson = .ok value := each.1
      rw [entriesToJson, entriesOf, first]
      change entriesOf (putEntry key value seen) _ = _
      rw [putEntry_new fresh, ih each.2 _ (by simpa using new), List.append_assoc]
      rfl
  exact onward [] keys

/- Branches name two different members, and the keys of entries are distinct. -/
def Content.Sound : Content → Prop
  | .branches test body _ => test ≠ body
  | .entries es => (es.map Entry.key).Nodup
  | _ => True

theorem Content.loads {c : Content} (sound : c.Sound)
    (each : ∀ n ∈ c.inner, Node.ofJson n.toJson = .ok n) : c.Loads := by
  cases c with
  | node n =>
    change Field.node <$> Node.ofJson n.toJson = _
    rw [each n (List.mem_singleton_self n)]
    rfl
  | given n => exact loads_given (each n (List.mem_singleton_self n))
  | nodes ns =>
    change Field.nodes <$> nodesOf (nodesToJson ns) = _
    rw [@nodesOf_written ns each]
    rfl
  | branches test body bs =>
    change Field.branches <$> branchesOf test body (branchesToJson test body bs) = _
    rw [branchesOf_written sound each]
    rfl
  | params ps =>
    change Field.params <$> paramsOf (paramsToJson ps) = _
    rw [paramsOf_written each]
    rfl
  | parts ps =>
    change Field.parts <$> partsOf (partsToJson ps) = _
    rw [partsOf_written each]
    rfl
  | entries es =>
    change Field.entries <$> entriesOf [] (entriesToJson es) = _
    rw [entriesOf_written sound each]
    rfl
  | text | givenText | flag | number => rfl

theorem Tag.ofName_name (tag : Tag) : Tag.ofName tag.name = tag := by
  cases tag <;> rfl

/- No kind has a member that is named like its tag or its place. -/
theorem Tag.schema_reserved (tag : Tag) :
    tag.schema.lookup "type" = none ∧ tag.schema.lookup "loc" = none := by
  cases tag <;> exact ⟨rfl, rfl⟩

theorem Kind.contents_reserved (kind : Kind) :
    ∀ m ∈ kind.members, m.1 ≠ "type" ∧ m.1 ≠ "loc" := by
  intro m h
  rw [members_eq] at h
  obtain ⟨c, listed, rfl⟩ := List.mem_map.mp h
  have known := kind.contents_known c listed
  constructor
  · intro same
    rw [show c.1 = "type" from same, kind.tag.schema_reserved.1] at known
    cases known
  · intro same
    rw [show c.1 = "loc" from same, kind.tag.schema_reserved.2] at known
    cases known

theorem tagOf_others {tag : Tag} {ms : List (String × Json)} (others : ∀ m ∈ ms, m.1 ≠ "type") :
    tagOf (some tag) ms = .ok tag := by
  induction ms with
  | nil => rfl
  | cons m ms ih =>
    rw [List.forall_mem_cons] at others
    rw [tagOf, if_neg others.1]
    exact ih others.2

theorem tagOf_type (tag : Tag) {ms : List (String × Json)} (others : ∀ m ∈ ms, m.1 ≠ "type") :
    tagOf none (("type", .string tag.name) :: ms) = .ok tag := by
  have named : Tag.ofJson (.string tag.name) = .ok tag := by rw [Tag.ofJson, Tag.ofName_name]
  rw [tagOf, if_pos rfl, named]
  exact tagOf_others others

theorem placeOf_others {ms : List (String × Json)} (others : ∀ m ∈ ms, m.1 ≠ "loc")
    (seen : Option (Option Span)) (rest : List (String × Json)) :
    placeOf seen (ms ++ rest) = placeOf seen rest := by
  induction ms with
  | nil => rfl
  | cons m ms ih =>
    rw [List.forall_mem_cons] at others
    rw [List.cons_append, placeOf, if_neg others.1]
    exact ih others.2

theorem locOf_written (s : Span) : locOf s.toJson = .ok (some s) := by
  simp only [Span.toJson, locOf, spanMembers, offsetOf, PartialSpan.finish]
  rfl

/- What is written of a node, its place apart. -/
def Kind.tagged (kind : Kind) : List (String × Json) :=
  ("type", .string kind.tag.name) :: kind.members

/- What is written of the place of a node. -/
def places (loc : Option Span) : List (String × Json) :=
  (loc.map fun s => ("loc", s.toJson)).toList

theorem Node.toJson_mk (kind : Kind) (loc : Option Span) :
    (Node.mk kind loc).toJson = .object (kind.tagged ++ places loc) := by
  rw [Node.toJson]
  rfl

theorem Kind.tagged_unplaced (kind : Kind) : ∀ m ∈ kind.tagged, m.1 ≠ "loc" :=
  List.forall_mem_cons.mpr ⟨(by decide : "type" ≠ "loc"), fun m h => (kind.contents_reserved m h).2⟩

/- The kind that the members of a node make. -/
def kindOf (ms : List (String × Json)) : Except ShapeError Kind := do
  let tag ← tagOf none ms
  Kind.ofFields (← fieldsOf tag.schema [] ms) tag

theorem kindOf_tagged {kind : Kind} (loads : ∀ c ∈ kind.contents, c.2.Loads)
    {places : List (String × Json)} (place : ∀ m ∈ places, m.1 = "loc") :
    kindOf (kind.tagged ++ places) = .ok kind := by
  have others : ∀ m ∈ kind.members ++ places, m.1 ≠ "type" := by
    rw [List.forall_mem_append]
    refine ⟨fun m h => (kind.contents_reserved m h).1, fun m h => ?_⟩
    rw [place m h]
    decide
  have unknown : ∀ m ∈ places, kind.tag.schema.lookup m.1 = none := by
    intro m h
    rw [place m h]
    exact kind.tag.schema_reserved.2
  have tag : tagOf none (kind.tagged ++ places) = .ok kind.tag := tagOf_type kind.tag others
  have fields : fieldsOf kind.tag.schema [] (kind.tagged ++ places) = .ok kind.contents.fields := by
    rw [Kind.tagged, List.cons_append, fieldsOf, kind.members_eq]
    simp only [kind.tag.schema_reserved.1]
    exact fieldsOf_contents kind.contents_known loads kind.contents_names unknown
  simp only [kindOf, tag, Bind.bind, Except.bind, fields]
  exact kind.ofFields_contents

theorem Node.ofJson_object (ms : List (String × Json)) :
    Node.ofJson (.object ms) = placeOf none ms >>= fun loc => kindOf ms >>= fun kind =>
      .ok (.mk kind loc) := by
  rw [Node.ofJson]
  simp only [kindOf, bind_assoc]
  rfl

theorem Outer.toNode_eq (o : Outer) :
    o.toNode = kindOf o.members >>= fun kind => .ok (.mk kind (o.loc.getD none)) := by
  simp only [toNode, kindOf, bind_assoc]
  rfl

namespace Node

/- It holds of the kinds of all nodes in a node. -/
def Everywhere (P : Kind → Prop) (n : Node) : Prop := ∀ m : Node, m.Within n → P m.kind

theorem Everywhere.part {P : Kind → Prop} {n p : Node} (all : n.Everywhere P)
    (direct : p ∈ n.kind.parts) : p.Everywhere P :=
  fun m inside => all m (.part direct inside)

theorem everywhere_mk {P : Kind → Prop} {kind : Kind} {loc : Option Span} :
    (Node.mk kind loc).Everywhere P ↔ P kind ∧ ∀ p ∈ kind.parts, p.Everywhere P := by
  constructor
  · intro all
    exact ⟨all _ .self, fun p direct => all.part direct⟩
  · rintro ⟨here, parts⟩ m inside
    rcases Node.within_iff.mp inside with rfl | ⟨p, direct, inside⟩
    · exact here
    · exact parts p direct m inside

end Node

/- Two entries of an object do not share their key. -/
def Kind.DistinctKeys (kind : Kind) : Prop := ∀ es, kind = .obj es → (es.map Entry.key).Nodup

theorem Kind.DistinctKeys.sound {kind : Kind} (distinct : kind.DistinctKeys) :
    ∀ c ∈ kind.contents, c.2.Sound := by
  cases kind with
  | obj es => simpa [contents, Content.Sound] using distinct es rfl
  | _ =>
    simp only [contents, Content.Sound, List.forall_mem_cons, List.forall_mem_append,
      forall_mem_maybe]
    simp

theorem Node.contents_load {n : Node} (distinct : n.Everywhere Kind.DistinctKeys)
    (each : ∀ p ∈ n.kind.parts, Node.ofJson p.toJson = .ok p) :
    ∀ c ∈ n.kind.contents, c.2.Loads := by
  intro c listed
  have sound := (distinct n .self).sound c listed
  exact Content.loads sound fun p h => each p (n.kind.contents_parts c listed p h)

theorem Node.ofJson_toJson {n : Node} (distinct : n.Everywhere Kind.DistinctKeys) :
    Node.ofJson n.toJson = .ok n := by
  induction n using Node.induction with
  | step n ih =>
    have loads := n.contents_load distinct fun p h => ih p h (distinct.part h)
    obtain ⟨kind, loc⟩ := n
    change ∀ c ∈ kind.contents, c.2.Loads at loads
    have place : ∀ m ∈ places loc, m.1 = "loc" := by
      cases loc <;> simp [places]
    have placed : placeOf none (kind.tagged ++ places loc) = .ok loc := by
      rw [placeOf_others kind.tagged_unplaced]
      cases loc with
      | none => rfl
      | some s =>
        change (locOf s.toJson >>= fun l => placeOf (some l) []) = _
        rw [locOf_written]
        rfl
    rw [Node.toJson_mk, Node.ofJson_object, placed, kindOf_tagged loads place]
    rfl

end ScriptCheck
