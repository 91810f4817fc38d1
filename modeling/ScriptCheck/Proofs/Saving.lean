import ScriptCheck.Proofs.Records

/-! Programs that were saved load again. The text of a program loads as that program if it has at
most 127 arrays and objects open at a time, and is malformed otherwise. Since lists are written
even where a text may leave them out, a program that was loaded may not load again. -/
namespace ScriptCheck

open Json (Answers Exact within stops_nil skipSpace_cons)

/-! Numbers -/

/- The text of a number reads back as that number. Reading may round twice, so not every double has
such a text. -/
def Kind.ExactNumber (kind : Kind) : Prop :=
  ∀ x, kind = .num x → (Json.Number.real x).ReadsBack ShapeError

theorem nodesToJson_eq (ns : List Node) : nodesToJson ns = ns.map Node.toJson := by
  induction ns with
  | nil => rfl
  | cons n ns ih => rw [nodesToJson, ih, List.map_cons]

theorem branchesToJson_exact {test body : String} {bs : List Branch}
    (each : ∀ n ∈ bs.flatMap Branch.nodes, n.toJson.Exact ShapeError) :
    ∀ j ∈ branchesToJson test body bs, j.Exact ShapeError := by
  induction bs with
  | nil => simp [branchesToJson]
  | cons b bs ih =>
    obtain ⟨t, b⟩ := b
    simp only [List.flatMap_cons, Branch.nodes, List.cons_append, List.nil_append,
      List.forall_mem_cons] at each
    obtain ⟨first, second, others⟩ := each
    rw [branchesToJson, List.forall_mem_cons]
    refine ⟨.object ?_, ih others⟩
    simp [first, second]

theorem paramsToJson_exact {ps : List Param}
    (each : ∀ n ∈ ps.flatMap fun p => p.declared.toList, n.toJson.Exact ShapeError) :
    ∀ j ∈ paramsToJson ps, j.Exact ShapeError := by
  induction ps with
  | nil => simp [paramsToJson]
  | cons p ps ih =>
    obtain ⟨name, declared⟩ := p
    rw [List.flatMap_cons, List.forall_mem_append] at each
    rw [paramsToJson, List.forall_mem_cons]
    refine ⟨.object (List.forall_mem_cons.mpr ⟨.string name, ?_⟩), ih each.2⟩
    cases declared with
    | none => simp [optional]
    | some n => simpa [optional] using each.1 n (by simp [Param.declared])

theorem partsToJson_exact {ps : List Part}
    (each : ∀ n ∈ ps.flatMap Part.nodes, n.toJson.Exact ShapeError) :
    ∀ j ∈ partsToJson ps, j.Exact ShapeError := by
  induction ps with
  | nil => simp [partsToJson]
  | cons p ps ih =>
    rw [List.flatMap_cons, List.forall_mem_append] at each
    cases p with
    | text s =>
      rw [partsToJson, List.forall_mem_cons]
      exact ⟨.string s, ih each.2⟩
    | expr e =>
      rw [partsToJson, List.forall_mem_cons]
      exact ⟨each.1 e (List.mem_singleton_self e), ih each.2⟩

theorem entriesToJson_exact {es : List Entry}
    (each : ∀ n ∈ es.map Entry.value, n.toJson.Exact ShapeError) :
    ∀ m ∈ entriesToJson es, m.2.Exact ShapeError := by
  induction es with
  | nil => simp [entriesToJson]
  | cons e es ih =>
    obtain ⟨key, value⟩ := e
    rw [List.map_cons, List.forall_mem_cons] at each
    rw [entriesToJson, List.forall_mem_cons]
    exact ⟨each.1, ih each.2⟩

theorem Content.exact {c : Content}
    (number : ∀ x, c = .number x → (Json.Number.real x).ReadsBack ShapeError)
    (each : ∀ n ∈ c.inner, n.toJson.Exact ShapeError) : c.toJson.Exact ShapeError := by
  cases c with
  | node n | given n => exact each n (List.mem_singleton_self n)
  | nodes ns =>
    rw [toJson, nodesToJson_eq]
    exact .array (List.forall_mem_map.mpr each)
  | text s | givenText s => exact .string s
  | flag b => exact .bool b
  | number x => exact .number (number x rfl)
  | branches test body bs => exact .array (branchesToJson_exact each)
  | params ps => exact .array (paramsToJson_exact each)
  | parts ps => exact .array (partsToJson_exact each)
  | entries es => exact .object (entriesToJson_exact each)

theorem Kind.ExactNumber.contents {kind : Kind} (exact : kind.ExactNumber) :
    ∀ c ∈ kind.contents, ∀ x, c.2 = .number x → (Json.Number.real x).ReadsBack ShapeError := by
  cases kind with
  | num x => simpa [Kind.contents] using exact x rfl
  | _ =>
    simp only [Kind.contents, List.forall_mem_cons, List.forall_mem_append, forall_mem_maybe]
    simp

theorem Span.toJson_exact (s : Span) : s.toJson.Exact ShapeError := by
  refine .object ?_
  simp only [List.forall_mem_cons]
  exact ⟨.number (.natural _), .number (.natural _), by simp⟩

theorem places_exact (loc : Option Span) : ∀ m ∈ places loc, m.2.Exact ShapeError := by
  cases loc with
  | none => simp [places]
  | some s => simpa [places] using s.toJson_exact

theorem Node.tagged_exact {n : Node} (exact : n.Everywhere Kind.ExactNumber)
    (each : ∀ p ∈ n.kind.parts, p.toJson.Exact ShapeError) :
    ∀ m ∈ n.kind.tagged, m.2.Exact ShapeError := by
  refine List.forall_mem_cons.mpr ⟨.string _, ?_⟩
  rw [Kind.members_eq]
  refine List.forall_mem_map.mpr fun c listed => ?_
  apply Content.exact ((exact n .self).contents c listed)
  exact fun p h => each p (n.kind.contents_parts c listed p h)

theorem Node.toJson_exact {n : Node} (exact : n.Everywhere Kind.ExactNumber) :
    n.toJson.Exact ShapeError := by
  induction n using Node.induction with
  | step n ih =>
    have tagged := n.tagged_exact exact fun p h => ih p h (exact.part h)
    obtain ⟨kind, loc⟩ := n
    rw [Node.toJson_mk]
    exact .object (List.forall_mem_append.mpr ⟨tagged, places_exact loc⟩)

/-! Outermost nodes -/

theorem readOffset_answers (n : UInt64) :
    Answers readOffset (Json.Number.natural n).text.toList (.ok n) := by
  intro rest stops
  have back : (Json.Number.natural n).ReadsBack ShapeError := .natural n
  obtain ⟨c, cs, text, head⟩ := back.head
  obtain ⟨visible, _⟩ := Json.numberHead_other head
  have read := back.followed stops
  rw [text, List.cons_append] at read ⊢
  have sign : (c = '-' || c.isDigit) = true := by simpa using head
  rw [readOffset, skipSpace_cons visible]
  simp only [sign, if_true, read]
  rfl

/- What is known of a place once one of its members has been read. -/
def PartialSpan.take (s : Span) (seen : PartialSpan) (m : String × Json) :
    Except LoadError PartialSpan :=
  if m.1 = "start" then
    if seen.start.isSome then .error (.refused (.duplicateField "start"))
    else .ok { seen with start := some s.start }
  else if seen.stop.isSome then .error (.refused (.duplicateField "end"))
  else .ok { seen with stop := some s.stop }

theorem readSpanMember_answers (s : Span) :
    ∀ m ∈ [("start", Json.number (.natural s.start)), ("end", Json.number (.natural s.stop))],
      ∀ seen, Answers (readSpanMember seen m.1) (':' :: m.2.compact.toList) (seen.take s m) := by
  simp only [List.forall_mem_cons]
  refine ⟨?_, ?_, by simp⟩
  · intro seen rest stops
    simp only [readSpanMember, PartialSpan.take, if_true]
    cases seen.start with
    | some n => rfl
    | none =>
      have offset := readOffset_answers s.start rest stops
      simp only [Json.compact, List.cons_append, Json.colon_cons, Json.ok_bind, offset]
      rfl
  · intro seen rest stops
    have other : ("end" = "start") = False := by simp
    simp only [readSpanMember, PartialSpan.take, other, if_false, if_true]
    cases seen.stop with
    | some n => rfl
    | none =>
      have offset := readOffset_answers s.stop rest stops
      simp only [Json.compact, List.cons_append, Json.colon_cons, Json.ok_bind, offset]
      rfl

theorem readLoc_answers (s : Span) (d : Nat) :
    Answers (readLoc d) s.toJson.compact.toList (within d s.toJson (some s)) := by
  intro rest stops
  rw [Span.toJson, Json.compact_object, List.cons_append, readLoc, skipSpace_cons (by decide)]
  cases d with
  | zero => rfl
  | succ d =>
    have members := Json.readMembers_answers (readSpanMember_answers s) ⟨none, none⟩ rest stops
    simp only [Nat.add_one_ne_zero, if_false, members]
    rfl

/- What is known of an outermost node once one of its members has been read. -/
def Outer.take (d : Nat) (loc : Option Span) (seen : Outer) (m : String × Json) :
    Except LoadError Outer :=
  if m.1 = "loc" then
    if seen.loc.isSome then .error (.refused (.duplicateField "loc"))
    else within d m.2 { seen with loc := some loc }
  else within d m.2 { seen with members := seen.members ++ [m] }

theorem readOuterMember_answers {ms : List (String × Json)} (exact : ∀ m ∈ ms, m.2.Exact ShapeError)
    (unplaced : ∀ m ∈ ms, m.1 ≠ "loc") (loc : Option Span) (d : Nat) :
    ∀ m ∈ ms ++ places loc, ∀ seen, Answers (readOuterMember d seen m.1)
      (':' :: m.2.compact.toList) (seen.take d loc m) := by
  rw [List.forall_mem_append]
  constructor
  · intro m listed seen rest stops
    have value := Json.readValue_answers (exact m listed) d rest stops
    simp only [readOuterMember, Outer.take, unplaced m listed, if_false, List.cons_append,
      Json.colon_cons, Json.ok_bind, value, Json.within_map, Json.within_bind]
    rfl
  · cases loc with
    | none => simp [places]
    | some s =>
      simp only [places, Option.map_some, Option.toList_some, List.forall_mem_singleton]
      intro seen rest stops
      simp only [readOuterMember, Outer.take, if_true]
      cases seen.loc with
      | some l => rfl
      | none =>
        have place := readLoc_answers s d rest stops
        simp only [Option.isSome_none, Bool.false_eq_true, if_false, List.cons_append,
          Json.colon_cons, Json.ok_bind, place, Json.within_map, Json.within_bind]
        rfl

theorem foldlM_take {ms : List (String × Json)} (unplaced : ∀ m ∈ ms, m.1 ≠ "loc")
    (loc : Option Span) (d : Nat) (seen : List (String × Json)) :
    (ms ++ places loc).foldlM (Outer.take d loc) ⟨none, seen⟩ =
      within (d + 1) (.object (ms ++ places loc)) ⟨loc.map some, seen ++ ms⟩ := by
  induction ms generalizing seen with
  | nil =>
    rw [List.append_nil]
    cases loc with
    | none => rfl
    | some s =>
      change (within d s.toJson _ >>= pure) = within (d + 1) (.object (("loc", s.toJson) :: [])) _
      rw [← Json.within_cons, Json.within_bind]
      rfl
  | cons m ms ih =>
    rw [List.forall_mem_cons] at unplaced
    rw [List.cons_append, List.foldlM_cons, Outer.take, if_neg unplaced.1, Json.within_bind,
      ih unplaced.2, Json.within_cons, List.append_assoc, List.singleton_append]

theorem readNode_answers {ms : List (String × Json)} (exact : ∀ m ∈ ms, m.2.Exact ShapeError)
    (unplaced : ∀ m ∈ ms, m.1 ≠ "loc") {kind : Kind} (made : kindOf ms = .ok kind)
    (loc : Option Span) (d : Nat) :
    Answers (readNode d) (Json.object (ms ++ places loc)).compact.toList
      (within d (.object (ms ++ places loc)) (.mk kind loc)) := by
  intro rest stops
  rw [Json.compact_object, List.cons_append, readNode, skipSpace_cons (by decide)]
  cases d with
  | zero => rfl
  | succ d =>
    have each := readOuterMember_answers exact unplaced loc d
    have members := Json.readMembers_answers each ⟨none, []⟩ rest stops
    have node : Outer.toNode ⟨loc.map some, ms⟩ = .ok (.mk kind loc) := by
      rw [Outer.toNode_eq, made]
      cases loc <;> rfl
    rw [foldlM_take unplaced, List.nil_append, Json.within_map] at members
    simp only [members, Json.within_bind, Json.within_map, node]
    rfl

theorem readNode_toJson {n : Node} (distinct : n.Everywhere Kind.DistinctKeys)
    (exact : n.Everywhere Kind.ExactNumber) (d : Nat) :
    Answers (readNode d) n.toJson.compact.toList (within d n.toJson n) := by
  have loads := n.contents_load distinct fun p h => Node.ofJson_toJson (distinct.part h)
  have tagged := n.tagged_exact exact fun p h => Node.toJson_exact (exact.part h)
  obtain ⟨kind, loc⟩ := n
  have made : kindOf (kind.tagged ++ []) = .ok kind := kindOf_tagged loads (by simp)
  rw [List.append_nil] at made
  rw [Node.toJson_mk]
  exact readNode_answers tagged kind.tagged_unplaced made loc d

theorem Program.parse_compact {p : Program} {write : Node → Json}
    (each : ∀ n ∈ p, ∀ d, Answers (readNode d) (write n).compact.toList (within d (write n) n))
    (exact : ∀ n ∈ p, (write n).Exact ShapeError) :
    Program.parse (Json.array (p.map write)).compact =
      within 127 (.array (p.map write)) p := by
  have begins := fun n h => (exact n h).spells_compact.begins
  have items := Json.readItems_answers (fun n h => each n h 126) begins [] stops_nil
  rw [Json.mapM_within 126 write, List.append_nil] at items
  have whole : readProgram 127 (Json.array (p.map write)).compact.toList =
      (within 127 (.array (p.map write)) p).map (·, []) := by
    rw [Json.compact_array, readProgram, skipSpace_cons (by decide)]
    exact items
  simp only [Program.parse, Json.readWhole, Json.depthLimit, whole, Json.within_map,
    Json.within_bind]
  rfl

theorem Program.toJson_eq (p : Program) : p.toJson = .array (p.map Node.toJson) := by
  rw [Program.toJson, nodesToJson_eq]

theorem Program.nesting_text {p : Program} (exact : ∀ n ∈ p, n.Everywhere Kind.ExactNumber) :
    Json.nesting p.text = p.toJson.depth := by
  have written : p.toJson.Exact ShapeError := by
    rw [Program.toJson_eq]
    exact .array (List.forall_mem_map.mpr fun n h => Node.toJson_exact (exact n h))
  exact Json.nesting_compact written

theorem Program.parse_saved {p : Program} (distinct : ∀ n ∈ p, n.Everywhere Kind.DistinctKeys)
    (exact : ∀ n ∈ p, n.Everywhere Kind.ExactNumber) :
    Program.parse p.text = if Json.nesting p.text ≤ 127 then .ok p else .error .malformed := by
  have parsed := Program.parse_compact
    (fun n h => readNode_toJson (distinct n h) (exact n h)) fun n h => Node.toJson_exact (exact n h)
  rw [← Program.toJson_eq] at parsed
  rw [Program.nesting_text exact]
  exact parsed

/-! Programs that load once -/

/- Returns around a function, with nothing written that can be left out. -/
def bareReturns : Nat → Json
  | 0 => .object [("type", .string "fn")]
  | k + 1 => .object [("type", .string "return"), ("expr", bareReturns k)]

def returns : Nat → Node
  | 0 => .mk (.function [] none []) none
  | k + 1 => .mk (.ret (returns k)) none

theorem bareReturns_exact (k : Nat) : (bareReturns k).Exact ShapeError := by
  induction k with
  | zero => exact .object (by simp [Exact.string])
  | succ k ih => exact .object (by simp [Exact.string, ih])

theorem bareReturns_depth (k : Nat) : (bareReturns k).depth = k + 1 := by
  induction k with
  | zero => rfl
  | succ k ih => simp [bareReturns, Json.depth, Json.membersDepth, ih]

theorem returns_depth (k : Nat) : (returns k).toJson.depth = k + 2 := by
  induction k with
  | zero => rfl
  | succ k ih =>
    simp [returns, Node.toJson, Kind.members, Json.depth, Json.membersDepth, ih]

theorem kindOf_return {j : Json} {n : Node} (read : Node.ofJson j = .ok n) :
    kindOf [("type", .string "return"), ("expr", j)] = .ok (.ret n) := by
  have fields : fieldsOf Tag.ret.schema [] [("type", .string "return"), ("expr", j)] =
      .ok [("expr", .node n)] := by
    rw [fieldsOf]
    simp only [Tag.ret.schema_reserved.1]
    have known : Tag.ret.schema.lookup "expr" = some .node := rfl
    rw [fieldsOf_known known rfl, Shape.read, read]
    change fieldsOf Tag.ret.schema [("expr", .node n)] [] = _
    rw [fieldsOf]
  have tag : tagOf none [("type", .string "return"), ("expr", j)] = .ok .ret :=
    tagOf_type .ret (by simp)
  simp only [kindOf, tag, fields, Json.ok_bind]
  rfl

theorem ofJson_bareReturns (k : Nat) : Node.ofJson (bareReturns k) = .ok (returns k) := by
  induction k with
  | zero => rfl
  | succ k ih =>
    rw [bareReturns, Node.ofJson_object, kindOf_return ih]
    rfl

theorem readNode_bareReturns (k d : Nat) :
    Answers (readNode d) (bareReturns (k + 1)).compact.toList
      (within d (bareReturns (k + 1)) (returns (k + 1))) := by
  have exact : ∀ m ∈ [("type", Json.string "return"), ("expr", bareReturns k)],
      m.2.Exact ShapeError := by
    simp [Exact.string, bareReturns_exact]
  have unplaced : ∀ m ∈ [("type", Json.string "return"), ("expr", bareReturns k)],
      m.1 ≠ "loc" := by simp
  exact readNode_answers exact unplaced (kindOf_return (ofJson_bareReturns k)) none d

theorem returns_everywhere {P : Kind → Prop} (function : P (.function [] none []))
    (ret : ∀ n, P (.ret n)) (k : Nat) : (returns k).Everywhere P := by
  induction k with
  | zero => simpa [returns, Node.everywhere_mk, Kind.parts] using function
  | succ k ih => simpa [returns, Node.everywhere_mk, Kind.parts] using ⟨ret (returns k), ih⟩

/- The limit lies between the two ways of writing the same program. -/
theorem Program.loads_once : ∃ (text : String) (p : Program), Json.nesting text = 127 ∧
    Program.parse text = .ok p ∧ Json.nesting p.text = 128 ∧
    Program.parse p.text = .error .malformed := by
  let p : Program := [returns 125]
  have distinct : ∀ n ∈ p, n.Everywhere Kind.DistinctKeys := by
    simp only [p, List.forall_mem_singleton]
    exact returns_everywhere (by simp [Kind.DistinctKeys]) (by simp [Kind.DistinctKeys]) 125
  have exact : ∀ n ∈ p, n.Everywhere Kind.ExactNumber := by
    simp only [p, List.forall_mem_singleton]
    exact returns_everywhere (by simp [Kind.ExactNumber]) (by simp [Kind.ExactNumber]) 125
  have deep : Json.nesting p.text = 128 := by
    rw [nesting_text exact, toJson_eq]
    simp [p, Json.depth, Json.itemsDepth, returns_depth]
  refine ⟨(Json.array [bareReturns 125]).compact, p, ?_, ?_, deep, ?_⟩
  · have written : (Json.array [bareReturns 125]).Exact ShapeError :=
      .array (List.forall_mem_singleton.mpr (bareReturns_exact 125))
    rw [Json.nesting_compact written]
    simp [Json.depth, Json.itemsDepth, bareReturns_depth]
  · have each : ∀ n ∈ p, ∀ d, Answers (readNode d) (bareReturns 125).compact.toList
        (within d (bareReturns 125) n) := by
      simpa [p] using readNode_bareReturns 124
    have parsed := Program.parse_compact each fun _ _ => bareReturns_exact 125
    simp only [p, List.map_cons, List.map_nil] at parsed
    rw [parsed, within, if_pos (by simp [Json.depth, Json.itemsDepth, bareReturns_depth])]
  · rw [parse_saved distinct exact, deep]
    rfl

/-- Saving and loading are inverse as far as the loader goes down. The limit is one of texts and not
of programs: some program loads from a text at the limit and is itself written beyond it. -/
theorem Program.parse_text_by_nesting :
    (∀ p : Program, (∀ n ∈ p, n.Everywhere Kind.DistinctKeys) →
      (∀ n ∈ p, n.Everywhere Kind.ExactNumber) →
      Program.parse p.text = if Json.nesting p.text ≤ 127 then .ok p else .error .malformed) ∧
    ∃ (text : String) (p : Program), Json.nesting text = 127 ∧ Program.parse text = .ok p ∧
      Json.nesting p.text = 128 ∧ Program.parse p.text = .error .malformed :=
  ⟨fun _ distinct exact => parse_saved distinct exact, loads_once⟩

/- A tenth, which no double is exactly. -/
def tenth : Binary64 := ⟨false, 4591870180066957722, by decide⟩

/- A quote in a key, a tab in a template, a place, and a number. -/
def quotedRecord : Node :=
  .mk (.define "r" none (.mk (.obj [.mk "say \"hi\"" (.mk (.num tenth) none),
    .mk "tab" (.mk (.template [.text "\t", .expr (.mk (.ident "r") none)]) none)]) (some ⟨8, 40⟩))
    false) none

theorem Program.parse_text_by_nesting_quoted :
    (∀ n ∈ [quotedRecord], n.Everywhere Kind.DistinctKeys) ∧
    (∀ n ∈ [quotedRecord], n.Everywhere Kind.ExactNumber) ∧
    Json.nesting (Program.text [quotedRecord]) ≤ 127 ∧
    Program.parse (Program.text [quotedRecord]) = .ok [quotedRecord] := by
  have distinct : ∀ n ∈ [quotedRecord], n.Everywhere Kind.DistinctKeys := by
    simp [quotedRecord, Node.everywhere_mk, Kind.parts, Part.nodes, Entry.value, Kind.DistinctKeys,
      Entry.key]
  have exact : ∀ n ∈ [quotedRecord], n.Everywhere Kind.ExactNumber := by
    have back : (Json.Number.real tenth).ReadsBack ShapeError := by
      unfold Json.Number.ReadsBack
      decide +kernel
    simpa [quotedRecord, Node.everywhere_mk, Kind.parts, Part.nodes, Entry.value,
      Kind.ExactNumber] using back
  have shallow : Json.nesting (Program.text [quotedRecord]) ≤ 127 := by
    rw [Program.nesting_text exact]
    decide
  refine ⟨distinct, exact, shallow, ?_⟩
  rw [parse_text_by_nesting.1 [quotedRecord] distinct exact, if_pos shallow]

end ScriptCheck
