import Mathlib.Data.List.DropRight
import ScriptCheck.Proofs.Records
import ScriptCheck.Proofs.Streaming

/-! Outermost nodes are loaded while the text is being read, inner ones from values that have been
read before. Where the text is a JSON value within the limits, both ways give the same program or
both fail; only what is reported may differ. -/
namespace ScriptCheck

open Json (Tracks readValue strict skipSpace refuse readValue_found readItems_tracks
  readMembers_tracks memberWith ok_bind)

def Json.ofText (text : String) : Except LoadError Json :=
  Json.readWhole (readValue strict Json.depthLimit) text

theorem refuse_fails {α : Type} (cause : ShapeError) (cs : List Char) :
    (refuse cause cs : Except LoadError (α × List Char)).toOption = none := by
  unfold refuse
  split
  · rfl
  · rfl
  · rw [toOption_bind]
    cases (readValue strict 0 _ : Except LoadError _).toOption <;> rfl

theorem skipSpace_skipSpace (cs : List Char) : skipSpace (skipSpace cs) = skipSpace cs :=
  List.dropWhile_idempotent _ cs

/-! Places -/

theorem readOffset_tracks (d : Nat) :
    Tracks (readValue strict d) readOffset fun j => (offsetOf j).toOption := by
  intro cs j rest read
  have other {c : Char} {more : List Char} (front : skipSpace cs = c :: more)
      (unsigned : (c = '-' || c.isDigit) = false) : (readOffset cs).toOption = none := by
    rw [readOffset, front]
    simp only [unsigned, Bool.false_eq_true, if_false]
    exact refuse_fails _ _
  cases readValue_found read with
  | null front _ | yes front _ | no front _ | string front _ => exact other front rfl
  | array front _ _ | object front _ _ => exact other front rfl
  | @number c more _ n front head read =>
    have sign : (c = '-' || c.isDigit) = true := by simpa using head
    have number : Json.readNumber (c :: more) = .ok (n, rest) := read
    rw [readOffset, front]
    simp only [sign, if_true, number, ok_bind]
    cases n <;> rfl

theorem found_front {d : Nat} {cs rest : List Char} {j : Json}
    (found : Json.Found (strict : Json.Leaves ShapeError) d cs j rest) :
    ∃ c more, skipSpace cs = c :: more ∧ c ≠ ']' ∧ c ≠ ',' := by
  cases found with
  | null front _ | yes front _ | no front _ | string front _ => exact ⟨_, _, front, by decide⟩
  | array front _ _ | object front _ _ => exact ⟨_, _, front, by decide⟩
  | number front head _ =>
    refine ⟨_, _, front, ?_, ?_⟩
    · rintro rfl
      revert head
      decide
    · rintro rfl
      revert head
      decide

theorem readOffset_skipSpace (cs : List Char) : readOffset (skipSpace cs) = readOffset cs := by
  rw [readOffset, readOffset, skipSpace_skipSpace]

theorem readNextOffset_first {d : Nat} {cs behind : List Char} {j : Json}
    (read : readValue strict d (skipSpace cs) = (.ok (j, behind) : Except LoadError _)) :
    (readNextOffset true cs).toOption = (offsetOf j).toOption.map (·, behind) := by
  obtain ⟨c, more, front, unclosed, apart⟩ := found_front (readValue_found read)
  rw [skipSpace_skipSpace] at front
  have next : readNextOffset true cs = readOffset (skipSpace cs) := by
    rw [front]
    unfold readNextOffset
    rw [front]
    split <;> simp_all
  rw [next]
  exact readOffset_tracks d _ j behind read

theorem readNextOffset_second {d : Nat} {cs more behind : List Char} {j : Json}
    (comma : skipSpace cs = ',' :: more)
    (read : readValue strict d more = (.ok (j, behind) : Except LoadError _)) :
    (readNextOffset false cs).toOption = (offsetOf j).toOption.map (·, behind) := by
  obtain ⟨c, tail, front, unclosed, _⟩ := found_front (readValue_found read)
  have next : readNextOffset false cs = readOffset (skipSpace more) := by
    rw [front]
    unfold readNextOffset
    rw [comma]
    simp only [Bool.false_eq_true, if_false, front]
    split
    · simp_all
    · rfl
  rw [next, readOffset_skipSpace]
  exact readOffset_tracks d _ j behind read

theorem locOf_pair (a b : Json) :
    (locOf (.array [a, b])).toOption =
      (offsetOf a).toOption.bind fun m => (offsetOf b).toOption.map fun n => some ⟨m, n⟩ := by
  cases one : offsetOf a <;> cases other : offsetOf b <;> simp [locOf, one, other] <;> rfl

theorem readLoc_array {inner : Nat} {cs more rest : List Char} {js : List Json}
    (front : skipSpace cs = '[' :: more)
    (read : Json.readItems (readValue strict inner) more = (.ok (js, rest) : Except LoadError _)) :
    (readLoc (inner + 1) cs).toOption = (locOf (.array js)).toOption.map (·, rest) := by
  rw [readLoc, front]
  simp only [Nat.add_one_ne_zero, if_false, toOption_bind]
  unfold Json.readItems at read
  split at read
  · rename_i tail closed
    obtain ⟨rfl, rfl⟩ := Prod.mk.inj (Except.ok.inj read)
    simp only [readNextOffset, closed]
    rfl
  · cases read
  · obtain ⟨a, behind, first, next⟩ := Json.itemsFrom_cases read
    rw [readNextOffset_first first]
    rcases next with ⟨tail, ks, comma, others, rfl⟩ | ⟨closed, rfl⟩
    · generalize (skipSpace more).length = count at others
      cases count with
      | zero => simp [Json.itemsFrom] at others
      | succ count =>
        obtain ⟨b, last, second, next⟩ := Json.itemsFrom_cases others
        have stop := readNextOffset_second comma second
        rcases next with ⟨tail, ks, more, later, rfl⟩ | ⟨closed, rfl⟩
        · obtain ⟨c, ks, rfl⟩ := Json.itemsFrom_cons later
          have long : locOf (.array (a :: b :: c :: ks)) = .error .unsuitable := rfl
          rw [long]
          cases (offsetOf a).toOption <;> cases two : (offsetOf b).toOption <;>
            simp [stop, two, more]
        · rw [locOf_pair]
          cases (offsetOf a).toOption <;> cases two : (offsetOf b).toOption <;>
            simp [stop, two, closed, pure_eq_ok]
    · have none : (readNextOffset false behind).toOption = none := by
        simp only [readNextOffset, closed]
        rfl
      have short : locOf (.array [a]) = .error .unsuitable := rfl
      rw [short]
      cases (offsetOf a).toOption <;> simp [none]

/-- What is known of a place once a further member has been read. -/
def PartialSpan.step (seen : PartialSpan) (m : String × Json) : Option PartialSpan :=
  if m.1 = "start" then
    if seen.start.isSome then none
    else (offsetOf m.2).toOption.map fun n => { seen with start := some n }
  else if m.1 = "end" then
    if seen.stop.isSome then none
    else (offsetOf m.2).toOption.map fun n => { seen with stop := some n }
  else some seen

theorem spanMembers_steps (seen : PartialSpan) (ms : List (String × Json)) :
    (spanMembers seen ms).toOption =
      (ms.foldlM PartialSpan.step seen).bind fun s => s.finish.toOption := by
  induction ms generalizing seen with
  | nil => rfl
  | cons m rest ih =>
    rw [spanMembers, List.foldlM_cons, PartialSpan.step]
    split
    · split
      · rfl
      · rw [toOption_bind]
        cases (offsetOf m.2).toOption with
        | none => rfl
        | some n => exact ih _
    · split
      · split
        · rfl
        · rw [toOption_bind]
          cases (offsetOf m.2).toOption with
          | none => rfl
          | some n => exact ih _
      · exact ih seen

theorem readSpanMember_steps {d : Nat} (key : String) (cs : List Char) (j : Json) (rest : List Char)
    (read : (Json.colon cs >>= readValue strict d : Except LoadError _) = .ok (j, rest))
    (seen : PartialSpan) :
    (readSpanMember seen key cs).toOption = (seen.step (key, j)).map (·, rest) := by
  obtain ⟨front, colon, read⟩ := bind_eq_ok.mp read
  have offset := readOffset_tracks d front j rest read
  simp only [readSpanMember, PartialSpan.step]
  split
  · split
    · rfl
    · simp only [colon, ok_bind, toOption_bind, offset]
      cases (offsetOf j).toOption <;> rfl
  · split
    · split
      · rfl
      · simp only [colon, ok_bind, toOption_bind, offset]
        cases (offsetOf j).toOption <;> rfl
    · simp only [colon, ok_bind, Json.skim_of_readValue read]
      rfl

theorem tracks_self {ε α : Type} (r : Json.Reader ε α) : Tracks r r fun x => some x := by
  intro cs x rest read
  rw [read]
  rfl

theorem readLoc_object {inner : Nat} {cs more rest : List Char} {ms : List (String × Json)}
    (front : skipSpace cs = '{' :: more)
    (read : Json.readMembers Json.readString (memberWith strict inner) [] more =
      (.ok (ms, rest) : Except LoadError _)) :
    (readLoc (inner + 1) cs).toOption = (locOf (.object ms)).toOption.map (·, rest) := by
  have members : (Json.readMembers Json.readString readSpanMember ⟨none, none⟩ more).toOption =
      (ms.foldlM PartialSpan.step ⟨none, none⟩).map (·, rest) :=
    readMembers_tracks (tracks_self _) readSpanMember_steps read ⟨none, none⟩
  rw [readLoc, front]
  simp only [Nat.add_one_ne_zero, if_false, toOption_bind, members, locOf, toOption_map,
    spanMembers_steps]
  cases ms.foldlM PartialSpan.step ⟨none, none⟩ with
  | none => rfl
  | some seen =>
    simp only [Option.map_some, Option.bind_some]
    cases seen.finish <;> rfl

theorem readLoc_tracks (d : Nat) :
    Tracks (readValue strict d) (readLoc d) fun j => (locOf j).toOption := by
  intro cs j rest read
  have other {c : Char} {more : List Char} (front : skipSpace cs = c :: more)
      (leaf : c ∉ ['n', '[', '{']) : (readLoc d cs).toOption = none := by
    unfold readLoc
    rw [front]
    split <;> simp_all [refuse_fails]
  cases readValue_found read with
  | null front read =>
    unfold readLoc
    rw [front]
    simp only [read, ok_bind]
    rfl
  | yes front _ => exact other front (by decide)
  | no front _ => exact other front (by decide)
  | string front _ => exact other front (by decide)
  | number front head _ =>
    obtain ⟨_, unlisted⟩ := Json.numberHead_other head
    exact other front fun listed => unlisted (by simp_all)
  | array front level items =>
    subst level
    exact readLoc_array front items
  | object front level members =>
    subst level
    exact readLoc_object front members

/-! Nodes -/

def Outer.step (seen : Outer) (m : String × Json) : Option Outer :=
  if m.1 = "loc" then
    if seen.loc.isSome then none
    else (locOf m.2).toOption.map fun loc => { seen with loc := some loc }
  else some { seen with members := seen.members ++ [m] }

theorem readOuterMember_steps {d : Nat} (key : String) (cs : List Char) (j : Json)
    (rest : List Char)
    (read : (Json.colon cs >>= readValue strict d : Except LoadError _) = .ok (j, rest))
    (seen : Outer) :
    (readOuterMember d seen key cs).toOption = (seen.step (key, j)).map (·, rest) := by
  obtain ⟨front, colon, read⟩ := bind_eq_ok.mp read
  have place := readLoc_tracks d front j rest read
  simp only [readOuterMember, Outer.step]
  split
  · split
    · rfl
    · simp only [colon, ok_bind, toOption_bind, place]
      cases (locOf j).toOption <;> rfl
  · simp only [colon, ok_bind, read]
    rfl

def unplaced (ms : List (String × Json)) : List (String × Json) := ms.filter fun m => m.1 ≠ "loc"

theorem tagOf_unplaced (seen : Option Tag) (ms : List (String × Json)) :
    tagOf seen (unplaced ms) = tagOf seen ms := by
  induction ms generalizing seen with
  | nil => rfl
  | cons m rest ih =>
    by_cases place : m.1 = "loc"
    · have skipped : unplaced (m :: rest) = unplaced rest := by simp [unplaced, place]
      rw [skipped, ih, tagOf, place, if_neg (by decide)]
    · have kept : unplaced (m :: rest) = m :: unplaced rest := by simp [unplaced, place]
      rw [kept, tagOf, tagOf]
      simp only [ih]

theorem fieldsOf_unplaced {schema : List (String × Shape)} (reserved : schema.lookup "loc" = none)
    (seen : Fields) (ms : List (String × Json)) :
    fieldsOf schema seen (unplaced ms) = fieldsOf schema seen ms := by
  induction ms generalizing seen with
  | nil => rfl
  | cons m rest ih =>
    obtain ⟨key, j⟩ := m
    by_cases place : key = "loc"
    · have skipped : unplaced ((key, j) :: rest) = unplaced rest := by simp [unplaced, place]
      rw [skipped, ih, fieldsOf]
      simp only [place, reserved]
    · have kept : unplaced ((key, j) :: rest) = (key, j) :: unplaced rest := by
        simp [unplaced, place]
      rw [kept, fieldsOf, fieldsOf]
      simp only [ih]

theorem kindOf_unplaced (ms : List (String × Json)) : kindOf (unplaced ms) = kindOf ms := by
  simp only [kindOf, tagOf_unplaced, fieldsOf_unplaced (Tag.schema_reserved _).2]

/-- The place is taken out of the members as they are read, or looked for in all of them. -/
theorem outer_steps (ms : List (String × Json)) :
    ((ms.foldlM Outer.step ⟨none, []⟩).bind fun o => o.toNode.toOption) =
      (Node.ofJson (.object ms)).toOption := by
  -- the members before `ms` have given `loc`, if it was among them, and `seen`
  have onward (loc : Option (Option Span)) (seen : List (String × Json)) :
      ((ms.foldlM Outer.step ⟨loc, seen⟩).bind fun o => o.toNode.toOption) =
        (placeOf loc ms).toOption.bind fun place =>
          (kindOf (seen ++ unplaced ms)).toOption.map fun kind => .mk kind place := by
    induction ms generalizing loc seen with
    | nil =>
      simp only [List.foldlM_nil, Option.pure_def, Option.bind_some, Outer.toNode_eq, toOption_bind,
        placeOf, unplaced, List.filter_nil, List.append_nil, toOption_ok]
      cases (kindOf seen).toOption <;> rfl
    | cons m rest ih =>
      rw [List.foldlM_cons, Outer.step, placeOf]
      by_cases place : m.1 = "loc"
      · have skipped : unplaced (m :: rest) = unplaced rest := by simp [unplaced, place]
        rw [if_pos place, if_pos place, skipped]
        split
        · rfl
        · rw [toOption_bind]
          cases (locOf m.2).toOption with
          | none => rfl
          | some l => exact ih (some l) seen
      · have kept : unplaced (m :: rest) = m :: unplaced rest := by simp [unplaced, place]
        rw [if_neg place, if_neg place, kept]
        have next := ih loc (seen ++ [m])
        rw [List.append_assoc, List.singleton_append] at next
        exact next
  rw [onward, Node.ofJson_object, List.nil_append, kindOf_unplaced, toOption_bind]
  congr
  funext place
  rw [toOption_bind]
  cases (kindOf ms).toOption <;> rfl

theorem readNode_tracks (d : Nat) :
    Tracks (readValue strict d) (readNode d) fun j => (Node.ofJson j).toOption := by
  intro cs j rest read
  have other {c : Char} {more : List Char} (front : skipSpace cs = c :: more)
      (plain : c ≠ '{') : (readNode d cs).toOption = none := by
    unfold readNode
    rw [front]
    split <;> simp_all [refuse_fails]
  cases readValue_found read with
  | null front _ | yes front _ | no front _ | string front _ => exact other front (by decide)
  | array front _ _ => exact other front (by decide)
  | number front head _ =>
    obtain ⟨_, unlisted⟩ := Json.numberHead_other head
    exact other front fun same => unlisted (by simp [same])
  | @object more _ inner ms front level members =>
    subst level
    have outer : (Json.readMembers Json.readString (readOuterMember inner) ⟨none, []⟩
        more).toOption = (ms.foldlM Outer.step ⟨none, []⟩).map (·, rest) :=
      readMembers_tracks (tracks_self _) readOuterMember_steps members ⟨none, []⟩
    dsimp only
    rw [← outer_steps]
    unfold readNode
    rw [front]
    simp only [toOption_bind, outer]
    cases ms.foldlM Outer.step ⟨none, []⟩ with
    | none => rfl
    | some o =>
      simp only [Option.map_some, Option.bind_some]
      cases o.toNode <;> rfl

/-! Programs -/

def programOf : Json → Except ShapeError Program
  | .array js => nodesOf js
  | _ => .error .unsuitable

theorem nodesOf_mapM (js : List Json) :
    (nodesOf js).toOption = js.mapM fun j => (Node.ofJson j).toOption := by
  refine mapM_of_cons (by rw [nodesOf]) (fun j rest => ?_) js
  simp only [nodesOf, toOption_bind, pure_eq_ok, toOption_ok, Option.map_eq_bind]
  rfl

theorem readProgram_tracks (d : Nat) :
    Tracks (readValue strict d) (readProgram d) fun j => (programOf j).toOption := by
  intro cs j rest read
  have other {c : Char} {more : List Char} (front : skipSpace cs = c :: more)
      (plain : c ≠ '[') : (readProgram d cs).toOption = none := by
    unfold readProgram
    rw [front]
    split <;> simp_all [refuse_fails]
  cases readValue_found read with
  | null front _ | yes front _ | no front _ | string front _ => exact other front (by decide)
  | object front _ _ => exact other front (by decide)
  | number front head _ =>
    obtain ⟨_, unlisted⟩ := Json.numberHead_other head
    exact other front fun same => unlisted (by simp [same])
  | @array more _ inner js front level items =>
    subst level
    dsimp only [programOf]
    rw [nodesOf_mapM]
    unfold readProgram
    rw [front]
    exact readItems_tracks (readNode_tracks inner) more js rest items

/-- Whether a text loads, and as what, can be told from the value that it holds. -/
theorem Program.parse_of_ofText {text : String} {j : Json} (valid : Json.ofText text = .ok j) :
    (Program.parse text).toOption = (programOf j).toOption := by
  obtain ⟨⟨value, rest⟩, read, done⟩ := bind_eq_ok.mp valid
  dsimp only at done
  split at done
  · rename_i ended
    obtain rfl := Except.ok.inj done
    have program := readProgram_tracks Json.depthLimit text.toList value rest read
    dsimp only at program
    rw [parse, Json.readWhole, toOption_bind, program]
    cases (programOf value).toOption with
    | none => rfl
    | some p =>
      simp only [Option.map_some, Option.bind_some, ended, if_true]
      rfl
  · cases done

end ScriptCheck
