import ScriptCheck.Proofs.Leaves

/-! Written values read back, with whatever blanks between their parts, if no more arrays and objects
are open at a time than the reader allows, and are malformed otherwise. How deep a value is can be
told from its compact text alone, by counting brackets outside strings. -/
namespace ScriptCheck.Json

variable {ε α β σ : Type}

/- The outcome of reading a text, in front of anything that cannot go on with a number. -/
def Answers (r : Reader ε α) (text : List Char) (outcome : Except (Fault ε) α) : Prop :=
  ∀ rest, Stops rest → r (text ++ rest) = outcome.map (·, rest)

theorem skipSpace_cons {c : Char} (visible : isSpace c = false) (cs : List Char) :
    skipSpace (c :: cs) = c :: cs := by
  simp [skipSpace, visible]

theorem ok_bind {γ : Type} (x : α) (next : α → Except γ β) : (Except.ok x >>= next) = next x := rfl

theorem colon_cons (cs : List Char) : (colon (':' :: cs) : Except (Fault ε) _) = .ok cs := rfl

/-! Blanks -/

def Blank (gap : List Char) : Prop := ∀ c ∈ gap, isSpace c = true

theorem blank_nil : Blank [] := fun c there => by cases there

theorem Blank.skipSpace {gap : List Char} (blank : Blank gap) (cs : List Char) :
    skipSpace (gap ++ cs) = Json.skipSpace cs :=
  List.dropWhile_append_of_pos blank

theorem Blank.stops {gap : List Char} (blank : Blank gap) {rest : List Char} (stops : Stops rest) :
    Stops (gap ++ rest) := by
  cases gap with
  | nil => exact stops
  | cons c gap =>
    have space := blank c List.mem_cons_self
    apply stops_cons
    simp only [isSpace, Bool.or_eq_true, beq_iff_eq] at space
    rcases space with ((rfl | rfl) | rfl) | rfl <;> rfl

def joined (gap : List Char) : List (List Char) → List Char
  | [] => []
  | t :: ts => gap ++ (t ++ ts.flatMap fun u => ',' :: (gap ++ u))

theorem toList_joined {list : List β → String} {gap : List Char} {text : β → List Char}
    (nil : list [] = "") (single : ∀ x, (list [x]).toList = gap ++ text x)
    (step : ∀ x y xs,
      (list (x :: y :: xs)).toList = gap ++ (text x ++ ',' :: (list (y :: xs)).toList))
    (xs : List β) : (list xs).toList = joined gap (xs.map text) := by
  induction xs with
  | nil => simp [nil, joined]
  | cons x xs ih =>
    cases xs with
    | nil => simpa [joined] using single x
    | cons y xs =>
      rw [step, ih]
      simp [joined]

theorem length_le_flatMap_comma (f : List Char → List Char) (ts : List (List Char)) :
    ts.length ≤ (ts.flatMap fun u => ',' :: f u).length := by
  induction ts with
  | nil => exact Nat.le_refl 0
  | cons t ts ih =>
    simp only [List.flatMap_cons, List.length_append, List.length_cons]
    omega

/-! Arrays -/

section

variable {item : Reader ε α} {text : β → List Char} {outcome : β → Except (Fault ε) α}
  {gap close : List Char}

theorem itemsFrom_skips (skips : ∀ cs, item (gap ++ cs) = item cs) (count : Nat)
    (cs : List Char) : itemsFrom item count (gap ++ cs) = itemsFrom item count cs := by
  cases count with
  | zero => rfl
  | succ count => rw [itemsFrom, itemsFrom, skips]

theorem itemsFrom_joined (skips : ∀ cs, item (gap ++ cs) = item cs) (blank : Blank close) {x : β}
    {xs : List β} (each : ∀ y ∈ x :: xs, Answers item (text y) (outcome y)) (more : Nat) :
    Answers (itemsFrom item (xs.length + 1 + more))
      (joined gap ((x :: xs).map text) ++ (close ++ [']'])) ((x :: xs).mapM outcome) := by
  induction xs generalizing x with
  | nil =>
    intro rest _
    have first := each x List.mem_cons_self (close ++ ']' :: rest)
      (blank.stops (stops_cons (by decide) rest))
    have laid : joined gap ([x].map text) ++ (close ++ [']']) ++ rest =
        gap ++ (text x ++ (close ++ ']' :: rest)) := by
      simp [joined]
    rw [laid, itemsFrom_skips skips, List.length_nil, Nat.add_right_comm 0 1, itemsFrom, first,
      List.mapM_cons]
    cases outcome x with
    | error fault => rfl
    | ok a =>
      simp only [Except.map, ok_bind, blank.skipSpace]
      rfl
  | cons y xs ih =>
    intro rest stops
    have first := each x List.mem_cons_self
      (',' :: (joined gap ((y :: xs).map text) ++ (close ++ ']' :: rest)))
      (stops_cons (by decide) _)
    have others := ih (fun z h => each z (List.mem_cons_of_mem x h)) rest stops
    simp only [List.append_assoc, List.singleton_append] at others
    have laid : joined gap ((x :: y :: xs).map text) ++ (close ++ [']']) ++ rest =
        gap ++ (text x ++ ',' :: (joined gap ((y :: xs).map text) ++ (close ++ ']' :: rest))) := by
      simp [joined]
    rw [laid, itemsFrom_skips skips, List.length_cons, Nat.add_right_comm _ 1 more, itemsFrom,
      first, List.mapM_cons]
    cases outcome x with
    | error fault => rfl
    | ok a =>
      change itemsFrom item (xs.length + 1 + more) _ >>= _ = _
      rw [others]
      cases (y :: xs).mapM outcome with
      | error fault => rfl
      | ok as => rfl

/- How a value can begin. -/
def Begins (text : List Char) : Prop := ∃ c cs, text = c :: cs ∧ isSpace c = false ∧ c ≠ ']'

theorem Begins.readItems {text : List Char} (begins : Begins text) (blank : Blank gap)
    (rest : List Char) :
    readItems item (gap ++ (text ++ rest)) =
      itemsFrom item ((text ++ rest).length + 1) (text ++ rest) := by
  obtain ⟨c, cs, rfl, visible, inner⟩ := begins
  unfold Json.readItems
  rw [blank.skipSpace, List.cons_append, skipSpace_cons visible]
  split
  · rename_i closed
    exact absurd (List.cons.inj closed).1 inner
  · rename_i none
    cases none
  · rfl

theorem readItems_joined (skips : ∀ cs, item (gap ++ cs) = item cs) (blankGap : Blank gap)
    (blankClose : Blank close) {xs : List β}
    (each : ∀ x ∈ xs, Answers item (text x) (outcome x)) (begins : ∀ x ∈ xs, Begins (text x)) :
    Answers (readItems item) (joined gap (xs.map text) ++ (close ++ [']']))
      (xs.mapM outcome) := by
  intro rest stops
  cases xs with
  | nil =>
    unfold readItems
    rw [List.map_nil, joined, List.nil_append, List.append_assoc, blankClose.skipSpace]
    rfl
  | cons x xs =>
    let behind := (xs.map text).flatMap fun u => ',' :: (gap ++ u)
    have laid : joined gap ((x :: xs).map text) ++ (close ++ [']']) ++ rest =
        gap ++ (text x ++ (behind ++ (close ++ ']' :: rest))) := by
      simp [joined, behind]
    obtain ⟨more, total⟩ : ∃ more,
        (text x ++ (behind ++ (close ++ ']' :: rest))).length + 1 = xs.length + 1 + more := by
      have count : (xs.map text).length ≤ behind.length := length_le_flatMap_comma ..
      rw [List.length_map] at count
      simp only [List.length_append]
      exact Nat.exists_eq_add_of_le (by omega)
    have answers := itemsFrom_joined skips blankClose each more rest stops
    rw [laid, itemsFrom_skips skips] at answers
    rw [laid, (begins x List.mem_cons_self).readItems blankGap, total]
    exact answers

end

/-! Objects -/

theorem quote_toList (s : String) :
    (quote s).toList = '"' :: (s.toList.flatMap escapeChar ++ ['"']) := by
  simp [quote]

section

variable {member : σ → String → Reader ε σ} {text : String × Json → List Char}
  {outcome : σ → String × Json → Except (Fault ε) σ} {gap close : List Char}

theorem membersFrom_blank (blank : Blank gap) (count : Nat) (s : σ) (cs : List Char) :
    membersFrom readString member count s (gap ++ cs) =
      membersFrom readString member count s cs := by
  cases count with
  | zero => rfl
  | succ count => rw [membersFrom, membersFrom, blank.skipSpace]

theorem membersFrom_quoted {s : σ} {key : String} {value : List Char} (count : Nat) :
    (∀ fault, member s key value = .error fault →
      membersFrom readString member (count + 1) s ((quote key).toList ++ value) =
        .error fault) ∧
    (∀ t last rest, member s key value = .ok (t, last) → skipSpace last = ',' :: rest →
      membersFrom readString member (count + 1) s ((quote key).toList ++ value) =
        membersFrom readString member count t rest) ∧
    (∀ t last rest, member s key value = .ok (t, last) → skipSpace last = '}' :: rest →
      membersFrom readString member (count + 1) s ((quote key).toList ++ value) =
        .ok (t, rest)) := by
  rw [membersFrom, quote_toList, List.cons_append, List.append_assoc, List.singleton_append,
    skipSpace_cons (by decide)]
  simp only [readString_quoted, ok_bind]
  refine ⟨?_, ?_, ?_⟩
  · intro fault read
    rw [read]
    rfl
  · intro t last rest read comma
    simp only [read, ok_bind, comma]
  · intro t last rest read closed
    simp only [read, ok_bind, closed]
    rfl

theorem membersFrom_joined (blankGap : Blank gap) (blankClose : Blank close) {m : String × Json}
    {ms : List (String × Json)}
    (each : ∀ l ∈ m :: ms, ∀ s, Answers (member s l.1) (text l) (outcome s l)) (more : Nat)
    (s : σ) :
    Answers (membersFrom readString member (ms.length + 1 + more) s)
      (joined gap ((m :: ms).map fun l => (quote l.1).toList ++ text l) ++ (close ++ ['}']))
      ((m :: ms).foldlM outcome s) := by
  induction ms generalizing m s with
  | nil =>
    intro rest _
    have first := each m List.mem_cons_self s (close ++ '}' :: rest)
      (blankClose.stops (stops_cons (by decide) rest))
    have laid : joined gap ([m].map fun l => (quote l.1).toList ++ text l) ++ (close ++ ['}']) ++
        rest = gap ++ ((quote m.1).toList ++ (text m ++ (close ++ '}' :: rest))) := by
      simp [joined]
    rw [laid, membersFrom_blank blankGap, List.length_nil, Nat.add_right_comm 0 1,
      List.foldlM_cons]
    cases taken : outcome s m with
    | error fault =>
      rw [taken] at first
      exact (membersFrom_quoted _).1 fault first
    | ok t =>
      rw [taken] at first
      exact (membersFrom_quoted _).2.2 t _ rest first (blankClose.skipSpace _)
  | cons l ms ih =>
    intro rest stops
    let others := joined gap ((l :: ms).map fun l => (quote l.1).toList ++ text l)
    have first := each m List.mem_cons_self s (',' :: (others ++ (close ++ '}' :: rest)))
      (stops_cons (by decide) _)
    have laid : joined gap ((m :: l :: ms).map fun l => (quote l.1).toList ++ text l) ++
        (close ++ ['}']) ++ rest =
        gap ++ ((quote m.1).toList ++ (text m ++ ',' :: (others ++ (close ++ '}' :: rest)))) := by
      simp [joined, others]
    rw [laid, membersFrom_blank blankGap, List.length_cons, Nat.add_right_comm _ 1 more,
      List.foldlM_cons]
    cases taken : outcome s m with
    | error fault =>
      rw [taken] at first
      exact (membersFrom_quoted _).1 fault first
    | ok t =>
      rw [taken] at first
      have later := ih (fun k h => each k (List.mem_cons_of_mem m h)) t rest stops
      simp only [List.append_assoc, List.singleton_append] at later
      rw [(membersFrom_quoted _).2.1 t _ _ first (skipSpace_cons (by decide) _)]
      exact later

theorem readMembers_joined (blankGap : Blank gap) (blankClose : Blank close)
    {ms : List (String × Json)}
    (each : ∀ m ∈ ms, ∀ s, Answers (member s m.1) (text m) (outcome s m)) (s : σ) :
    Answers (readMembers readString member s)
      (joined gap (ms.map fun m => (quote m.1).toList ++ text m) ++ (close ++ ['}']))
      (ms.foldlM outcome s) := by
  intro rest stops
  cases ms with
  | nil =>
    unfold readMembers
    rw [List.map_nil, joined, List.nil_append, List.append_assoc, blankClose.skipSpace]
    rfl
  | cons m ms =>
    let behind := (ms.map fun m => (quote m.1).toList ++ text m).flatMap fun u => ',' :: (gap ++ u)
    have laid : joined gap ((m :: ms).map fun m => (quote m.1).toList ++ text m) ++
        (close ++ ['}']) ++ rest =
        gap ++ ((quote m.1).toList ++ (text m ++ (behind ++ (close ++ '}' :: rest)))) := by
      simp [joined, behind]
    obtain ⟨more, total⟩ : ∃ more,
        ((quote m.1).toList ++ (text m ++ (behind ++ (close ++ '}' :: rest)))).length + 1 =
          ms.length + 1 + more := by
      have count : (ms.map fun m => (quote m.1).toList ++ text m).length ≤ behind.length :=
        length_le_flatMap_comma ..
      rw [List.length_map] at count
      simp only [List.length_append]
      exact Nat.exists_eq_add_of_le (by omega)
    have answers := membersFrom_joined blankGap blankClose each more s rest stops
    rw [laid, membersFrom_blank blankGap, ← total] at answers
    rw [laid]
    unfold readMembers
    rw [blankGap.skipSpace]
    rw [quote_toList, List.cons_append] at answers ⊢
    exact answers

end

/-! Depth -/

mutual
/-- How many arrays and objects are open at a time in the text of a value. -/
def depth : Json → Nat
  | .array items => itemsDepth items + 1
  | .object members => membersDepth members + 1
  | .null | .bool _ | .number _ | .string _ => 0

def itemsDepth : List Json → Nat
  | [] => 0
  | j :: rest => max j.depth (itemsDepth rest)

def membersDepth : List (String × Json) → Nat
  | [] => 0
  | (_, j) :: rest => max j.depth (membersDepth rest)
end

/-! Spellings -/

/-- A text of a value, with blanks between its parts. All numbers in it read back. -/
inductive Spells (ε : Type) : Json → List Char → Prop where
  | null : Spells ε .null "null".toList
  | bool (b : Bool) : Spells ε (.bool b) (if b then "true" else "false").toList
  | number {n : Number} (back : n.ReadsBack ε) : Spells ε (.number n) n.text.toList
  | string (s : String) : Spells ε (.string s) (quote s).toList
  | array {items : List Json} {gap close : List Char} {text : Json → List Char}
      (blankGap : Blank gap) (blankClose : Blank close)
      (each : ∀ j ∈ items, Spells ε j (text j)) :
    Spells ε (.array items) ('[' :: (joined gap (items.map text) ++ (close ++ [']'])))
  | object {members : List (String × Json)} {gap space close : List Char}
      {text : String × Json → List Char} (blankGap : Blank gap) (blankSpace : Blank space)
      (blankClose : Blank close) (each : ∀ m ∈ members, Spells ε m.2 (text m)) :
    Spells ε (.object members)
      ('{' :: (joined gap (members.map fun m =>
        (quote m.1).toList ++ ':' :: (space ++ text m)) ++ (close ++ ['}'])))

theorem numberHead_other {c : Char} (head : c = '-' ∨ c.isDigit = true) :
    isSpace c = false ∧ c ∉ [']', 'n', 't', 'f', '"', '[', '{'] := by
  constructor
  · by_contra space
    simp only [isSpace, Bool.not_eq_false, Bool.or_eq_true, beq_iff_eq] at space
    rcases space with ((rfl | rfl) | rfl) | rfl <;> revert head <;> decide
  · intro listed
    simp only [List.mem_cons, List.not_mem_nil, or_false] at listed
    rcases listed with rfl | rfl | rfl | rfl | rfl | rfl | rfl <;> revert head <;> decide

theorem Spells.begins {j : Json} {text : List Char} (spells : Spells ε j text) : Begins text := by
  cases spells with
  | null => exact ⟨'n', _, rfl, by decide⟩
  | bool b =>
    cases b with
    | true => exact ⟨'t', _, rfl, by decide⟩
    | false => exact ⟨'f', _, rfl, by decide⟩
  | number back =>
    obtain ⟨c, cs, text, numeric⟩ := back.head
    obtain ⟨visible, other⟩ := numberHead_other numeric
    exact ⟨c, cs, text, visible, fun h => other (by simp [h])⟩
  | string s => exact ⟨'"', _, quote_toList s, by decide⟩
  | array => exact ⟨'[', _, rfl, by decide⟩
  | object => exact ⟨'{', _, rfl, by decide⟩

/- The outcome for a value that fits, and the fault of one that does not. -/
def within (limit : Nat) (j : Json) (x : α) : Except (Fault ε) α :=
  if j.depth ≤ limit then .ok x else .error .malformed

theorem mapM_within (d : Nat) (write : α → Json) (xs : List α) :
    (xs.mapM fun x => within d (write x) x : Except (Fault ε) (List α)) =
      within (d + 1) (.array (xs.map write)) xs := by
  simp only [within, depth, Nat.add_le_add_iff_right]
  induction xs with
  | nil => rfl
  | cons x xs ih =>
    simp only [List.mapM_cons, List.map_cons, itemsDepth, Nat.max_le, ih]
    by_cases first : (write x).depth ≤ d
    · by_cases others : itemsDepth (xs.map write) ≤ d
      · rw [if_pos first, if_pos others, if_pos ⟨first, others⟩]
        rfl
      · rw [if_pos first, if_neg others, if_neg fun both => others both.2]
        rfl
    · rw [if_neg first, if_neg (show ¬(_ ∧ _) from fun both => first both.1)]
      rfl

theorem within_map (d : Nat) (j : Json) (x : α) (f : α → β) :
    (within d j x).map f = (within d j (f x) : Except (Fault ε) β) := by
  unfold within
  split <;> rfl

theorem within_bind (d : Nat) (j : Json) (x : σ) (next : σ → Except (Fault ε) α) :
    (within d j x >>= next) = if j.depth ≤ d then next x else .error .malformed := by
  unfold within
  split <;> rfl

theorem within_cons (d : Nat) (m : String × Json) (ms : List (String × Json)) (x : α) :
    (if m.2.depth ≤ d then within (d + 1) (.object ms) x else .error .malformed) =
      (within (d + 1) (.object (m :: ms)) x : Except (Fault ε) α) := by
  simp only [within, depth, membersDepth, Nat.add_le_add_iff_right, Nat.max_le]
  by_cases first : m.2.depth ≤ d
  · simp only [first, if_true, true_and]
  · rw [if_neg first, if_neg fun both => first both.1]

theorem foldlM_within (d : Nat) (next : σ → String × Json → σ) (ms : List (String × Json)) (s : σ) :
    (ms.foldlM (fun s m => within d m.2 (next s m)) s : Except (Fault ε) σ) =
      within (d + 1) (.object ms) (ms.foldl next s) := by
  induction ms generalizing s with
  | nil => rfl
  | cons m ms ih => rw [List.foldlM_cons, within_bind, ih, within_cons, List.foldl_cons]

def memberWith (leaves : Leaves ε) (d : Nat) (ms : List (String × Json)) (key : String) :
    Reader ε (List (String × Json)) := fun cs => do
  let (j, rest) ← readValue leaves d (← colon cs)
  return (ms ++ [(key, j)], rest)

section

variable {leaves : Leaves ε} {cs more : List Char}

theorem readValue_blank {gap : List Char} (blank : Blank gap) (d : Nat) (cs : List Char) :
    readValue leaves d (gap ++ cs) = readValue leaves d cs := by
  rw [readValue.eq_def, blank.skipSpace, ← readValue.eq_def]

theorem readValue_string (front : skipSpace cs = '"' :: more) (d : Nat) :
    readValue leaves d cs = leaves.string more >>= fun p => .ok (.string p.1, p.2) := by
  rw [readValue.eq_def, front]
  rfl

theorem readValue_numeric {c : Char} (front : skipSpace cs = c :: more)
    (head : c = '-' ∨ c.isDigit = true) (d : Nat) :
    readValue leaves d cs = leaves.number (c :: more) >>= fun p => .ok (.number p.1, p.2) := by
  obtain ⟨_, other⟩ := numberHead_other head
  have sign : (c = '-' || c.isDigit) = true := by simpa using head
  rw [readValue.eq_def, front]
  split
  case h_8 rest same =>
    obtain ⟨rfl, rfl⟩ := List.cons.inj same
    rw [if_pos sign]
    rfl
  all_goals simp_all

theorem readValue_items (front : skipSpace cs = '[' :: more) (d : Nat) :
    readValue leaves (d + 1) cs =
      readItems (readValue leaves d) more >>= fun p => .ok (.array p.1, p.2) := by
  rw [readValue.eq_def, front]
  rfl

theorem readValue_members (front : skipSpace cs = '{' :: more) (d : Nat) :
    readValue leaves (d + 1) cs =
      readMembers leaves.string (memberWith leaves d) [] more >>= fun p =>
        .ok (.object p.1, p.2) := by
  rw [readValue.eq_def, front]
  rfl

end

theorem memberWith_answers {d : Nat} {m : String × Json} {text space : List Char}
    (blank : Blank space) (seen : List (String × Json))
    (value : Answers (readValue (strict : Leaves ε) d) text (within d m.2 m.2)) :
    Answers (memberWith (strict : Leaves ε) d seen m.1) (':' :: (space ++ text))
      (within d m.2 (seen ++ [m])) := by
  intro rest stops
  simp only [memberWith, List.cons_append, List.append_assoc, colon_cons, ok_bind,
    readValue_blank blank, value rest stops, within_map, within_bind]
  rfl

theorem foldl_collect (ms seen : List (String × Json)) :
    ms.foldl (fun seen m => seen ++ [m]) seen = seen ++ ms := by
  induction ms generalizing seen with
  | nil => simp
  | cons m ms ih => simp [ih]

theorem Spells.answers {j : Json} {text : List Char} (spells : Spells ε j text) (limit : Nat) :
    Answers (readValue (strict : Leaves ε) limit) text (within limit j j) := by
  induction spells generalizing limit with
  | null =>
    intro rest _
    unfold readValue
    rfl
  | bool b =>
    intro rest _
    unfold readValue
    cases b <;> rfl
  | @number n back =>
    intro rest stops
    obtain ⟨c, cs, text, head⟩ := back.head
    have read := back.followed stops
    have front := skipSpace_cons (numberHead_other head).1 (cs ++ rest)
    rw [text, List.cons_append] at *
    rw [readValue_numeric front head]
    change readNumber _ >>= _ = _
    rw [read]
    rfl
  | string s =>
    intro rest _
    have front := skipSpace_cons (c := '"') rfl (s.toList.flatMap escapeChar ++ '"' :: rest)
    rw [quote_toList, List.cons_append, List.append_assoc, List.singleton_append,
      readValue_string front]
    change readString _ >>= _ = _
    rw [readString_quoted]
    rfl
  | @array items gap close text blankGap blankClose each ih =>
    intro rest stops
    cases limit with
    | zero =>
      unfold readValue
      rfl
    | succ d =>
      have all := readItems_joined (readValue_blank blankGap d) blankGap blankClose
        (fun j h => ih j h d) (fun j h => (each j h).begins) rest stops
      rw [mapM_within d fun j => j, List.map_id', within_map] at all
      rw [List.cons_append, readValue_items (skipSpace_cons rfl _), all, within_bind, within_map]
      rfl
  | @object members gap space close text blankGap blankSpace blankClose each ih =>
    intro rest stops
    cases limit with
    | zero =>
      unfold readValue
      rfl
    | succ d =>
      have each := fun m h seen => memberWith_answers blankSpace seen (ih m h d)
      have all := readMembers_joined blankGap blankClose each [] rest stops
      rw [foldlM_within d fun seen m => seen ++ [m], foldl_collect, List.nil_append,
        within_map] at all
      rw [List.cons_append, readValue_members (skipSpace_cons rfl _)]
      change readMembers readString _ _ _ >>= _ = _
      rw [all, within_bind, within_map]
      rfl

theorem Spells.readWhole {j : Json} {text close : List Char} (spells : Spells ε j text)
    (blank : Blank close) {limit : Nat} (fits : j.depth ≤ limit) :
    readWhole (readValue (strict : Leaves ε) limit) (String.ofList (text ++ close)) = .ok j := by
  have read := spells.answers limit close (by simpa using blank.stops stops_nil)
  have blanks : skipSpace close = [] := by
    rw [← List.append_nil close, blank.skipSpace]
    rfl
  rw [Json.readWhole, String.toList_ofList, read, within, if_pos fits]
  simp only [Except.map, ok_bind, blanks]
  rfl

/-! Compact texts -/

/-- Every number in the value reads back. -/
inductive Exact (ε : Type) : Json → Prop where
  | null : Exact ε .null
  | bool (b : Bool) : Exact ε (.bool b)
  | number {n : Number} (back : n.ReadsBack ε) : Exact ε (.number n)
  | string (s : String) : Exact ε (.string s)
  | array {items : List Json} (each : ∀ j ∈ items, Exact ε j) : Exact ε (.array items)
  | object {members : List (String × Json)} (each : ∀ m ∈ members, Exact ε m.2) :
    Exact ε (.object members)

theorem compact_array (items : List Json) :
    (Json.array items).compact.toList = '[' :: ((compactItems items).toList ++ [']']) := by
  simp [compact]

theorem compact_object (members : List (String × Json)) :
    (Json.object members).compact.toList =
      '{' :: ((compactMembers members).toList ++ ['}']) := by
  simp [compact, braced]

theorem compactItems_joined (items : List Json) :
    (compactItems items).toList = joined [] (items.map fun j => j.compact.toList) := by
  refine toList_joined rfl ?_ ?_ items
  · intro j
    simp [compactItems]
  · intro j k rest
    simp [compactItems]

theorem compactMembers_joined (members : List (String × Json)) :
    (compactMembers members).toList =
      joined [] (members.map fun m => (quote m.1).toList ++ ':' :: m.2.compact.toList) := by
  refine toList_joined rfl ?_ ?_ members
  · rintro ⟨key, j⟩
    simp [compactMembers]
  · rintro ⟨key, j⟩ l rest
    simp [compactMembers]

theorem Exact.spells_compact {j : Json} (exact : j.Exact ε) : Spells ε j j.compact.toList := by
  induction exact with
  | null => exact .null
  | bool b => exact .bool b
  | number back => exact .number back
  | string s => exact .string s
  | array each ih =>
    rw [compact_array, compactItems_joined]
    simpa using Spells.array blank_nil blank_nil ih
  | object each ih =>
    rw [compact_object, compactMembers_joined]
    simpa using Spells.object blank_nil blank_nil blank_nil ih

theorem readValue_answers {j : Json} (exact : j.Exact ε) (limit : Nat) :
    Answers (readValue (strict : Leaves ε) limit) j.compact.toList (within limit j j) :=
  exact.spells_compact.answers limit

theorem readItems_answers {item : Reader ε α} {write : β → Json}
    {outcome : β → Except (Fault ε) α} {xs : List β}
    (each : ∀ x ∈ xs, Answers item (write x).compact.toList (outcome x))
    (begins : ∀ x ∈ xs, Begins (write x).compact.toList) :
    Answers (readItems item) ((compactItems (xs.map write)).toList ++ [']']) (xs.mapM outcome) := by
  rw [compactItems_joined, List.map_map]
  exact readItems_joined (fun cs => rfl) blank_nil blank_nil each begins

theorem readMembers_answers {member : σ → String → Reader ε σ}
    {outcome : σ → String × Json → Except (Fault ε) σ} {ms : List (String × Json)}
    (each : ∀ m ∈ ms, ∀ s, Answers (member s m.1) (':' :: m.2.compact.toList) (outcome s m))
    (s : σ) :
    Answers (readMembers readString member s) ((compactMembers ms).toList ++ ['}'])
      (ms.foldlM outcome s) := by
  rw [compactMembers_joined]
  exact readMembers_joined blank_nil blank_nil each s

/-! Indented texts -/

theorem blank_newline (level : Nat) : Blank (newline level).toList := by
  intro c there
  have either : c = '\n' ∨ c = ' ' := by
    simp only [newline, String.toList_append, String.toList_ofList, List.mem_append,
      List.mem_replicate] at there
    exact there.imp (fun first => List.mem_singleton.mp first) And.right
  rcases either with rfl | rfl <;> rfl

theorem indentedItems_joined (level : Nat) (items : List Json) :
    (indentedItems level items).toList =
      joined (newline level).toList (items.map fun j => (j.indented level).toList) := by
  refine toList_joined rfl ?_ ?_ items
  · intro j
    simp [indentedItems]
  · intro j k rest
    simp [indentedItems]

theorem indentedMembers_joined (level : Nat) (members : List (String × Json)) :
    (indentedMembers level members).toList =
      joined (newline level).toList (members.map fun m =>
        (quote m.1).toList ++ ':' :: ([' '] ++ (m.2.indented level).toList)) := by
  refine toList_joined rfl ?_ ?_ members
  · rintro ⟨key, j⟩
    simp [indentedMembers]
  · rintro ⟨key, j⟩ l rest
    simp [indentedMembers]

theorem Exact.spells_indented {j : Json} (exact : j.Exact ε) (level : Nat) :
    Spells ε j (j.indented level).toList := by
  induction exact generalizing level with
  | null => exact .null
  | bool b => exact .bool b
  | number back => exact .number back
  | string s => exact .string s
  | @array items each ih =>
    cases items with
    | nil =>
      have none : ∀ j ∈ ([] : List Json), Spells ε j [] := fun j there => by cases there
      simpa [joined, indented] using Spells.array blank_nil blank_nil none
    | cons k items =>
      have text : ((Json.array (k :: items)).indented level).toList =
          '[' :: ((indentedItems (level + 1) (k :: items)).toList ++
            ((newline level).toList ++ [']'])) := by
        simp [indented]
      rw [text, indentedItems_joined]
      exact .array (blank_newline _) (blank_newline _) fun j there => ih j there (level + 1)
  | @object members each ih =>
    cases members with
    | nil =>
      have none : ∀ m ∈ ([] : List (String × Json)), Spells ε m.2 [] :=
        fun m there => by cases there
      simpa [joined, indented] using Spells.object blank_nil blank_nil blank_nil none
    | cons l members =>
      have text : ((Json.object (l :: members)).indented level).toList =
          '{' :: ((indentedMembers (level + 1) (l :: members)).toList ++
            ((newline level).toList ++ ['}'])) := by
        simp [indented, braced]
      have space : Blank [' '] := List.forall_mem_singleton.mpr rfl
      rw [text, indentedMembers_joined]
      exact .object (blank_newline _) space (blank_newline _) fun m there => ih m there (level + 1)

/-! Nesting -/

inductive Place where
  | outside
  | quoted
  | escaped

def Place.next (c : Char) : Place → Place
  | .outside => if c = '"' then .quoted else .outside
  | .quoted => if c = '"' then .outside else if c = '\\' then .escaped else .quoted
  | .escaped => .quoted

def openAfter (level : Nat) (c : Char) : Place → Nat
  | .outside =>
    if c = '[' ∨ c = '{' then level + 1 else if c = ']' ∨ c = '}' then level - 1 else level
  | .quoted | .escaped => level

def nestingFrom (level : Nat) (place : Place) : List Char → Nat
  | [] => level
  | c :: cs => max level (nestingFrom (openAfter level c place) (place.next c) cs)

/-- The most arrays and objects that a text has open at a time. -/
def nesting (text : String) : Nat := nestingFrom 0 .outside text.toList

theorem le_nestingFrom (level : Nat) (place : Place) (cs : List Char) :
    level ≤ nestingFrom level place cs := by
  cases cs with
  | nil => exact Nat.le_refl level
  | cons c cs => exact Nat.le_max_left ..

/- A character that leaves the level alone leaves no trace. -/
theorem nestingFrom_same {level : Nat} {place : Place} {c : Char}
    (same : openAfter level c place = level) (cs : List Char) :
    nestingFrom level place (c :: cs) = nestingFrom level (place.next c) cs := by
  rw [nestingFrom, same]
  exact Nat.max_eq_right (le_nestingFrom ..)

def isInert (c : Char) : Bool := !(['"', '[', ']', '{', '}'].contains c)

theorem inert_of_numeric {c : Char} (numeric : isNumeric c = true) : isInert c = true := by
  by_contra listed
  simp only [isInert, List.contains_eq_mem, List.mem_cons, List.not_mem_nil, or_false,
    Bool.not_eq_true', decide_eq_false_iff_not, not_not] at listed
  rcases listed with rfl | rfl | rfl | rfl | rfl <;> contradiction

theorem nestingFrom_inert {text : List Char} (inert : text.all isInert = true) (level : Nat)
    (rest : List Char) :
    nestingFrom level .outside (text ++ rest) = nestingFrom level .outside rest := by
  induction text with
  | nil => rfl
  | cons c text ih =>
    rw [List.all_cons, Bool.and_eq_true] at inert
    obtain ⟨first, others⟩ := inert
    simp only [isInert, List.contains_eq_mem, List.mem_cons, List.not_mem_nil, or_false,
      Bool.not_eq_true', decide_eq_false_iff_not, not_or] at first
    have same : openAfter level c .outside = level := by simp [openAfter, first]
    have stays : Place.outside.next c = .outside := by simp [Place.next, first]
    rw [List.cons_append, nestingFrom_same same, stays]
    exact ih others

theorem nestingFrom_shown {c : Char} (unquoted : c ≠ '"') (unescaped : c ≠ '\\') (level : Nat)
    (rest : List Char) :
    nestingFrom level .quoted (c :: rest) = nestingFrom level .quoted rest := by
  have stays : Place.quoted.next c = .quoted := by simp [Place.next, unquoted, unescaped]
  rw [nestingFrom_same rfl, stays]

theorem nestingFrom_escape (level : Nat) (c : Char) (rest : List Char) :
    nestingFrom level .quoted (escapeChar c ++ rest) = nestingFrom level .quoted rest := by
  have escaped (e : Char) (more : List Char) :
      nestingFrom level .quoted ('\\' :: e :: more) = nestingFrom level .quoted more := by
    rw [nestingFrom_same rfl]
    exact nestingFrom_same rfl more
  have shown (n : Nat) (more : List Char) :
      nestingFrom level .quoted (hexDigit n :: more) = nestingFrom level .quoted more :=
    nestingFrom_shown (Nat.digitChar_ne _ rfl) (Nat.digitChar_ne _ rfl) level more
  have zero (more : List Char) :
      nestingFrom level .quoted ('0' :: more) = nestingFrom level .quoted more := shown 0 more
  rcases escapeChar_cases c with ⟨e, written, _⟩ | ⟨written, _⟩ |
    ⟨written, unquoted, unescaped, _⟩
  · rw [written]
    exact escaped e rest
  · rw [written]
    simp only [List.cons_append, List.nil_append, escaped, shown, zero]
  · rw [written]
    exact nestingFrom_shown unquoted unescaped level rest

theorem nestingFrom_quote (level : Nat) (s : String) (rest : List Char) :
    nestingFrom level .outside ((quote s).toList ++ rest) = nestingFrom level .outside rest := by
  have chars (cs : List Char) :
      nestingFrom level .quoted (cs.flatMap escapeChar ++ '"' :: rest) =
        nestingFrom level .outside rest := by
    induction cs with
    | nil => exact nestingFrom_same rfl rest
    | cons c cs ih => rw [List.flatMap_cons, List.append_assoc, nestingFrom_escape, ih]
  rw [quote_toList, List.cons_append, List.append_assoc, nestingFrom_same rfl]
  exact chars s.toList

/- The text goes as deep as this below the level at which it stands, and returns to it. -/
def Reaches (text : List Char) (depth : Nat) : Prop :=
  ∀ level rest, nestingFrom level .outside (text ++ rest) =
    max (level + depth) (nestingFrom level .outside rest)

theorem reaches_zero {text : List Char}
    (flat : ∀ level rest, nestingFrom level .outside (text ++ rest) =
      nestingFrom level .outside rest) : Reaches text 0 := by
  intro level rest
  rw [flat]
  exact (Nat.max_eq_right (le_nestingFrom ..)).symm

theorem Reaches.append {first second : List Char} {d e : Nat} (one : Reaches first d)
    (other : Reaches second e) : Reaches (first ++ second) (max d e) := by
  intro level rest
  rw [List.append_assoc, one, other, ← Nat.max_assoc, Nat.add_max_add_left]

theorem Reaches.bracket {text : List Char} {d : Nat} (inner : Reaches text d) {left right : Char}
    (pair : (left, right) ∈ [('[', ']'), ('{', '}')]) :
    Reaches (left :: (text ++ [right])) (d + 1) := by
  intro level rest
  have opens : nestingFrom level .outside (left :: (text ++ right :: rest)) =
      max level (nestingFrom (level + 1) .outside (text ++ right :: rest)) := by
    simp only [List.mem_cons, List.not_mem_nil, or_false, Prod.mk.injEq] at pair
    rcases pair with ⟨rfl, rfl⟩ | ⟨rfl, rfl⟩ <;> rfl
  have closes : nestingFrom (level + 1) .outside (right :: rest) =
      max (level + 1) (nestingFrom level .outside rest) := by
    simp only [List.mem_cons, List.not_mem_nil, or_false, Prod.mk.injEq] at pair
    rcases pair with ⟨rfl, rfl⟩ | ⟨rfl, rfl⟩ <;> rfl
  rw [List.cons_append, List.append_assoc, List.singleton_append, opens, inner, closes]
  omega

theorem compactItems_reaches {items : List Json}
    (each : ∀ j ∈ items, Reaches j.compact.toList j.depth) :
    Reaches (compactItems items).toList (itemsDepth items) := by
  induction items with
  | nil => exact reaches_zero fun _ _ => rfl
  | cons j items ih =>
    have first := each j List.mem_cons_self
    have others := ih fun k h => each k (List.mem_cons_of_mem j h)
    cases items with
    | nil => simpa [compactItems, itemsDepth] using first
    | cons k items =>
      have comma : Reaches ",".toList 0 := reaches_zero (nestingFrom_inert rfl)
      have all := first.append (comma.append others)
      simpa [compactItems, itemsDepth] using all

theorem compactMembers_reaches {members : List (String × Json)}
    (each : ∀ m ∈ members, Reaches m.2.compact.toList m.2.depth) :
    Reaches (compactMembers members).toList (membersDepth members) := by
  have key (s : String) : Reaches (quote s ++ ":").toList 0 := by
    apply reaches_zero
    intro level rest
    rw [String.toList_append, List.append_assoc, nestingFrom_quote]
    exact @nestingFrom_inert [':'] rfl level rest
  induction members with
  | nil => exact reaches_zero fun _ _ => rfl
  | cons m members ih =>
    obtain ⟨name, j⟩ := m
    have first := (key name).append (each (name, j) List.mem_cons_self)
    have others := ih fun l h => each l (List.mem_cons_of_mem (name, j) h)
    cases members with
    | nil => simpa [compactMembers, membersDepth] using first
    | cons l members =>
      have comma : Reaches ",".toList 0 := reaches_zero (nestingFrom_inert rfl)
      have all := first.append (comma.append others)
      simpa [compactMembers, membersDepth] using all

theorem Exact.reaches {j : Json} (exact : j.Exact ε) : Reaches j.compact.toList j.depth := by
  induction exact with
  | null => exact reaches_zero (nestingFrom_inert rfl)
  | bool b => cases b <;> exact reaches_zero (nestingFrom_inert rfl)
  | number back =>
    have inert := List.all_eq_true.mpr fun c h => inert_of_numeric (back.numeric c h)
    exact reaches_zero (nestingFrom_inert inert)
  | string s => exact reaches_zero fun level => nestingFrom_quote level s
  | array each ih =>
    rw [compact_array]
    exact (compactItems_reaches ih).bracket (by simp)
  | object each ih =>
    rw [compact_object]
    exact (compactMembers_reaches ih).bracket (by simp)

theorem nesting_compact {j : Json} (exact : j.Exact ε) : nesting j.compact = j.depth := by
  have whole := exact.reaches 0 []
  rw [List.append_nil, Nat.zero_add] at whole
  rw [nesting, whole]
  exact Nat.max_eq_left (Nat.zero_le _)

end ScriptCheck.Json
