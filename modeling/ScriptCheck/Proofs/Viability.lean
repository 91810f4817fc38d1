import ScriptCheck.Proofs.Positions
import ScriptCheck.Proofs.Reading

/-! Where reading stops. Wherever the reader stands, it can still be led to the end of a type by
ending whatever is open. So a text is refused at the first word with which it cannot be the
beginning of a type, or at its end if it has not got that far. -/
namespace ScriptCheck.Ty

def Progress.Accepts (p : Progress) (ts : List Token) : Prop :=
  ∃ q t, p.reads ts = .ok q ∧ q.finish = .ok t

theorem Progress.Accepts.cons {p q : Progress} {next : Token} {ts : List Token}
    (stepped : p.step next = .ok q) (accepted : q.Accepts ts) : p.Accepts (next :: ts) := by
  obtain ⟨r, t, through, ended⟩ := accepted
  exact ⟨r, t, by rw [reads_cons stepped, through], ended⟩

/-! Ending what is open -/

/-- Words that end all open constructs. A list of parameters is followed by a result. -/
def closing : List Frame → List Token
  | [] => []
  | ⟨.group, _⟩ :: stack => .mark ')' :: closing stack
  | ⟨.tuple _, _⟩ :: stack => .mark ']' :: closing stack
  | ⟨.params _, _⟩ :: stack => .mark ')' :: .mark ':' :: .name ['a'] :: closing stack
  | ⟨.result _, _⟩ :: stack => closing stack

def Phase.remainder : Phase → List Token
  | .member => [.name ['a']]
  | .itemOrBracket => [.mark ']']
  | .paren => [.mark '(', .mark ')', .mark ':', .name ['a']]
  | .paramsOrRest => [.mark ')', .mark ':', .name ['a']]
  | .restName => [.name ['a'], .mark ')', .mark ':', .name ['a']]
  | .restEnd _ => [.mark ')', .mark ':', .name ['a']]
  | .colon _ => [.mark ':', .name ['a']]
  | .after _ => []

def Progress.completion (p : Progress) : List Token := p.phase.remainder ++ closing p.stack

theorem closing_head (stack : List Frame) : (closing stack).head? ≠ some (.mark '|') := by
  induction stack with
  | nil => simp [closing]
  | cons f stack ih =>
    obtain ⟨opening, outer⟩ := f
    cases opening with
    | result params => exact ih
    | _ => simp [closing]

theorem accepts_result {earlier outer : List Ty} {last params : Ty} {stack : List Frame}
    {ts : List Token} (ends : ts.head? ≠ some (.mark '|'))
    (accepted : Progress.Accepts
      ⟨.after (.function params (ofMembers earlier last)), outer, stack⟩ ts) :
    Progress.Accepts ⟨.after last, earlier, ⟨.result params, outer⟩ :: stack⟩ ts := by
  obtain ⟨q, t, through, ended⟩ := accepted
  cases ts with
  | nil =>
    cases through
    exact ⟨_, t, rfl, ended⟩
  | cons next rest =>
    have other : next ≠ .mark '|' := by simpa using ends
    refine ⟨q, t, ?_, ended⟩
    simp only [Progress.reads, List.foldlM_cons, Progress.step, if_neg other] at through ⊢
    exact through

theorem closing_accepted (earlier : List Ty) (last : Ty) (stack : List Frame) :
    Progress.Accepts ⟨.after last, earlier, stack⟩ (closing stack) := by
  induction stack generalizing earlier last with
  | nil => exact ⟨_, _, rfl, rfl⟩
  | cons f stack ih =>
    obtain ⟨opening, outer⟩ := f
    cases opening with
    | group => exact .cons rfl (ih _ _)
    | tuple items => exact .cons rfl (ih _ _)
    | params items =>
      refine .cons rfl (.cons rfl (.cons rfl ?_))
      exact accepts_result (closing_head stack) (ih _ _)
    | result params => exact accepts_result (closing_head stack) (ih _ _)

theorem Progress.completion_accepted (p : Progress) : p.Accepts p.completion := by
  obtain ⟨phase, earlier, stack⟩ := p
  -- where a function has been begun, its result is still open behind the remainder
  have returned (params : Ty) :
      Accepts ⟨.after (.name "a"), [], ⟨.result params, earlier⟩ :: stack⟩ (closing stack) :=
    closing_accepted [] _ (⟨.result params, earlier⟩ :: stack)
  cases phase with
  | member => exact .cons rfl (closing_accepted _ _ stack)
  | itemOrBracket => exact .cons rfl (closing_accepted _ _ stack)
  | paren => exact .cons rfl (.cons rfl (.cons rfl (.cons rfl (returned _))))
  | paramsOrRest => exact .cons rfl (.cons rfl (.cons rfl (returned _)))
  | restName => exact .cons rfl (.cons rfl (.cons rfl (.cons rfl (returned _))))
  | restEnd chars => exact .cons rfl (.cons rfl (.cons rfl (returned _)))
  | colon params => exact .cons rfl (.cons rfl (returned _))
  | after t => exact closing_accepted _ _ stack

/-! Words as text -/

def spelled (ts : List Token) : List Char := ts.flatMap fun t => ' ' :: t.chars

theorem spelled_head (ts : List Token) : ∀ c ∈ (spelled ts).head?, c = ' ' := by
  cases ts <;> simp [spelled, eq_comm]

theorem seam_spelled (front : List Char) (ts : List Token) : Seam front (spelled ts) := by
  intro _ _ _ c first
  rw [spelled_head ts c first]
  decide

theorem spelled_plain (ts : List Token) : ∀ c ∈ (spelled ts).head?, c ≠ '.' := by
  intro c first
  rw [spelled_head ts c first]
  decide

theorem words_spelled {ts : List Token} (each : ∀ t ∈ ts, t.Precedes []) :
    words (spelled ts) = ts := by
  induction ts with
  | nil => rfl
  | cons t ts ih =>
    obtain ⟨head, tail⟩ := List.forall_mem_cons.mp each
    have cut : t.Precedes (spelled ts) :=
      head.append (fun _ => seam_spelled _ ts) (spelled_plain ts)
    have chars : spelled (t :: ts) = ' ' :: (t.chars ++ spelled ts) := rfl
    rw [chars, words_blank (by decide), words_word cut, ih tail]

def fillers : List Token := [.name ['a'], .mark '(', .mark ')', .mark ']', .mark ':']

theorem filler_precedes : ∀ t ∈ fillers, t.Precedes [] := by
  have name : IsName ['a'] := ⟨by simp, by simp; decide⟩
  have mark {c : Char} (listed : c ∈ marks) : Token.Precedes (.mark c) [] := by
    obtain ⟨_, solid, other⟩ := plain_of_mark listed
    exact .mark solid other nofun
  simp only [fillers, List.forall_mem_cons]
  exact ⟨.name name nofun, mark (by decide), mark (by decide), mark (by decide), mark (by decide),
    nofun⟩

theorem closing_fillers (stack : List Frame) : ∀ t ∈ closing stack, t ∈ fillers := by
  induction stack with
  | nil => exact nofun
  | cons f stack ih =>
    obtain ⟨opening, outer⟩ := f
    cases opening with
    | result params => exact ih
    | _ => simpa [closing, fillers] using ih

theorem Progress.completion_fillers (p : Progress) : ∀ t ∈ p.completion, t ∈ fillers := by
  refine List.forall_mem_append.mpr ⟨?_, closing_fillers p.stack⟩
  cases p.phase <;> simp [Phase.remainder, fillers]

theorem parse_completed {front : String} {q : Progress}
    (through : start.reads (words front.toList) = .ok q) :
    ∃ more t, parse (front ++ more) = .ok t := by
  obtain ⟨r, t, rest, ended⟩ := q.completion_accepted
  have each : ∀ t ∈ q.completion, t.Precedes [] := fun t listed =>
    filler_precedes t (q.completion_fillers t listed)
  refine ⟨String.ofList (spelled q.completion), t, parse_eq_ok_iff.mpr ⟨r, ?_, ended⟩⟩
  rw [String.toList_append, String.toList_ofList,
    words_append (seam_spelled _ _) (spelled_plain _), words_spelled each,
    Progress.reads_append through, rest]

/-! The word at which reading stops -/

theorem Progress.run_eq_error {p : Progress} {stop : Nat} {ls : List Lexeme} {e : SyntaxError}
    (failed : p.run stop ls = .error e) :
    (∃ before l after q, ls = before ++ l :: after ∧ l.offset = e.offset ∧
      p.reads (before.map Lexeme.token) = .ok q ∧ q.step l.token = .error e.fault) ∨
    e.offset = stop ∧ ∃ q, p.reads (ls.map Lexeme.token) = .ok q := by
  induction ls generalizing p with
  | nil =>
    right
    refine ⟨?_, p, rfl⟩
    unfold run at failed
    split at failed <;> cases failed
    rfl
  | cons l rest ih =>
    cases stepped : p.step l.token with
    | error fault =>
      left
      simp only [run, stepped] at failed
      cases failed
      exact ⟨[], l, rest, p, rfl, rfl, rfl, stepped⟩
    | ok q =>
      simp only [run, stepped] at failed
      rcases ih failed with ⟨before, m, after, r, rfl, place, through, fails⟩ | ⟨place, r, through⟩
      · left
        refine ⟨l :: before, m, after, r, rfl, place, ?_, fails⟩
        rw [List.map_cons, reads_cons stepped, through]
      · right
        refine ⟨place, r, ?_⟩
        rw [List.map_cons, reads_cons stepped, through]

theorem endType_name (chars others : List Char) (earlier : List Ty) (last : Ty)
    (stack : List Frame) :
    endType (.name chars) earlier last stack = endType (.name others) earlier last stack := by
  induction stack generalizing earlier last with
  | nil => rfl
  | cons f stack ih =>
    obtain ⟨opening, outer⟩ := f
    cases opening with
    | result params => exact ih _ _
    | _ => simp [endType]

theorem Progress.step_name {p : Progress} {chars : List Char} {fault : Fault}
    (failed : p.step (.name chars) = .error fault) (others : List Char) :
    p.step (.name others) = .error fault := by
  obtain ⟨phase, earlier, stack⟩ := p
  cases phase with
  | member => cases failed
  | itemOrBracket => cases failed
  | paramsOrRest => cases failed
  | restName => cases failed
  | paren => exact failed
  | restEnd word => exact failed
  | colon params => exact failed
  | after t =>
    simp only [step, reduceCtorEq, if_false] at failed ⊢
    rwa [endType_name others chars]

/-- Words that begin with the same character, unless it is a dot, are the same mark or both names.
-/
theorem Token.Precedes.same_kind {t u : Token} {cs ds : List Char} (first : t.Precedes cs)
    (second : u.Precedes ds) {c : Char} (plain : c ≠ '.') (here : t.chars.head? = some c)
    (there : u.chars.head? = some c) : t = u ∨ ∃ xs ys, t = .name xs ∧ u = .name ys := by
  have named {chars : List Char} (name : IsName chars) (head : chars.head? = some c) :
      isNameChar c = true := name.2 c (List.mem_of_mem_head? head)
  cases first with
  | name name _ =>
    cases second with
    | name => exact .inr ⟨_, _, rfl, rfl⟩
    | ellipsis => exact absurd (Option.some.inj there).symm plain
    | mark _ other _ =>
      obtain rfl := Option.some.inj there
      simp [named name here] at other
  | ellipsis => exact absurd (Option.some.inj here).symm plain
  | mark _ other _ =>
    obtain rfl := Option.some.inj here
    cases second with
    | name name _ => simp [named name there] at other
    | ellipsis => exact absurd (Option.some.inj there).symm plain
    | mark =>
      obtain rfl := Option.some.inj there
      exact .inl rfl

theorem Token.Precedes.solid {t : Token} {cs : List Char} (cut : t.Precedes cs) {c : Char}
    (head : t.chars.head? = some c) : Text.isBlank c = false := by
  cases cut with
  | name name _ =>
    have named := name.2 c (List.mem_of_mem_head? head)
    by_contra blank
    simp [nameChar_of_blank (by simpa using blank)] at named
  | ellipsis =>
    obtain rfl := Option.some.inj head
    decide
  | mark solid _ _ =>
    obtain rfl := Option.some.inj head
    exact solid

theorem Token.Precedes.head {t : Token} {cs : List Char} (cut : t.Precedes cs) :
    ∃ c, t.chars.head? = some c := by
  cases cut with
  | @name chars _ name _ =>
    cases chars with
    | nil => exact absurd rfl name.1
    | cons c chars => exact ⟨c, rfl⟩
  | ellipsis => exact ⟨'.', rfl⟩
  | @mark c _ _ _ _ => exact ⟨c, rfl⟩

theorem parse_refused {front : String} {q : Progress} {token : Token} {back : List Char}
    {fault : Fault} (through : start.reads (words front.toList) = .ok q)
    (fails : q.step token = .error fault) (cut : token.Precedes back)
    (seam : Seam front.toList (token.chars ++ back)) {c : Char} (plain : c ≠ '.')
    (head : token.chars.head? = some c) (more : String) (t : Ty) :
    parse (front.push c ++ more) ≠ .ok t := by
  intro read
  obtain ⟨r, reads, _⟩ := parse_eq_ok_iff.mp read
  obtain ⟨other, rest, same, precedes, _⟩ := word_cut (cut.solid head) more.toList
  have begins : other.chars.head? = some c := by
    obtain ⟨d, first⟩ := precedes.head
    have front : (c :: more.toList).head? = some d := by
      rw [same, List.head?_append, first]
      rfl
    rw [first, ← front]
    rfl
  have refused : q.step other = .error fault := by
    rcases cut.same_kind precedes plain head begins with rfl | ⟨xs, ys, rfl, rfl⟩
    · exact fails
    · exact Progress.step_name fails ys
  have meets : Seam front.toList (c :: more.toList) := by
    intro d last name e first
    obtain rfl : c = e := Option.some.inj first
    refine seam d last name c ?_
    rw [List.head?_append, head]
    rfl
  have chars : (front.push c ++ more).toList = front.toList ++ c :: more.toList := by simp
  have first : ∀ d ∈ (c :: more.toList).head?, d ≠ '.' := by simpa using plain
  rw [chars, words_append meets first, same, words_word precedes,
    Progress.reads_append through] at reads
  simp [Progress.reads, refused, bind, Except.bind] at reads

/-- A text is refused where it stops being the beginning of a type. Every word of a text stands at
its offset and between two characters, and so does the place of an error: before it the text can be
completed, there is no blank behind it, and with the next character, unless that is a dot, nothing
can make the text a type. -/
theorem parse_error_first (s : String) :
    (∀ l ∈ scan 0 s.toList, ∃ front back : String,
      s = front ++ String.ofList l.token.chars ++ back ∧ front.utf8ByteSize = l.offset) ∧
    ∀ e, parse s = .error e → ∃ front back : String,
      s = front ++ back ∧ front.utf8ByteSize = e.offset ∧
      (∃ more t, parse (front ++ more) = .ok t) ∧
      ∀ c ∈ back.toList.head?, Text.isBlank c = false ∧
        (c ≠ '.' → ∀ more t, parse (front.push c ++ more) ≠ .ok t) := by
  have lexes := lexes_scan 0 s.toList
  constructor
  · intro l listed
    obtain ⟨before, after, split⟩ := List.append_of_mem listed
    rw [split] at lexes
    obtain ⟨front, back, chars, place, _⟩ := lexes.cut
    refine ⟨String.ofList front, String.ofList back, ?_, ?_⟩
    · rw [← String.ofList_append, ← String.ofList_append, List.append_assoc, ← chars,
        String.ofList_toList]
    · rw [size_ofList, place, Nat.zero_add]
  · intro e failed
    rcases Progress.run_eq_error failed with
      ⟨before, l, after, q, split, offset, through, fails⟩ | ⟨place, q, through⟩
    · rw [split] at lexes
      obtain ⟨front, back, chars, place, words, cut, seam⟩ := lexes.cut
      have reads : start.reads (Ty.words (String.ofList front).toList) = .ok q := by
        rwa [String.toList_ofList, Ty.words, words.scan]
      refine ⟨String.ofList front, String.ofList (l.token.chars ++ back), ?_, ?_,
        parse_completed reads, ?_⟩
      · rw [← String.ofList_append, ← chars, String.ofList_toList]
      · rw [size_ofList, ← offset, place, Nat.zero_add]
      · intro c first
        obtain ⟨d, head⟩ := cut.head
        obtain rfl : d = c := by
          rw [String.toList_ofList, List.head?_append, head] at first
          exact Option.some.inj first
        refine ⟨cut.solid head, fun plain more t => ?_⟩
        exact parse_refused reads fails cut (by rwa [String.toList_ofList]) plain head more t
    · refine ⟨s, "", by simp, place.symm, parse_completed through, ?_⟩
      simp

/-- Words of several bytes, a wide blank and a name where the parameters should end. -/
theorem parse_error_first_wide :
    let s := "@(é\u3000x"
    let e : SyntaxError := ⟨.expectedMark ')', 7⟩
    let l : Lexeme := ⟨.name ['é'], 2⟩
    l ∈ scan 0 s.toList ∧
    (∃ front back : String, s = front ++ "é" ++ back ∧ front.utf8ByteSize = 2) ∧
    parse s = .error e ∧
    ∃ front back : String, s = front ++ back ∧ front.utf8ByteSize = 7 ∧
      (∃ more t, parse (front ++ more) = .ok t) ∧
      ∀ c ∈ back.toList.head?, Text.isBlank c = false ∧
        (c ≠ '.' → ∀ more t, parse (front.push c ++ more) ≠ .ok t) := by
  intro s e l
  have listed : l ∈ scan 0 s.toList := by decide +kernel
  have failed : parse s = .error e := by decide +kernel
  obtain ⟨places, stops⟩ := parse_error_first s
  exact ⟨listed, places l listed, failed, stops e failed⟩

end ScriptCheck.Ty
