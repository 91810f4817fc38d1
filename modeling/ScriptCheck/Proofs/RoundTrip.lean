import ScriptCheck.Ty.Text
import ScriptCheck.Proofs.Reading

/-! Printing a type and reading its text. The words of a printed type lead the reader through the
type from left to right, and what has been read at the end is the canonical form of the type. -/
namespace ScriptCheck.Ty

mutual
def tokens : Ty → List Token
  | .name n => [.name n.toList]
  | .tuple items => .mark '[' :: (tokensJoined ',' items ++ [.mark ']'])
  | .union members => tokensJoined '|' members
  | .function (.tuple params) result =>
    .mark '@' :: .mark '(' :: (tokensJoined ',' params ++ .mark ')' :: .mark ':' :: tokens result)
  | .function _ result =>
    .mark '@' :: .mark '(' :: .ellipsis :: .name "any".toList :: .mark ')' :: .mark ':' ::
      tokens result

def tokensJoined (divider : Char) : List Ty → List Token
  | [] => []
  | [t] => tokens t
  | t :: u :: rest => tokens t ++ .mark divider :: tokensJoined divider (u :: rest)
end

theorem tokensJoined_eq (divider : Char) (ts : List Ty) :
    tokensJoined divider ts = divided divider (ts.map tokens) := by
  induction ts with
  | nil => rfl
  | cons t ts ih =>
    cases ts with
    | nil => rfl
    | cons u us => simp only [tokensJoined, ih, List.map_cons, divided]

theorem tokens_variadic {params : Ty} (other : ∀ items, params ≠ .tuple items) (result : Ty) :
    tokens (.function params result) = .mark '@' :: .mark '(' :: .ellipsis ::
      .name "any".toList :: .mark ')' :: .mark ':' :: tokens result := by
  cases params with
  | tuple items => exact absurd rfl (other items)
  | _ => rfl

theorem text_variadic {params : Ty} (other : ∀ items, params ≠ .tuple items) (result : Ty) :
    text (.function params result) = "@(...any): " ++ text result := by
  cases params with
  | tuple items => exact absurd rfl (other items)
  | _ => rfl

theorem words_of_each {divider : Char} {text : String}
    (divides : ∀ cs, Apart (text.toList ++ cs) ∧
      words (text.toList ++ cs) = .mark divider :: words cs) {ts : List Ty}
    (each : ∀ t ∈ ts, ∀ cs, Apart cs → words (t.text.toList ++ cs) = tokens t ++ words cs)
    {cs : List Char} (apart : Apart cs) :
    words ((joined text ts).toList ++ cs) = tokensJoined divider ts ++ words cs := by
  induction ts with
  | nil => simp [joined, tokensJoined]
  | cons t ts ih =>
    obtain ⟨head, tail⟩ := List.forall_mem_cons.mp each
    cases ts with
    | nil => exact head cs apart
    | cons u us =>
      obtain ⟨ends, word⟩ := divides ((joined text (u :: us)).toList ++ cs)
      simp only [joined, tokensJoined, String.toList_append, List.append_assoc]
      rw [head _ ends, word, ih tail]
      rfl

theorem comma_divides (cs : List Char) :
    Apart (", ".toList ++ cs) ∧ words (", ".toList ++ cs) = .mark ',' :: words cs := by
  have chars : ", ".toList ++ cs = ',' :: ' ' :: cs := rfl
  rw [chars, words_mark (by decide), words_blank (by decide)]
  exact ⟨apart_cons (by decide) _, rfl⟩

theorem bar_divides (cs : List Char) :
    Apart (" | ".toList ++ cs) ∧ words (" | ".toList ++ cs) = .mark '|' :: words cs := by
  have chars : " | ".toList ++ cs = ' ' :: '|' :: ' ' :: cs := rfl
  rw [chars, words_blank (by decide), words_mark (by decide), words_blank (by decide)]
  exact ⟨apart_cons (by decide) _, rfl⟩

theorem Legible.words_text {t : Ty} (legible : Legible t) :
    ∀ cs, Apart cs → words (t.text.toList ++ cs) = tokens t ++ words cs := by
  induction legible with
  | @name n good =>
    intro cs apart
    have some : n ≠ "" := fun h => good.1 (by simp [h])
    rw [text, if_neg some, words_name good apart]
    rfl
  | @tuple items _ each =>
    intro cs apart
    have chars : (text (.tuple items)).toList ++ cs =
        '[' :: ((joined ", " items).toList ++ ']' :: cs) := by
      simp [text]
    rw [chars, words_mark (by decide),
      words_of_each comma_divides each (apart_cons (by decide) cs), words_mark (by decide)]
    simp [tokens]
  | union _ _ each =>
    intro cs apart
    exact words_of_each bar_divides each apart
  | @function params result _ _ each returned =>
    intro cs apart
    have chars : (text (.function (.tuple params) result)).toList ++ cs =
        '@' :: '(' :: ((joined ", " params).toList ++ ')' :: ':' :: ' ' ::
          (result.text.toList ++ cs)) := by
      simp [text]
    rw [chars, words_mark (by decide), words_mark (by decide),
      words_of_each comma_divides each (apart_cons (by decide) _), words_mark (by decide),
      words_mark (by decide), words_blank (by decide), returned cs apart]
    simp [tokens]
  | @variadic params result other _ returned =>
    intro cs apart
    have chars : (text (.function params result)).toList ++ cs =
        '@' :: '(' :: '.' :: '.' :: '.' :: ("any".toList ++ ')' :: ':' :: ' ' ::
          (result.text.toList ++ cs)) := by
      simp [text_variadic other]
    rw [chars, words_mark (by decide), words_mark (by decide), words_ellipsis,
      words_name isName_any (apart_cons (by decide) _), words_mark (by decide),
      words_mark (by decide), words_blank (by decide), returned cs apart,
      tokens_variadic other]
    rfl

theorem spreadAll_reads {t : Ty} {ts : List Ty}
    (each : ∀ u ∈ t :: ts, Reads (tokens u) (spread u)) :
    Reads (tokensJoined '|' (t :: ts)) (spreadAll (t :: ts)) := by
  induction ts generalizing t with
  | nil => exact each t List.mem_cons_self
  | cons u us ih =>
    exact (each t List.mem_cons_self).bar (ih fun m h => each m (List.mem_cons_of_mem _ h))

theorem Legible.reads {t : Ty} (legible : Legible t) : Reads (tokens t) (spread t) := by
  induction legible with
  | @name n good =>
    have read := Reads.name n.toList
    rw [String.ofList_toList] at read
    exact read
  | @tuple items _ each =>
    intro earlier stack
    refine ⟨earlier, .tuple (canonAll items), [], ?_, fun rest => rfl⟩
    rw [tokens, tokensJoined_eq, Progress.reads_cons rfl, tuple_listing.reads_all each,
      canonAll_eq]
    rfl
  | @union members some _ each =>
    cases members with
    | nil => exact absurd rfl some
    | cons t ts => exact spreadAll_reads each
  | @function params result _ _ each returned =>
    have head (earlier : List Ty) (stack : List Frame) :
        Progress.reads ⟨.member, earlier, stack⟩
          (.mark '@' :: .mark '(' :: (tokensJoined ',' params ++ [.mark ')'])) =
        .ok ⟨.colon (.tuple (canonAll params)), earlier, stack⟩ := by
      rw [Progress.reads_cons rfl, Progress.reads_cons rfl, tokensJoined_eq,
        params_listing.reads_all each, canonAll_eq]
      rfl
    have read := Reads.result head returned
    simpa [tokens, spread] using read
  | @variadic params result other _ returned =>
    have head (earlier : List Ty) (stack : List Frame) :
        Progress.reads ⟨.member, earlier, stack⟩
          [.mark '@', .mark '(', .ellipsis, .name "any".toList, .mark ')'] =
        .ok ⟨.colon .any, earlier, stack⟩ := rfl
    have members := funext (spread_variadic other result)
    rw [tokens_variadic other, members]
    exact Reads.result head returned

theorem parse_text {t : Ty} (legible : Legible t) : parse t.text = .ok (canon t) := by
  have cut : words t.text.toList = tokens t := by
    have nothing : words [] = [] := rfl
    simpa [nothing] using legible.words_text [] nofun
  exact legible.reads.parse cut

/-- Printing and reading gives back exactly the representable types. -/
theorem parse_text_iff_representable (t : Ty) : parse t.text = .ok t ↔ Representable t := by
  constructor
  · intro back
    have legible := parse_legible back
    have same : canon t = t := Except.ok.inj ((parse_text legible).symm.trans back)
    rw [← same]
    exact legible.canon_representable
  · intro representable
    rw [parse_text representable.legible, representable.fixed.canon]

/-! Printing what was read: the members of a union are printed after each other however they are
grouped, so the canonical form of a type has the same text as the type. -/

theorem joined_cons (divider : String) (t : Ty) {rest : List Ty} (some : rest ≠ []) :
    joined divider (t :: rest) = t.text ++ divider ++ joined divider rest := by
  cases rest with
  | nil => exact absurd rfl some
  | cons u us => rfl

theorem joined_congr (divider : String) {ts us : List Ty} (same : ts.map text = us.map text) :
    joined divider ts = joined divider us := by
  induction ts generalizing us with
  | nil =>
    cases us with
    | nil => rfl
    | cons u us => simp at same
  | cons t ts ih =>
    cases us with
    | nil => simp at same
    | cons u us =>
      obtain ⟨head, tail⟩ : t.text = u.text ∧ ts.map text = us.map text := by simpa using same
      cases ts with
      | nil =>
        obtain rfl : us = [] := by simpa [eq_comm] using tail
        exact head
      | cons v vs =>
        have some : us ≠ [] := by
          rintro rfl
          simp at tail
        rw [joined_cons divider t (by simp), joined_cons divider u some, head, ih tail]

theorem joined_append (divider : String) {ts us : List Ty} (first : ts ≠ []) (second : us ≠ []) :
    joined divider (ts ++ us) = joined divider ts ++ divider ++ joined divider us := by
  induction ts with
  | nil => exact absurd rfl first
  | cons t ts ih =>
    cases ts with
    | nil => exact joined_cons divider t second
    | cons v vs =>
      rw [List.cons_append, joined_cons divider t (by simp), joined_cons divider t (by simp),
        ih (by simp)]
      simp only [String.append_assoc]

theorem text_join (ms : List Ty) : (join ms).text = joined " | " ms := by
  cases ms with
  | nil => rfl
  | cons t ts => cases ts <;> rfl

theorem joined_of_text {t u : Ty} {front : String} (shown : t.text = front ++ u.text)
    (rest : List Ty) : joined " | " (t :: rest) = front ++ joined " | " (u :: rest) := by
  cases rest with
  | nil => exact shown
  | cons v vs =>
    rw [joined_cons _ t (by simp), joined_cons _ u (by simp), shown]
    simp only [String.append_assoc]

def Shows (t : Ty) : Prop :=
  ∀ rest, spread t rest ≠ [] ∧ joined " | " (spread t rest) = joined " | " (t :: rest)

theorem joined_canonAll {ts : List Ty} (each : ∀ t ∈ ts, Shows t) :
    joined ", " (canonAll ts) = joined ", " ts := by
  apply joined_congr
  rw [canonAll_eq, List.map_map]
  apply List.map_congr_left
  intro t member
  have alone := (each t member []).2
  rwa [← text_join] at alone

theorem spreadAll_shows {ts : List Ty} (each : ∀ t ∈ ts, Shows t) (rest : List Ty) :
    (ts ≠ [] → spreadAll ts rest ≠ []) ∧
      joined " | " (spreadAll ts rest) = joined " | " (ts ++ rest) := by
  induction ts with
  | nil => exact ⟨fun some => absurd rfl some, rfl⟩
  | cons t ts ih =>
    obtain ⟨head, tail⟩ := List.forall_mem_cons.mp each
    obtain ⟨some, same⟩ := head (spreadAll ts rest)
    obtain ⟨others, shown⟩ := ih tail
    refine ⟨fun _ => some, same.trans ?_⟩
    cases ts with
    | nil => rfl
    | cons u us =>
      rw [joined_cons _ t (others (by simp)), shown]
      rfl

theorem Legible.shows {t : Ty} (legible : Legible t) : Shows t := by
  induction legible with
  | name _ => exact fun rest => ⟨by simp [spread], rfl⟩
  | @tuple items _ each =>
    intro rest
    refine ⟨by simp [spread], joined_congr _ ?_⟩
    simp only [spread, List.map_cons, text, joined_canonAll each]
  | @union members some _ each =>
    intro rest
    obtain ⟨others, shown⟩ := spreadAll_shows each rest
    refine ⟨others some, shown.trans ?_⟩
    cases rest with
    | nil =>
      rw [List.append_nil]
      rfl
    | cons u us =>
      rw [joined_append _ some (by simp)]
      rfl
  | @function params result _ _ each returned =>
    intro rest
    have front (u : Ty) : text (.function (.tuple params) u) =
        "@(" ++ joined ", " params ++ "): " ++ u.text := by simp only [text]
    refine ⟨by simp [spread], ?_⟩
    rw [joined_of_text (front result), ← (returned rest).2]
    simp only [spread, joined, text, joined_canonAll each, text_join]
  | @variadic params result other _ returned =>
    intro rest
    rw [spread_variadic other, joined_of_text (text_variadic other result), ← (returned rest).2]
    exact ⟨by simp, by simp only [any, joined, text, text_join]⟩

/-- Printing is stable: the text of a type that was read can be read, and what is read from it, be
it the same type or not, has the same text again. -/
theorem text_of_read_text (s : String) (t : Ty) (read : parse s = .ok t) :
    ∃ u, parse t.text = .ok u ∧ u.text = t.text := by
  have legible := parse_legible read
  refine ⟨canon t, parse_text legible, ?_⟩
  rw [canon, text_join]
  exact (legible.shows []).2

/-- A function before other members, a union in a union and parameters that are no tuple, one inside
the other: the type comes back as another one. -/
theorem text_of_read_text_regrouped :
    let s := "[(@(...num): (a | b) | c) | d]"
    let t : Ty := .tuple [.union [.function .num (.union [.union [.name "a", .name "b"], .name "c"]),
      .name "d"]]
    parse s = .ok t ∧ t.text = "[@(...any): a | b | c | d]" ∧
      ∃ u, parse t.text = .ok u ∧ u.text = t.text ∧ u ≠ t := by
  intro s t
  have read : parse s = .ok t := by decide +kernel
  obtain ⟨u, back, same⟩ := text_of_read_text s t read
  refine ⟨read, by decide +kernel, u, back, same, ?_⟩
  rintro rfl
  exact absurd back (by decide +kernel)

end ScriptCheck.Ty
