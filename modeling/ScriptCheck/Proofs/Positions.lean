import ScriptCheck.Proofs.Words

/-! Where words stand. A text can be cut before any of its words: the words before the cut are those
of the part before it, and the offset of the word is the length of that part in bytes. Behind a cut
the text can go on differently, as long as no word goes on across the seam. -/
namespace ScriptCheck.Ty

theorem width_append (first second : List Char) :
    width (first ++ second) = width first + width second := by
  induction first with
  | nil => simp [width]
  | cons c cs ih =>
    simp only [List.cons_append, width, ih]
    omega

theorem size_ofList (cs : List Char) : (String.ofList cs).utf8ByteSize = width cs := by
  induction cs with
  | nil => rfl
  | cons c cs ih =>
    have front : String.ofList (c :: cs) = String.singleton c ++ String.ofList cs := by
      rw [String.singleton_eq_ofList, ← String.ofList_append]
      rfl
    rw [front, String.utf8ByteSize_append, String.utf8ByteSize_singleton, ih]
    rfl

/-- No name goes on across the seam of two texts. -/
def Seam (front back : List Char) : Prop :=
  ∀ c ∈ front.getLast?, isNameChar c = true → Apart back

theorem seam_nil (back : List Char) : Seam [] back := nofun

theorem Seam.append {first second back : List Char} (early : second = [] → Seam first back)
    (late : Seam second back) : Seam (first ++ second) back := by
  cases second with
  | nil =>
    rw [List.append_nil]
    exact early rfl
  | cons d ds =>
    intro c last
    refine late c ?_
    simpa [List.getLast?_append] using last

theorem Seam.of_append {first second back : List Char} (seam : Seam (first ++ second) back) :
    Seam second back := by
  intro c last
  apply seam c
  rw [List.getLast?_append, Option.mem_def.mp last]
  rfl

namespace Token.Precedes

variable {token : Token} {front back : List Char}

theorem seam (cut : token.Precedes back) : Seam token.chars back := by
  intro c last name
  cases cut with
  | name _ apart => exact apart
  | ellipsis =>
    obtain rfl : '.' = c := Option.some.inj last
    exact absurd name (by decide)
  | mark _ other _ =>
    obtain rfl := Option.some.inj last
    simp [other] at name

theorem of_append (cut : token.Precedes (front ++ back)) : token.Precedes front := by
  cases cut with
  | name name apart =>
    refine .name name fun c first => apart c ?_
    rw [List.head?_append, Option.mem_def.mp first]
    rfl
  | ellipsis => exact .ellipsis front
  | mark solid other single =>
    refine .mark solid other fun ds dot same => single (ds ++ back) dot ?_
    rw [same]
    rfl

theorem append (cut : token.Precedes front) (seam : front = [] → Seam token.chars back)
    (plain : ∀ c ∈ back.head?, c ≠ '.') : token.Precedes (front ++ back) := by
  cases cut with
  | @name chars _ name apart =>
    refine .name name ?_
    cases front with
    | nil =>
      obtain ⟨some, all⟩ := name
      have last := List.getLast?_eq_some_getLast some
      exact seam rfl _ last (all _ (List.getLast_mem some))
    | cons d ds => exact apart
  | ellipsis => exact .ellipsis _
  | mark solid other single =>
    refine .mark solid other fun ds dot same => ?_
    rcases List.append_eq_cons_iff.mp same with ⟨rfl, rfl⟩ | ⟨rest, rfl, second⟩
    · exact plain '.' rfl rfl
    · rcases List.append_eq_cons_iff.mp second.symm with ⟨rfl, rfl⟩ | ⟨more, rfl, _⟩
      · exact plain '.' rfl rfl
      · exact single more dot rfl

end Token.Precedes

namespace Lexes

variable {offset : Nat}

theorem cut {cs : List Char} {before after : List Lexeme} {l : Lexeme}
    (lexes : Lexes offset cs (before ++ l :: after)) :
    ∃ front back, cs = front ++ (l.token.chars ++ back) ∧ l.offset = offset + width front ∧
      Lexes offset front before ∧ l.token.Precedes back ∧ Seam front (l.token.chars ++ back) := by
  generalize listed : before ++ l :: after = ls at lexes
  induction lexes generalizing before with
  | done => simp at listed
  | @blank offset c cs ls blank _ ih =>
    obtain ⟨front, back, rfl, place, words, cut, seam⟩ := ih listed
    refine ⟨c :: front, back, rfl, ?_, .blank blank words, cut, ?_⟩
    · rw [place, width]
      omega
    · refine @Seam.append [c] front _ (fun _ => ?_) seam
      intro d last name
      obtain rfl : c = d := Option.some.inj last
      simp [nameChar_of_blank blank] at name
  | @word offset token cs ls first _ ih =>
    cases before with
    | nil =>
      obtain ⟨rfl, _⟩ := List.cons.inj listed
      exact ⟨[], cs, rfl, by simp [width], .done offset, first, seam_nil _⟩
    | cons m before =>
      obtain ⟨rfl, others⟩ := List.cons.inj listed
      obtain ⟨front, back, rfl, place, words, cut, seam⟩ := ih others
      refine ⟨token.chars ++ front, back, by simp, ?_, .word first.of_append words, cut, ?_⟩
      · rw [place, width_append]
        omega
      · refine Seam.append ?_ seam
        rintro rfl
        exact first.seam

theorem append {front back : List Char} {ls ms : List Lexeme} (first : Lexes offset front ls)
    (second : Lexes (offset + width front) back ms) (seam : Seam front back)
    (plain : ∀ c ∈ back.head?, c ≠ '.') : Lexes offset (front ++ back) (ls ++ ms) := by
  induction first with
  | done => simpa [width] using second
  | blank blank _ ih =>
    refine .blank blank (ih ?_ (@Seam.of_append [_] _ _ seam))
    simpa [width, Nat.add_assoc] using second
  | word cut _ ih =>
    rw [List.append_assoc]
    refine .word (cut.append ?_ plain) (ih ?_ seam.of_append)
    · rintro rfl
      simpa using seam
    · simpa [width_append, Nat.add_assoc] using second

end Lexes

theorem words_append {front back : List Char} (seam : Seam front back)
    (plain : ∀ c ∈ back.head?, c ≠ '.') : words (front ++ back) = words front ++ words back := by
  have whole := (lexes_scan 0 front).append (lexes_scan _ back) seam plain
  rw [words, whole.scan, List.map_append, tokens_scan, tokens_scan]

end ScriptCheck.Ty
