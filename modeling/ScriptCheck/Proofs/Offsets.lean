import Mathlib.Data.List.Infix
import ScriptCheck.Proofs.Division

/-! Offsets as positions. An offset lies in the last line that starts at it or before it, and its
column counts the code units from there, so a position and an offset in the text say the same. Where
lines start can be seen in the text without dividing it, and an ordinary character stands in the
text of its line where its position says. -/
namespace ScriptCheck

theorem Text.units_append (first second : List Char) :
    Text.units (first ++ second) = Text.units first + Text.units second := by
  induction first with
  | nil => simp [Text.units]
  | cons c cs ih =>
    simp only [List.cons_append, Text.units, ih]
    omega

theorem Text.unitSize_pos (c : Char) : 0 < Text.unitSize c := by
  unfold Text.unitSize
  split <;> omega

namespace Line

theorem units_eq (l : Line) : l.units = Text.units l.whole := by
  obtain ⟨chars, ending⟩ := l
  rw [units, whole, Text.units_append]
  cases ending <;> rfl

def before (lines : List Line) (k : Nat) : List Char := (lines.take k).flatMap whole

@[simp] theorem before_zero (lines : List Line) : before lines 0 = [] := rfl

@[simp] theorem before_cons (l : Line) (lines : List Line) (k : Nat) :
    before (l :: lines) (k + 1) = l.whole ++ before lines k := rfl

theorem before_succ {lines : List Line} {k : Nat} {l : Line} (found : lines[k]? = some l) :
    before lines (k + 1) = before lines k ++ l.whole := by
  rw [before, List.take_add_one, found, List.flatMap_append]
  simp [before]

theorem units_before_mono (lines : List Line) {j k : Nat} (le : j ≤ k) :
    Text.units (before lines j) ≤ Text.units (before lines k) := by
  obtain ⟨more, longer⟩ : before lines j <+: before lines k :=
    List.IsPrefix.flatMap (List.take_prefix_take_left le) whole
  rw [← longer, Text.units_append]
  exact Nat.le_add_right _ _

/-- Line `k` is the last one that starts at the offset or before it. -/
structure Holds (lines : List Line) (offset k : Nat) : Prop where
  inside : k < lines.length
  starts : Text.units (before lines k) ≤ offset
  ends : k + 1 < lines.length → offset < Text.units (before lines (k + 1))

namespace Holds

variable {lines : List Line} {offset k : Nat} (holds : Holds lines offset k)
include holds

theorem starts_iff {j : Nat} (inside : j < lines.length) :
    Text.units (before lines j) ≤ offset ↔ j ≤ k := by
  constructor
  · intro starts
    apply Nat.le_of_not_lt
    intro later
    have ends := holds.ends (by omega)
    have beyond := units_before_mono lines (show k + 1 ≤ j from later)
    omega
  · intro earlier
    exact Nat.le_trans (units_before_mono lines earlier) holds.starts

theorem mono {offset' k' : Nat} (holds' : Holds lines offset' k') (le : offset ≤ offset') :
    k ≤ k' :=
  (holds'.starts_iff holds.inside).mp (Nat.le_trans holds.starts le)

theorem unique {k' : Nat} (holds' : Holds lines offset k') : k = k' :=
  Nat.le_antisymm (holds.mono holds' (Nat.le_refl _)) (holds'.mono holds (Nat.le_refl _))

end Holds

theorem locate_holds (line offset : Nat) {lines : List Line} (nonempty : lines ≠ []) :
    ∃ k, Holds lines offset k ∧
      locate line offset lines = ⟨line + k, offset - Text.units (before lines k) + 1⟩ := by
  induction line, offset, lines using locate.induct with
  | case1 line offset l next rest reached ih =>
    obtain ⟨k, holds, found⟩ := ih (List.cons_ne_nil _ _)
    have skipped := l.units_eq
    have starts := holds.starts
    refine ⟨k + 1, ⟨?_, ?_, fun more => ?_⟩, ?_⟩
    · exact Nat.succ_lt_succ holds.inside
    · rw [before_cons, Text.units_append]
      omega
    · have ends := holds.ends (Nat.lt_of_succ_lt_succ more)
      rw [before_cons, Text.units_append]
      omega
    · rw [locate, if_pos reached, found, before_cons, Text.units_append, Position.mk.injEq]
      omega
  | case2 line offset l next rest short =>
    refine ⟨0, ⟨Nat.zero_lt_succ _, Nat.zero_le _, fun _ => ?_⟩, ?_⟩
    · rw [before_cons, before_zero, List.append_nil, ← l.units_eq]
      exact Nat.lt_of_not_le short
    · rw [locate, if_neg short]
      rfl
  | case3 lines line offset single =>
    cases lines with
    | nil => exact absurd rfl nonempty
    | cons l rest =>
      cases rest with
      | cons next rest => exact absurd rfl (single l next rest)
      | nil => exact ⟨0, ⟨Nat.zero_lt_one, Nat.zero_le _, fun more => by simp at more⟩, rfl⟩

/-! Where lines start -/

/-- A line starts between the two parts of a text: at its very start, behind a feed, and behind a
return that no feed follows. -/
def Starts (front back : List Char) : Prop :=
  front = [] ∨ front.getLast? = some '\n' ∨
    (front.getLast? = some '\r' ∧ back.head? ≠ some '\n')

theorem starts_behind (line : List Char) (ending : LineEnd) {front back : List Char}
    (complete : ending = .ret → (front ++ back).head? ≠ some '\n') :
    Starts (line ++ ending.chars ++ front) back ↔ Starts front back := by
  cases front with
  | cons c cs => simp [Starts, List.getLast?_append]
  | nil =>
    refine iff_of_true (.inr ?_) (.inl rfl)
    cases ending with
    | feed => exact .inl (by simp [LineEnd.chars])
    | both => exact .inl (by simp [LineEnd.chars])
    | ret => exact .inr ⟨by simp [LineEnd.chars], complete rfl⟩

theorem not_starts_of_plain {front : List Char} (nonempty : front ≠ []) (plain : Plain front)
    (back : List Char) : ¬ Starts front back := by
  rintro (empty | feed | ⟨ret, _⟩)
  · exact nonempty empty
  · exact plain.2 (List.mem_of_getLast? feed)
  · exact plain.1 (List.mem_of_getLast? ret)

theorem ending_cut {ending : LineEnd} {c : Char} {part more : List Char}
    (cut : ending.chars = c :: part ++ more) (left : more ≠ []) :
    c = '\r' ∧ part = [] ∧ more = ['\n'] := by
  cases ending with
  | feed => simp_all [LineEnd.chars]
  | ret => simp_all [LineEnd.chars]
  | both =>
    obtain ⟨rfl, tail⟩ := List.cons.inj cut
    cases part with
    | nil => exact ⟨rfl, rfl, tail.symm⟩
    | cons d part => simp_all

theorem not_starts_within {line front more : List Char} (plain : Plain line) {ending : LineEnd}
    (cut : line ++ ending.chars = front ++ more) (inner : front ≠ [] ∧ more ≠ [])
    (rest : List Char) : ¬ Starts front (more ++ rest) := by
  obtain ⟨nonempty, left⟩ := inner
  rcases List.append_eq_append_iff.mp cut with ⟨part, rfl, tail⟩ | ⟨part, rfl, _⟩
  · cases part with
    | nil =>
      rw [List.append_nil] at nonempty ⊢
      exact not_starts_of_plain nonempty plain _
    | cons c part =>
      obtain ⟨rfl, rfl, rfl⟩ := ending_cut tail left
      simp [Starts]
  · exact not_starts_of_plain nonempty plain.left _

theorem whole_nonempty (line : List Char) (ending : LineEnd) :
    whole ⟨line, some ending⟩ ≠ [] := by
  cases ending <;> simp [whole, LineEnd.chars]

theorem exists_before_cons {l : Line} (nonempty : l.whole ≠ []) {lines : List Line}
    {front : List Char} :
    (∃ k < (l :: lines).length, before (l :: lines) k = l.whole ++ front) ↔
      ∃ k < lines.length, before lines k = front := by
  constructor
  · rintro ⟨k, inside, same⟩
    cases k with
    | zero => exact absurd (List.append_eq_nil_iff.mp same.symm).1 nonempty
    | succ k => exact ⟨k, Nat.lt_of_succ_lt_succ inside, List.append_cancel_left same⟩
  · rintro ⟨k, inside, rfl⟩
    exact ⟨k + 1, Nat.succ_lt_succ inside, rfl⟩

theorem Divided.starts_iff {cs : List Char} {lines : List Line} (divided : Divided cs lines)
    {front back : List Char} (cut : cs = front ++ back) :
    Starts front back ↔ ∃ k < lines.length, before lines k = front := by
  induction divided generalizing front with
  | @last line plain =>
    by_cases empty : front = []
    · exact iff_of_true (.inl empty) ⟨0, Nat.zero_lt_one, empty.symm⟩
    · refine iff_of_false (not_starts_of_plain empty ?_ back) ?_
      · subst cut
        exact plain.left
      · rintro ⟨k, inside, rfl⟩
        obtain rfl : k = 0 := by simpa using inside
        exact empty rfl
  | @next line rest lines plain ending complete others ih =>
    have behind {more : List Char} (same : front = line ++ ending.chars ++ more)
        (later : rest = more ++ back) :
        Starts front back ↔ ∃ k < lines.length + 1,
          before (⟨line, some ending⟩ :: lines) k = front := by
      rw [same, starts_behind line ending (later ▸ complete), ih later]
      exact (exists_before_cons (whole_nonempty line ending)).symm
    rcases List.append_eq_append_iff.mp cut with ⟨more, same, later⟩ | ⟨more, same, rfl⟩
    · exact behind same later
    · by_cases inner : front ≠ [] ∧ more ≠ []
      · refine iff_of_false (not_starts_within plain same inner rest) ?_
        rintro ⟨k, _, found⟩
        cases k with
        | zero => exact inner.1 found.symm
        | succ k =>
          have lengths := congrArg List.length found
          have longer := congrArg List.length same
          have positive := List.length_pos_iff.mpr inner.2
          simp only [before_cons, whole, Option.map_some, Option.getD_some, List.length_append]
            at lengths longer
          omega
      · by_cases empty : front = []
        · exact iff_of_true (.inl empty) ⟨0, Nat.zero_lt_succ _, empty.symm⟩
        · obtain rfl : more = [] := by simpa [empty] using inner
          exact @behind [] (by simpa using same.symm) rfl

/-! Where characters stand -/

theorem not_mem_ending {c : Char} (ordinary : c ≠ '\r' ∧ c ≠ '\n') (ending : LineEnd) :
    c ∉ ending.chars := by
  cases ending <;> simp [LineEnd.chars, ordinary]

theorem ordinary_cut {line front more : List Char} {c : Char}
    (ordinary : c ≠ '\r' ∧ c ≠ '\n') {ending : LineEnd}
    (cut : line ++ ending.chars = front ++ c :: more) : ∃ right, line = front ++ c :: right := by
  have absent := not_mem_ending ordinary ending
  rcases List.append_eq_append_iff.mp cut with ⟨part, _, tail⟩ | ⟨part, whole, tail⟩
  · exact absurd (tail ▸ List.mem_append_right _ List.mem_cons_self) absent
  · cases part with
    | nil =>
      rw [List.nil_append] at tail
      exact absurd (tail ▸ List.mem_cons_self) absent
    | cons d part =>
      obtain ⟨rfl, _⟩ := List.cons.inj tail
      exact ⟨part, whole⟩

theorem Divided.stands {cs : List Char} {lines : List Line} (divided : Divided cs lines) {c : Char}
    (ordinary : c ≠ '\r' ∧ c ≠ '\n') {front back : List Char} (cut : cs = front ++ c :: back) :
    ∃ k left right ending, lines[k]? = some ⟨left ++ c :: right, ending⟩ ∧
      front = before lines k ++ left := by
  induction divided generalizing front with
  | last _ =>
    subst cut
    exact ⟨0, front, back, none, rfl, rfl⟩
  | @next line rest lines plain ending complete others ih =>
    have behind {more : List Char} (same : front = line ++ ending.chars ++ more)
        (later : rest = more ++ c :: back) :
        ∃ k left right ending', (⟨line, some ending⟩ :: lines)[k]? =
            some ⟨left ++ c :: right, ending'⟩ ∧
          front = before (⟨line, some ending⟩ :: lines) k ++ left := by
      obtain ⟨k, left, right, ending', found, rfl⟩ := ih later
      exact ⟨k + 1, left, right, ending', by simpa using found, by simp [same, whole]⟩
    rcases List.append_eq_append_iff.mp cut with ⟨more, same, later⟩ | ⟨more, same, later⟩
    · exact behind same later
    · cases more with
      | nil => exact @behind [] (by simpa using same.symm) later.symm
      | cons d more =>
        obtain ⟨rfl, _⟩ := List.cons.inj later
        obtain ⟨right, rfl⟩ := ordinary_cut ordinary same
        exact ⟨0, front, right, some ending, rfl, rfl⟩

theorem Holds.of_stands {lines : List Line} {k : Nat} {left right : List Char} {c : Char}
    {ending : Option LineEnd} (found : lines[k]? = some ⟨left ++ c :: right, ending⟩) :
    Holds lines (Text.units (before lines k ++ left)) k := by
  refine ⟨(List.getElem?_eq_some_iff.mp found).1, ?_, fun _ => ?_⟩
  · rw [Text.units_append]
    exact Nat.le_add_right _ _
  · have positive := Text.unitSize_pos c
    rw [before_succ found]
    simp only [whole, Text.units_append, Text.units]
    omega

theorem Divided.nonempty {cs : List Char} {lines : List Line} (divided : Divided cs lines) :
    lines ≠ [] := by
  cases divided <;> simp

end Line

namespace Source

/-- The text before a line, given by its number. -/
def before (s : Source) (line : Nat) : List Char := Line.before s.lines (line - 1)

theorem units_eq (text : String) : (ofString text).units = Text.units text.toList := by
  have sum (lines : List Line) :
      (lines.map Line.units).foldr (· + ·) 0 = Text.units (lines.flatMap Line.whole) := by
    induction lines with
    | nil => rfl
    | cons l lines ih => simp [ih, Line.units_eq, Text.units_append]
  rw [units, sum, ofString, (Line.divided_split text.toList).flatMap_whole]

theorem position_holds (text : String) (offset : Nat) :
    let s := ofString text
    let o := min offset (Text.units text.toList)
    ∃ k, Line.Holds s.lines o k ∧
      s.position offset = ⟨k + 1, o - Text.units (s.before (k + 1)) + 1⟩ := by
  intro s o
  obtain ⟨k, holds, found⟩ := Line.locate_holds 1 o (Line.divided_split text.toList).nonempty
  refine ⟨k, holds, ?_⟩
  rw [position, units_eq]
  rw [Nat.add_comm 1 k] at found
  exact found

theorem position_of_holds {text : String} {offset k : Nat}
    (inside : offset ≤ Text.units text.toList) (holds : Line.Holds (ofString text).lines offset k) :
    (ofString text).position offset =
      ⟨k + 1, offset - Text.units ((ofString text).before (k + 1)) + 1⟩ := by
  obtain ⟨j, other, found⟩ := position_holds text offset
  rw [Nat.min_eq_left inside] at other found
  rw [found, other.unique holds]

theorem starts_iff {text : String} {front back : List Char} (cut : text.toList = front ++ back) :
    Line.Starts front back ↔ ∃ line, 1 ≤ line ∧ line ≤ (ofString text).lineCount ∧
      (ofString text).before line = front := by
  rw [(Line.divided_split text.toList).starts_iff cut]
  constructor
  · rintro ⟨k, inside, rfl⟩
    exact ⟨k + 1, Nat.le_add_left 1 k, inside, rfl⟩
  · rintro ⟨line, first, last, rfl⟩
    exact ⟨line - 1, Nat.lt_of_lt_of_le (Nat.sub_lt first Nat.one_pos) last, rfl⟩

theorem position_spec (text : String) (offset : Nat) :
    let s := ofString text
    let o := min offset (Text.units text.toList)
    let p := s.position offset
    1 ≤ p.line ∧ p.line ≤ s.lineCount ∧ 1 ≤ p.column ∧
      Text.units (s.before p.line) + (p.column - 1) = o ∧
      ∀ line, 1 ≤ line → line ≤ s.lineCount → (Text.units (s.before line) ≤ o ↔ line ≤ p.line) := by
  intro s o p
  obtain ⟨k, holds, found⟩ := position_holds text offset
  have starts : Text.units (s.before (k + 1)) ≤ o := holds.starts
  have place : p = ⟨k + 1, o - Text.units (s.before (k + 1)) + 1⟩ := found
  rw [place]
  refine ⟨Nat.le_add_left 1 k, holds.inside, Nat.le_add_left 1 _, ?_, fun line first last => ?_⟩
  · rw [Nat.add_sub_cancel]
    exact Nat.add_sub_cancel' starts
  · have inside : line - 1 < s.lines.length :=
      Nat.lt_of_lt_of_le (Nat.sub_lt first Nat.one_pos) last
    exact (holds.starts_iff inside).trans Nat.sub_le_iff_le_add

theorem position_lt {text : String} {o o' : Nat} (less : o < o')
    (inside : o' ≤ Text.units text.toList) :
    let p := (ofString text).position o
    let p' := (ofString text).position o'
    p.line < p'.line ∨ p.line = p'.line ∧ p.column < p'.column := by
  intro p p'
  obtain ⟨k, holds, found⟩ := position_holds text o
  obtain ⟨k', holds', found'⟩ := position_holds text o'
  rw [Nat.min_eq_left (Nat.le_of_lt (Nat.lt_of_lt_of_le less inside))] at holds found
  rw [Nat.min_eq_left inside] at holds' found'
  have place : p = _ := found
  have place' : p' = _ := found'
  rw [place, place']
  rcases Nat.lt_or_eq_of_le (holds.mono holds' (Nat.le_of_lt less)) with earlier | rfl
  · exact .inl (Nat.succ_lt_succ earlier)
  · have starts : Text.units ((ofString text).before (k + 1)) ≤ o := holds.starts
    refine .inr ⟨rfl, ?_⟩
    change _ + 1 < _ + 1
    omega

theorem position_beyond {text : String} {offset : Nat} (beyond : Text.units text.toList ≤ offset) :
    (ofString text).position offset = (ofString text).position (Text.units text.toList) := by
  rw [position, position, units_eq, Nat.min_eq_right beyond, Nat.min_self]

theorem position_of_ordinary {text : String} {front back : List Char} {c : Char}
    (cut : text.toList = front ++ c :: back) (ordinary : c ≠ '\r' ∧ c ≠ '\n') :
    let p := (ofString text).position (Text.units front)
    ∃ left right, (ofString text).lineText p.line = some (String.ofList (left ++ c :: right)) ∧
      Text.units left = p.column - 1 := by
  intro p
  have inside : Text.units front ≤ Text.units text.toList := by
    rw [cut, Text.units_append]
    exact Nat.le_add_right _ _
  obtain ⟨k, left, right, ending, found, rfl⟩ :=
    (Line.divided_split text.toList).stands ordinary cut
  have place : p = _ := position_of_holds inside (.of_stands found)
  refine ⟨left, right, ?_, ?_⟩
  · rw [place, lineText_succ]
    exact congrArg (Option.map Line.text) found
  · rw [place, Text.units_append]
    exact (Nat.add_sub_cancel_left ..).symm

/-- Positions are exact. Lines start where the text says that they start; an offset, or the end of
the text for any beyond, lies in the last line that starts at it or before it, and as many code
units behind the start of the line as its column counts. So positions grow with the offset up to the
end of the text, and an ordinary character stands in the text of its line right where its position
says. -/
theorem position_exact (text : String) :
    let s := Source.ofString text
    let length := Text.units text.toList
    (∀ front back, text.toList = front ++ back → (Line.Starts front back ↔
      ∃ line, 1 ≤ line ∧ line ≤ s.lineCount ∧ s.before line = front)) ∧
    (∀ offset, let p := s.position offset
      1 ≤ p.line ∧ p.line ≤ s.lineCount ∧ 1 ≤ p.column ∧
      Text.units (s.before p.line) + (p.column - 1) = min offset length ∧
      ∀ line, 1 ≤ line → line ≤ s.lineCount →
        (Text.units (s.before line) ≤ min offset length ↔ line ≤ p.line)) ∧
    (∀ o o', o < o' → o' ≤ length → (s.position o).line < (s.position o').line ∨
      (s.position o).line = (s.position o').line ∧
        (s.position o).column < (s.position o').column) ∧
    (∀ offset, length ≤ offset → s.position offset = s.position length) ∧
    ∀ front c back, text.toList = front ++ c :: back → c ≠ '\r' ∧ c ≠ '\n' →
      let p := s.position (Text.units front)
      ∃ left right, s.lineText p.line = some (String.ofList (left ++ c :: right)) ∧
        Text.units left = p.column - 1 :=
  ⟨fun _ _ cut => starts_iff cut, position_spec text,
    fun _ _ less inside => position_lt less inside, fun _ beyond => position_beyond beyond,
    fun _ _ _ cut ordinary => position_of_ordinary cut ordinary⟩

/-- A character of two units between two endings: its position, an offset inside the first ending,
and one beyond the text. -/
theorem position_exact_mixed :
    let front := ['a', '\r', '\n']
    let back := ['\r', '\r', 'x']
    let text := String.ofList (front ++ '😀' :: back)
    let s := Source.ofString text
    text.toList = front ++ '😀' :: back ∧ Line.Starts front ('😀' :: back) ∧
      (∃ line, 1 ≤ line ∧ line ≤ s.lineCount ∧ s.before line = front) ∧
      ((s.position 2).line < (s.position 3).line ∨ (s.position 2).line = (s.position 3).line ∧
        (s.position 2).column < (s.position 3).column) ∧
      s.position 2 = ⟨1, 3⟩ ∧ s.position 3 = ⟨2, 1⟩ ∧ s.position 100 = s.position 8 ∧
      ∃ left right, s.lineText 2 = some (String.ofList (left ++ '😀' :: right)) ∧
        Text.units left = 0 := by
  intro front back text s
  have cut : text.toList = front ++ '😀' :: back := String.toList_ofList
  have length : Text.units text.toList = 8 := by
    rw [cut]
    decide
  have at3 : s.position 3 = ⟨2, 1⟩ := by decide +kernel
  obtain ⟨starts, _, grows, beyond, stands⟩ := position_exact text
  have begins : Line.Starts front ('😀' :: back) := .inr (.inl rfl)
  have later := grows 2 3 (by decide) (by rw [length]; decide)
  refine ⟨cut, begins, (starts front _ cut).mp begins, later, by decide +kernel, at3, ?_, ?_⟩
  · have last := beyond 100 (by rw [length]; decide)
    rwa [length] at last
  · obtain ⟨left, right, shown, column⟩ := stands front '😀' back cut (by decide)
    have place : (ofString text).position (Text.units front) = ⟨2, 1⟩ := at3
    rw [place] at shown column
    exact ⟨left, right, shown, column⟩

end Source
end ScriptCheck
