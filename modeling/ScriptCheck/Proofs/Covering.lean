import ScriptCheck.Diagnostic.Rendering
import ScriptCheck.Proofs.Offsets

/-! A rendering shows the lines that its range touches, in order and with their texts, and colours
change nothing in it but the colour. -/
namespace ScriptCheck

namespace Line

theorem Divided.ended {cs : List Char} {lines : List Line} (divided : Divided cs lines) {k : Nat}
    (more : k + 1 < lines.length) : ∃ line ending, lines[k]? = some ⟨line, some ending⟩ := by
  induction divided generalizing k with
  | last _ => exact absurd more (by simp)
  | @next line _ _ _ ending _ _ ih =>
    cases k with
    | zero => exact ⟨line, ending, rfl⟩
    | succ k => exact ih (Nat.lt_of_succ_lt_succ more)

theorem Divided.units_before_lt {cs : List Char} {lines : List Line} (divided : Divided cs lines)
    {k : Nat} (more : k + 1 < lines.length) :
    Text.units (before lines k) < Text.units (before lines (k + 1)) := by
  obtain ⟨line, ending, found⟩ := divided.ended more
  obtain ⟨c, rest, ends⟩ := List.exists_cons_of_ne_nil (whole_nonempty line ending)
  have positive := Text.unitSize_pos c
  rw [before_succ found, Text.units_append, ends, Text.units]
  omega

end Line

namespace Source

def Owns (s : Source) (line offset : Nat) : Prop :=
  Text.units (s.before line) ≤ offset ∧ offset < Text.units (s.before (line + 1))

theorem before_end (text : String) :
    (ofString text).before ((ofString text).lineCount + 1) = text.toList := by
  rw [before, Nat.add_sub_cancel, lineCount, Line.before, List.take_length]
  exact (Line.divided_split text.toList).flatMap_whole

theorem position_line_mono (text : String) {o o' : Nat} (le : o ≤ o') :
    ((ofString text).position o).line ≤ ((ofString text).position o').line := by
  obtain ⟨low, high, _, place, _⟩ := position_spec text o
  obtain ⟨_, _, _, _, starts⟩ := position_spec text o'
  refine (starts _ low high).mp ?_
  omega

theorem linesOf_bounds (text : String) (span : Span) :
    let lines := (ofString text).linesOf span
    1 ≤ lines.1 ∧ lines.1 ≤ lines.2 ∧ lines.2 ≤ (ofString text).lineCount :=
  ⟨(position_spec text _).1, position_line_mono text (Nat.le_max_right ..),
    (position_spec text _).2.1⟩

theorem owns_iff {text : String} {line u : Nat} (inside : u < Text.units text.toList)
    (low : 1 ≤ line) (high : line ≤ (ofString text).lineCount) :
    (ofString text).Owns line u ↔ ((ofString text).position u).line = line := by
  obtain ⟨_, bound, _, _, starts⟩ := position_spec text u
  rw [Nat.min_eq_left (Nat.le_of_lt inside)] at starts
  have ends : u < Text.units ((ofString text).before (line + 1)) ↔
      ((ofString text).position u).line ≤ line := by
    rcases Nat.lt_or_eq_of_le high with more | rfl
    · have next := starts (line + 1) (Nat.le_add_left 1 line) more
      omega
    · rw [before_end]
      exact iff_of_true inside bound
  rw [Owns, starts line low high, ends, eq_comm, Nat.le_antisymm_iff]

/-- A range inside the text touches the lines between those of its first and of its last code
unit, both included. -/
theorem touched_iff {text : String} {start stop line : Nat} (nonempty : start < stop)
    (inside : stop ≤ Text.units text.toList) (low : 1 ≤ line)
    (high : line ≤ (ofString text).lineCount) :
    ((ofString text).position start).line ≤ line ∧
        line ≤ ((ofString text).position (stop - 1)).line ↔
      ∃ u, start ≤ u ∧ u < stop ∧ (ofString text).Owns line u := by
  constructor
  · rintro ⟨first, last⟩
    rcases Nat.lt_or_eq_of_le first with later | same
    · obtain ⟨_, _, _, _, starts⟩ := position_spec text start
      obtain ⟨_, _, _, _, starts'⟩ := position_spec text (stop - 1)
      have behind := starts line low high
      have reached := (starts' line low high).mpr last
      have short : Text.units ((ofString text).before line) < stop := by omega
      refine ⟨_, by omega, short, Nat.le_refl _, ?_⟩
      rcases Nat.lt_or_eq_of_le high with more | rfl
      · have longer := (Line.divided_split text.toList).units_before_lt (k := line - 1)
          (by rw [Nat.sub_add_cancel low]; exact more)
        rwa [Nat.sub_add_cancel low] at longer
      · rw [before_end]
        exact Nat.lt_of_lt_of_le short inside
    · exact ⟨start, Nat.le_refl _, nonempty,
        (owns_iff (Nat.lt_of_lt_of_le nonempty inside) low high).mpr same⟩
  · rintro ⟨u, from_start, before_stop, owns⟩
    obtain rfl := (owns_iff (Nat.lt_of_lt_of_le before_stop inside) low high).mp owns
    exact ⟨position_line_mono text from_start,
      position_line_mono text (Nat.le_sub_one_of_lt before_stop)⟩

end Source

namespace Rendering

/-- Lines with their numbers: those from `first` to `last` in order, each with its text. -/
structure Numbered (s : Source) (first last : Nat) (rows : List (Nat × String)) : Prop where
  ordered : (rows.map Prod.fst).Pairwise (· < ·)
  numbers : ∀ n, n ∈ rows.map Prod.fst ↔ first ≤ n ∧ n ≤ last
  texts : ∀ r ∈ rows, s.lineText r.1 = some r.2

theorem mem_lineNumbers {first last n : Nat} :
    n ∈ lineNumbers first last ↔ first ≤ n ∧ n ≤ last := by
  rw [lineNumbers, List.mem_range'_1]
  omega

theorem numbered_lineNumbers {s : Source} {first last : Nat} (low : 1 ≤ first)
    (high : last ≤ s.lineCount) :
    Numbered s first last ((lineNumbers first last).map fun n => (n, (s.lineText n).getD "")) := by
  have numbers : ((lineNumbers first last).map fun n => (n, (s.lineText n).getD "")).map Prod.fst =
      lineNumbers first last := by
    simp [Function.comp_def]
  refine ⟨?_, fun n => ?_, fun r member => ?_⟩
  · rw [numbers]
    exact List.pairwise_lt_range'
  · rw [numbers, mem_lineNumbers]
  · obtain ⟨n, listed, rfl⟩ := List.mem_map.mp member
    obtain ⟨above, below⟩ := mem_lineNumbers.mp listed
    have present : s.lineText n ≠ none := by
      rw [ne_eq, Source.lineText_eq_none_iff]
      omega
    obtain ⟨t, found⟩ := Option.ne_none_iff_exists'.mp present
    simp [found]

/-! Colours -/

inductive Reading where
  | text
  | escape
  | code

/-- The text without its colour sequences: an escape, a bracket, digits and an `m`. Nothing else may
follow an escape. -/
def strip : Reading → List Char → Option (List Char)
  | .text, [] => some []
  | .text, c :: cs => if c = '\x1b' then strip .escape cs else (strip .text cs).map (c :: ·)
  | .escape, c :: cs => if c = '[' then strip .code cs else none
  | .code, c :: cs =>
    if c.isDigit then strip .code cs else if c = 'm' then strip .text cs else none
  | _, [] => none

/-- Without its colour sequences, the one text is the other, whatever follows. -/
def Fades (coloured plain : String) : Prop :=
  ∀ rest, strip .text (coloured.toList ++ rest) = (strip .text rest).map (plain.toList ++ ·)

theorem Fades.append {a b c d : String} (left : Fades a b) (right : Fades c d) :
    Fades (a ++ c) (b ++ d) := by
  intro rest
  rw [String.toList_append, List.append_assoc, left, right, Option.map_map]
  simp [Function.comp_def]

theorem Fades.join {rows : List Nat} {f g : Nat → String} (each : ∀ n ∈ rows, Fades (f n) (g n)) :
    Fades (String.join (rows.map f)) (String.join (rows.map g)) := by
  induction rows with
  | nil =>
    intro rest
    simp
  | cons n rows ih =>
    obtain ⟨here, others⟩ := List.forall_mem_cons.mp each
    rw [List.map_cons, List.map_cons, String.join_cons, String.join_cons]
    exact here.append (ih others)

theorem fades_self {t : String} (clean : '\x1b' ∉ t.toList) : Fades t t := by
  intro rest
  generalize t.toList = cs at clean ⊢
  induction cs with
  | nil => simp
  | cons c cs ih =>
    obtain ⟨other, clean⟩ := not_or.mp (List.mem_cons.not.mp clean)
    rw [List.cons_append, strip, if_neg (Ne.symm other), ih clean, Option.map_map]
    rfl

theorem fades_colour {colour : String} (known : colour ∈ [red, blue, reset]) : Fades colour "" := by
  simp only [List.mem_cons, List.not_mem_nil, or_false] at known
  intro rest
  rcases known with rfl | rfl | rfl <;> simp [red, blue, reset, strip]

theorem fades_paint {colour text : String} (known : colour ∈ [red, blue])
    (clean : '\x1b' ∉ text.toList) : Fades (paint true colour text) (paint false colour text) := by
  have opened : Fades colour "" := fades_colour (List.mem_append_left [reset] known)
  have closed : Fades reset "" := fades_colour (by simp)
  simpa [paint] using (opened.append (fades_self clean)).append closed

theorem clean_number (n : Nat) : '\x1b' ∉ (toString n).toList := by
  intro member
  have digits : (toString n).toList = Nat.toDigits 10 n := Nat.toList_repr
  rw [digits] at member
  exact absurd (Nat.isDigit_of_mem_toDigits (by decide) (by decide) member) (by decide)

theorem clean_lineText {text : String} (clean : '\x1b' ∉ text.toList) (n : Nat) :
    '\x1b' ∉ (((Source.ofString text).lineText n).getD "").toList := by
  cases n with
  | zero => simp [Source.lineText]
  | succ n =>
    rw [Source.lineText_succ]
    cases found : (Source.ofString text).lines[n]? with
    | none => simp
    | some l =>
      intro member
      refine clean ?_
      rw [← (Line.divided_split text.toList).flatMap_whole]
      refine List.mem_flatMap.mpr ⟨l, List.mem_of_getElem? found, List.mem_append_left _ ?_⟩
      simpa [Line.text] using member

theorem fades_row {text : String} (clean : '\x1b' ∉ text.toList) (n : Nat) :
    Fades (row true (Source.ofString text) n) (row false (Source.ofString text) n) := by
  have number : Fades (paint true blue (toString n)) (paint false blue (toString n)) :=
    fades_paint (by simp) (clean_number n)
  exact ((((fades_self (by decide)).append number).append (fades_self (by decide))).append
    (fades_self (clean_lineText clean n))).append (fades_self (by decide))

theorem fades_heading {message : String} (clean : '\x1b' ∉ message.toList) :
    Fades (heading true message) (heading false message) := by
  have label : Fades (paint true red "ERROR:") (paint false red "ERROR:") :=
    fades_paint (by simp) (by decide)
  exact ((label.append (fades_self (by decide))).append (fades_self clean)).append
    (fades_self (by decide))

theorem fades_render {text message : String} (source : '\x1b' ∉ text.toList)
    (clean : '\x1b' ∉ message.toList) (span : Span) :
    Fades (render true (Source.ofString text) message span)
      (render false (Source.ofString text) message span) :=
  (fades_heading clean).append (.join fun n _ => fades_row source n)

end Rendering
end ScriptCheck
