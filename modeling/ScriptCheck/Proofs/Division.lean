import ScriptCheck.Source.Lines

/-! The lines of a text partition it. Put one behind the other, each but the last with its ending,
they are the text again; nothing in a line could end it earlier; and the text can be divided so in
one way only. -/
namespace ScriptCheck

namespace Line

def Plain (cs : List Char) : Prop := '\r' ∉ cs ∧ '\n' ∉ cs

def whole (l : Line) : List Char := l.chars ++ (l.ending.map LineEnd.chars).getD []

/-- The text is divided into these lines: each but the last has an ending, and a return is an ending
of its own only where no feed follows. -/
inductive Divided : List Char → List Line → Prop where
  | last {line : List Char} (plain : Plain line) : Divided line [⟨line, none⟩]
  | next {line rest : List Char} {lines : List Line} (plain : Plain line) (ending : LineEnd)
      (complete : ending = .ret → rest.head? ≠ some '\n') (others : Divided rest lines) :
      Divided (line ++ ending.chars ++ rest) (⟨line, some ending⟩ :: lines)

theorem plain_nil : Plain [] := ⟨by simp, by simp⟩

theorem plain_cons {c : Char} {cs : List Char} :
    Plain (c :: cs) ↔ (c ≠ '\r' ∧ c ≠ '\n') ∧ Plain cs := by
  simp only [Plain, List.mem_cons, not_or, ne_eq, eq_comm (b := c)]
  exact and_and_and_comm

theorem Plain.left {front back : List Char} (plain : Plain (front ++ back)) : Plain front :=
  ⟨fun ret => plain.1 (List.mem_append_left _ ret),
    fun feed => plain.2 (List.mem_append_left _ feed)⟩

theorem Divided.extend {c : Char} (ordinary : c ≠ '\r' ∧ c ≠ '\n') {cs : List Char}
    {lines : List Line} (divided : Divided cs lines) :
    Divided (c :: cs) (Line.extend c lines) := by
  cases divided with
  | last plain => exact .last (plain_cons.mpr ⟨ordinary, plain⟩)
  | next plain ending complete others =>
    exact .next (plain_cons.mpr ⟨ordinary, plain⟩) ending complete others

theorem split_cons {c : Char} (ordinary : c ≠ '\r' ∧ c ≠ '\n') (cs : List Char) :
    split (c :: cs) = Line.extend c (split cs) :=
  split.eq_5 c cs (fun _ same => absurd same ordinary.1) ordinary.1 ordinary.2

theorem split_ending (ending : LineEnd) {rest : List Char}
    (complete : ending = .ret → rest.head? ≠ some '\n') :
    split (ending.chars ++ rest) = ⟨[], some ending⟩ :: split rest := by
  cases ending with
  | feed => rfl
  | both => rfl
  | ret =>
    refine split.eq_3 rest fun cs same => ?_
    exact complete rfl (by rw [same]; rfl)

theorem divided_split (cs : List Char) : Divided cs (split cs) := by
  induction cs using split.induct with
  | case1 => exact .last plain_nil
  | case2 cs ih => exact .next plain_nil .both (by simp) ih
  | case3 cs alone ih =>
    have complete : LineEnd.ret = .ret → cs.head? ≠ some '\n' := by
      rintro - feed
      obtain ⟨rest, rfl⟩ := List.head?_eq_some_iff.mp feed
      exact alone rest rfl
    rw [show '\r' :: cs = LineEnd.ret.chars ++ cs from rfl, split_ending .ret complete]
    exact .next plain_nil .ret complete ih
  | case4 cs ih => exact .next plain_nil .feed (by simp) ih
  | case5 c cs _ ret feed ih =>
    rw [split_cons ⟨ret, feed⟩]
    exact ih.extend ⟨ret, feed⟩

theorem split_append {line : List Char} (plain : Plain line) {cs : List Char} {l : Line}
    {lines : List Line} (found : split cs = l :: lines) :
    split (line ++ cs) = ⟨line ++ l.chars, l.ending⟩ :: lines := by
  induction line with
  | nil => exact found
  | cons c line ih =>
    obtain ⟨ordinary, plain⟩ := plain_cons.mp plain
    rw [List.cons_append, split_cons ordinary, ih plain]
    rfl

theorem Divided.eq_split {cs : List Char} {lines : List Line} (divided : Divided cs lines) :
    lines = split cs := by
  induction divided with
  | last plain =>
    have alone := split_append plain (show split [] = _ from rfl)
    simpa using alone.symm
  | next plain ending complete _ ih =>
    rw [List.append_assoc, split_append plain (split_ending ending complete), ih, List.append_nil]

theorem Divided.flatMap_whole {cs : List Char} {lines : List Line} (divided : Divided cs lines) :
    lines.flatMap whole = cs := by
  induction divided with
  | last _ => simp [whole]
  | next _ ending _ _ ih => simp [whole, ih]

theorem Divided.plain {cs : List Char} {lines : List Line} (divided : Divided cs lines) :
    ∀ l ∈ lines, Plain l.chars := by
  induction divided with
  | last plain => simpa using plain
  | next plain _ _ _ ih => exact List.forall_mem_cons.mpr ⟨plain, ih⟩

end Line

namespace Source

theorem lineText_succ (s : Source) (n : Nat) :
    s.lineText (n + 1) = s.lines[n]?.map Line.text := by
  simp [lineText]

theorem lineText_eq_none_iff (s : Source) (n : Nat) :
    s.lineText n = none ↔ n = 0 ∨ s.lineCount < n := by
  cases n with
  | zero => simp [lineText]
  | succ n =>
    rw [lineText_succ, Option.map_eq_none_iff, List.getElem?_eq_none_iff, lineCount]
    omega

end Source
end ScriptCheck
