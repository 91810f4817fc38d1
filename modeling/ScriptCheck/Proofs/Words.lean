import Mathlib.Tactic.Common
import ScriptCheck.Ty.Token

/-! Cutting a text into words goes along the text. The words do not depend on where the text
stands, and each kind of word is cut off the front and leaves the words of what follows. -/
namespace ScriptCheck.Ty

def blanks : List Nat := [9, 10, 11, 12, 13, 0x20, 0x85, 0xa0, 0x1680, 0x2000, 0x2001, 0x2002,
  0x2003, 0x2004, 0x2005, 0x2006, 0x2007, 0x2008, 0x2009, 0x200a, 0x2028, 0x2029, 0x202f, 0x205f,
  0x3000]

theorem blank_listed {c : Char} (blank : Text.isBlank c = true) : c.toNat ∈ blanks := by
  simp only [Text.isBlank, Bool.or_eq_true, Bool.and_eq_true, decide_eq_true_eq, beq_iff_eq]
    at blank
  simp only [blanks, List.mem_cons, List.not_mem_nil, or_false]
  omega

theorem nameChar_of_blank {c : Char} (blank : Text.isBlank c = true) : isNameChar c = false := by
  have none : ∀ n ∈ blanks, isNameChar (Char.ofNat n) = false := by decide +kernel
  simpa using none c.toNat (blank_listed blank)

def shift (d : Nat) (l : Lexeme) : Lexeme := { l with offset := l.offset + d }

theorem attach_shift (c : Char) (offset d : Nat) (ls : List Lexeme) :
    attach c (offset + d) (ls.map (shift d)) = (attach c offset ls).map (shift d) := by
  cases ls with
  | nil => rfl
  | cons l rest =>
    obtain ⟨token, next⟩ := l
    cases token with
    | name chars =>
      have same : next + d = offset + d + c.utf8Size ↔ next = offset + c.utf8Size := by omega
      simp only [List.map_cons, shift, attach, same]
      split <;> rfl
    | ellipsis => rfl
    | mark m => rfl

theorem scan_dots (offset : Nat) (cs : List Char) :
    scan offset ('.' :: '.' :: '.' :: cs) = ⟨.ellipsis, offset⟩ :: scan (offset + 3) cs := rfl

theorem scan_cons {c : Char} {cs : List Char}
    (dots : ∀ ds, c = '.' → cs = '.' :: '.' :: ds → False) (offset : Nat) :
    scan offset (c :: cs) =
      if Text.isBlank c then scan (offset + c.utf8Size) cs
      else if isNameChar c then attach c offset (scan (offset + c.utf8Size) cs)
      else ⟨.mark c, offset⟩ :: scan (offset + c.utf8Size) cs := by
  rw [scan.eq_def]
  split
  · rename_i same
    cases same
  · rename_i ds same
    cases same
    exact (dots ds rfl rfl).elim
  · rename_i same
    cases same
    rfl

theorem scan_shift (offset d : Nat) (cs : List Char) :
    scan (offset + d) cs = (scan offset cs).map (shift d) := by
  fun_induction scan offset cs with
  | case1 => rfl
  | case2 offset cs ih =>
    rw [scan_dots, Nat.add_right_comm, ih]
    rfl
  | case3 offset c cs dots blank ih =>
    rw [scan_cons dots, if_pos blank, Nat.add_right_comm, ih]
  | case4 offset c cs dots blank name ih =>
    rw [scan_cons dots, if_neg blank, if_pos name, Nat.add_right_comm, ih, attach_shift]
  | case5 offset c cs dots blank name ih =>
    rw [scan_cons dots, if_neg blank, if_neg name, Nat.add_right_comm, ih]
    rfl

theorem scan_blank {c : Char} (blank : Text.isBlank c = true) (offset : Nat) (cs : List Char) :
    scan offset (c :: cs) = scan (offset + c.utf8Size) cs := by
  have dots (ds : List Char) (dot : c = '.') (_ : cs = '.' :: '.' :: ds) : False := by
    subst dot
    exact absurd blank (by decide)
  rw [scan_cons dots, if_pos blank]

theorem scan_nameChar {c : Char} (name : isNameChar c = true) (offset : Nat) (cs : List Char) :
    scan offset (c :: cs) = attach c offset (scan (offset + c.utf8Size) cs) := by
  have solid : ¬ Text.isBlank c = true := fun blank => by
    simp [nameChar_of_blank blank] at name
  have dots (ds : List Char) (dot : c = '.') (_ : cs = '.' :: '.' :: ds) : False := by
    subst dot
    exact absurd name (by decide)
  rw [scan_cons dots, if_neg solid, if_pos name]

theorem scan_offset {offset : Nat} {cs : List Char} {l : Lexeme} (h : l ∈ scan offset cs) :
    offset ≤ l.offset := by
  rw [← Nat.zero_add offset, scan_shift] at h
  obtain ⟨l, _, rfl⟩ := List.mem_map.mp h
  simp [shift]

def Apart (cs : List Char) : Prop := ∀ c ∈ cs.head?, isNameChar c = false

theorem apart_cons {c : Char} (mark : isNameChar c = false) (cs : List Char) : Apart (c :: cs) := by
  simpa [Apart] using mark

theorem name_later {front next : Nat} {cs chars : List Char} {rest : List Lexeme}
    (apart : Apart cs) : scan front cs = ⟨.name chars, next⟩ :: rest → front < next := by
  fun_cases scan front cs with
  | case1 => exact nofun
  | case2 cs => exact nofun
  | case3 c cs _ blank =>
    intro found
    have bound : front + c.utf8Size ≤ next := scan_offset (found ▸ List.mem_cons_self)
    have wide := c.utf8Size_pos
    omega
  | case4 c cs _ _ name => simp [apart c rfl] at name
  | case5 c cs _ _ _ => simp

theorem attach_apart (c : Char) (offset : Nat) {cs : List Char} (apart : Apart cs) :
    attach c offset (scan (offset + c.utf8Size) cs) =
      ⟨.name [c], offset⟩ :: scan (offset + c.utf8Size) cs := by
  cases found : scan (offset + c.utf8Size) cs with
  | nil => rfl
  | cons l rest =>
    obtain ⟨token, next⟩ := l
    cases token with
    | name chars =>
      have later := name_later apart found
      simp only [attach, if_neg (Nat.ne_of_gt later)]
    | ellipsis => rfl
    | mark m => rfl

def IsName (chars : List Char) : Prop := chars ≠ [] ∧ ∀ c ∈ chars, isNameChar c = true

theorem isName_any : IsName "any".toList := by
  have chars : "any".toList = ['a', 'n', 'y'] := rfl
  rw [chars]
  refine ⟨by simp, ?_⟩
  simp only [List.forall_mem_cons]
  exact ⟨by decide, by decide, by decide, nofun⟩

def width : List Char → Nat
  | [] => 0
  | c :: cs => c.utf8Size + width cs

theorem scan_name {chars : List Char} (name : IsName chars) (offset : Nat) {cs : List Char}
    (apart : Apart cs) :
    scan offset (chars ++ cs) =
      ⟨.name chars, offset⟩ :: scan (offset + width chars) cs := by
  obtain ⟨some, all⟩ := name
  induction chars generalizing offset with
  | nil => exact absurd rfl some
  | cons c more ih =>
    have head := all c List.mem_cons_self
    rw [List.cons_append, scan_nameChar head]
    cases more with
    | nil => exact attach_apart c offset apart
    | cons d ds =>
      rw [ih (offset + c.utf8Size) (by simp) fun x h => all x (List.mem_cons_of_mem _ h)]
      simp [attach, width, Nat.add_assoc]

def words (cs : List Char) : List Token := (scan 0 cs).map Lexeme.token

theorem tokens_scan (offset : Nat) (cs : List Char) :
    (scan offset cs).map Lexeme.token = words cs := by
  rw [← Nat.zero_add offset, scan_shift, List.map_map]
  rfl

theorem words_blank {c : Char} (blank : Text.isBlank c = true) (cs : List Char) :
    words (c :: cs) = words cs := by
  rw [words, scan_blank blank, tokens_scan]

theorem name_cut {c : Char} (name : isNameChar c = true) (rest : List Char) :
    ∃ chars cs, c :: rest = chars ++ cs ∧ IsName chars ∧ Apart cs ∧ cs.length ≤ rest.length := by
  induction rest generalizing c with
  | nil => exact ⟨[c], [], rfl, ⟨by simp, by simpa using name⟩, nofun, Nat.le_refl _⟩
  | cons d rest ih =>
    by_cases more : isNameChar d = true
    · obtain ⟨chars, cs, same, run, apart, shorter⟩ := ih more
      have longer : IsName (c :: chars) := ⟨by simp, by simpa [name] using run.2⟩
      refine ⟨c :: chars, cs, by rw [same]; rfl, longer, apart, ?_⟩
      simp only [List.length_cons]
      omega
    · have single : IsName [c] := ⟨by simp, by simpa using name⟩
      exact ⟨[c], d :: rest, rfl, single, apart_cons (by simpa using more) rest, Nat.le_refl _⟩

/-! A text as blanks and words -/

def Token.chars : Token → List Char
  | .name chars => chars
  | .ellipsis => ['.', '.', '.']
  | .mark c => [c]

/-- The token is cut off as a word where `cs` follows it: no name goes on in `cs`, and a dot does
not become one of three. -/
inductive Token.Precedes : Token → List Char → Prop where
  | name {chars cs : List Char} (name : IsName chars) (apart : Apart cs) : Precedes (.name chars) cs
  | ellipsis (cs : List Char) : Precedes .ellipsis cs
  | mark {c : Char} {cs : List Char} (solid : Text.isBlank c = false)
      (other : isNameChar c = false) (single : ∀ ds, c = '.' → cs ≠ '.' :: '.' :: ds) :
      Precedes (.mark c) cs

/-- The text that starts at `offset` consists of these words, each at its place, and of blanks. -/
inductive Lexes : Nat → List Char → List Lexeme → Prop where
  | done (offset : Nat) : Lexes offset [] []
  | blank {offset : Nat} {c : Char} {cs : List Char} {ls : List Lexeme}
      (blank : Text.isBlank c = true) (rest : Lexes (offset + c.utf8Size) cs ls) :
      Lexes offset (c :: cs) ls
  | word {offset : Nat} {token : Token} {cs : List Char} {ls : List Lexeme}
      (cut : token.Precedes cs) (rest : Lexes (offset + width token.chars) cs ls) :
      Lexes offset (token.chars ++ cs) (⟨token, offset⟩ :: ls)

theorem scan_word {token : Token} {cs : List Char} (cut : token.Precedes cs) (offset : Nat) :
    scan offset (token.chars ++ cs) =
      ⟨token, offset⟩ :: scan (offset + width token.chars) cs := by
  cases cut with
  | name name apart => exact scan_name name offset apart
  | ellipsis => rfl
  | @mark c _ solid other single =>
    change scan offset (c :: cs) = _
    rw [scan_cons single, solid, other]
    rfl

theorem words_word {token : Token} {cs : List Char} (cut : token.Precedes cs) :
    words (token.chars ++ cs) = token :: words cs := by
  rw [words, scan_word cut, List.map_cons, tokens_scan]

theorem words_ellipsis (cs : List Char) :
    words ('.' :: '.' :: '.' :: cs) = .ellipsis :: words cs := words_word (.ellipsis cs)

theorem words_mark {c : Char}
    (mark : c ≠ '.' ∧ Text.isBlank c = false ∧ isNameChar c = false) (cs : List Char) :
    words (c :: cs) = .mark c :: words cs :=
  words_word (.mark mark.2.1 mark.2.2 fun _ dot => absurd dot mark.1)

theorem words_name {chars : List Char} (name : IsName chars) {cs : List Char} (apart : Apart cs) :
    words (chars ++ cs) = .name chars :: words cs := words_word (.name name apart)

theorem word_cut {c : Char} (solid : Text.isBlank c = false) (rest : List Char) :
    ∃ (token : Token) (cs : List Char), c :: rest = token.chars ++ cs ∧ token.Precedes cs ∧
      cs.length ≤ rest.length := by
  by_cases dots : ∃ ds, c = '.' ∧ rest = '.' :: '.' :: ds
  · obtain ⟨ds, rfl, rfl⟩ := dots
    refine ⟨.ellipsis, ds, rfl, .ellipsis ds, ?_⟩
    simp only [List.length_cons]
    omega
  by_cases name : isNameChar c = true
  · obtain ⟨chars, cs, same, run, apart, shorter⟩ := name_cut name rest
    exact ⟨.name chars, cs, same, .name run apart, shorter⟩
  · have mark : Token.Precedes (.mark c) rest :=
      .mark solid (by simpa using name) fun ds dot same => dots ⟨ds, dot, same⟩
    exact ⟨.mark c, rest, rfl, mark, Nat.le_refl _⟩

theorem lexes_scan (offset : Nat) (cs : List Char) : Lexes offset cs (scan offset cs) := by
  -- a word is cut off as a whole, so the induction is on the length
  induction length : cs.length using Nat.strongRecOn generalizing offset cs with
  | ind n ih =>
    subst length
    cases cs with
    | nil => exact .done offset
    | cons c rest =>
      by_cases blank : Text.isBlank c = true
      · rw [scan_blank blank]
        exact .blank blank (ih _ (by simp) _ _ rfl)
      · obtain ⟨token, cs, same, cut, shorter⟩ := word_cut (by simpa using blank) rest
        rw [same, scan_word cut]
        refine .word cut (ih _ ?_ _ _ rfl)
        rw [List.length_cons]
        omega

theorem Lexes.scan {offset : Nat} {cs : List Char} {ls : List Lexeme} (lexes : Lexes offset cs ls) :
    scan offset cs = ls := by
  induction lexes with
  | done => rfl
  | blank blank _ ih => rw [scan_blank blank, ih]
  | word cut _ ih => rw [scan_word cut, ih]

theorem Lexes.names {offset : Nat} {cs : List Char} {ls : List Lexeme}
    (lexes : Lexes offset cs ls) : ∀ l ∈ ls, ∀ chars, l.token = .name chars → IsName chars := by
  induction lexes with
  | done => exact nofun
  | blank _ _ ih => exact ih
  | word cut _ ih =>
    refine List.forall_mem_cons.mpr ⟨?_, ih⟩
    rintro chars rfl
    cases cut with
    | name name _ => exact name

theorem name_of_mem_words {chars cs : List Char} (h : .name chars ∈ words cs) : IsName chars := by
  obtain ⟨l, found, same⟩ := List.mem_map.mp h
  exact (lexes_scan 0 cs).names l found chars same

/-- The marks of type expressions; three dots apart, nothing else but names and blanks occurs. -/
def marks : List Char := ['[', ']', '(', ')', '@', ':', ',', '|']

/-- The text is spelled with these words, with any blanks before, between and behind them. No name
goes on where the text behind it begins. -/
inductive Spells : List Token → List Char → Prop where
  | done : Spells [] []
  | blank {ts : List Token} {c : Char} {cs : List Char} (blank : Text.isBlank c = true)
      (rest : Spells ts cs) : Spells ts (c :: cs)
  | mark {ts : List Token} {c : Char} {cs : List Char} (listed : c ∈ marks)
      (rest : Spells ts cs) : Spells (.mark c :: ts) (c :: cs)
  | ellipsis {ts : List Token} {cs : List Char} (rest : Spells ts cs) :
      Spells (.ellipsis :: ts) ('.' :: '.' :: '.' :: cs)
  | name {ts : List Token} {chars cs : List Char} (name : IsName chars) (maximal : Apart cs)
      (rest : Spells ts cs) : Spells (.name chars :: ts) (chars ++ cs)

theorem plain_of_mark {c : Char} (listed : c ∈ marks) :
    c ≠ '.' ∧ Text.isBlank c = false ∧ isNameChar c = false := by
  simp only [marks, List.mem_cons, List.not_mem_nil, or_false] at listed
  rcases listed with rfl | rfl | rfl | rfl | rfl | rfl | rfl | rfl <;> decide

theorem Spells.words {ts : List Token} {cs : List Char} (spelled : Spells ts cs) :
    words cs = ts := by
  induction spelled with
  | done => rfl
  | blank blank _ ih => rw [words_blank blank, ih]
  | mark listed _ ih => rw [words_mark (plain_of_mark listed), ih]
  | ellipsis _ ih => rw [words_ellipsis, ih]
  | name name maximal _ ih => rw [words_name name maximal, ih]

theorem Lexes.spells {offset : Nat} {cs : List Char} {ls : List Lexeme}
    (lexes : Lexes offset cs ls) (known : ∀ c, .mark c ∈ ls.map Lexeme.token → c ∈ marks) :
    Spells (ls.map Lexeme.token) cs := by
  induction lexes with
  | done => exact .done
  | blank blank _ ih => exact .blank blank (ih known)
  | word cut _ ih =>
    have rest := ih fun c listed => known c (List.mem_cons_of_mem _ listed)
    cases cut with
    | name name apart => exact .name name apart rest
    | ellipsis => exact .ellipsis rest
    | mark _ _ _ => exact .mark (known _ List.mem_cons_self) rest

theorem spells_words {cs : List Char} (known : ∀ c, .mark c ∈ words cs → c ∈ marks) :
    Spells (words cs) cs := (lexes_scan 0 cs).spells known

end ScriptCheck.Ty
