import Mathlib.Data.List.TakeDrop
import Mathlib.Data.List.TakeWhile
import Mathlib.Tactic.Common
import ScriptCheck.Json.Reader
import ScriptCheck.Json.Text

/-! Strings and numbers that were written read back, whatever text follows them. A string ends at
its quote; a number ends where no character of a number follows. -/
namespace ScriptCheck.Json

variable {ε α β : Type}

/-! Numbers -/

def isNumeric (c : Char) : Bool := c.isDigit || ['-', '+', '.', 'e', 'E'].contains c

/- What a number can be followed by: nothing, or a character that is in no number. -/
def Stops (rest : List Char) : Prop := ∀ c ∈ rest.head?, isNumeric c = false

theorem stops_nil : Stops [] := by
  intro c h
  simp at h

theorem stops_cons {c : Char} (other : isNumeric c = false) (rest : List Char) :
    Stops (c :: rest) := by
  intro d h
  rw [List.head?_cons, Option.mem_some_iff] at h
  rwa [← h]

theorem Stops.head {c : Char} {rest : List Char} (stops : Stops (c :: rest)) :
    isNumeric c = false := stops c rfl

/- The reader takes nothing but characters of numbers, and what it gives does not change if the
text goes on behind them. -/
def Local (r : Reader ε α) : Prop :=
  ∀ ⦃cs : List Char⦄ ⦃x : α⦄ ⦃rest : List Char⦄, r cs = .ok (x, rest) →
    (∃ used, cs = used ++ rest ∧ ∀ c ∈ used, isNumeric c = true) ∧
    ∀ tail, Stops tail → r (cs ++ tail) = .ok (x, rest ++ tail)

namespace Local

theorem pure (x : α) : Local fun cs => (.ok (x, cs) : Except (Fault ε) (α × List Char)) := by
  intro cs y rest read
  simp only [Except.ok.injEq, Prod.mk.injEq] at read
  obtain ⟨rfl, rfl⟩ := read
  exact ⟨⟨[], rfl, by simp⟩, fun tail _ => rfl⟩

theorem bind {r : Reader ε α} {next : α → Reader ε β} (first : Local r)
    (second : ∀ x, Local (next x)) : Local fun cs => r cs >>= fun p => next p.1 p.2 := by
  intro cs y rest read
  cases between : r cs with
  | error fault => simp [between, Bind.bind, Except.bind] at read
  | ok p =>
    obtain ⟨x, middle⟩ := p
    simp only [between, Bind.bind, Except.bind] at read
    obtain ⟨⟨used, rfl, numeric⟩, onward⟩ := first between
    obtain ⟨⟨more, rfl, further⟩, onwards⟩ := second x read
    refine ⟨⟨used ++ more, by simp, ?_⟩, ?_⟩
    · intro c h
      rcases List.mem_append.mp h with h | h
      · exact numeric c h
      · exact further c h
    · intro tail stops
      simp only [onward tail stops, Bind.bind, Except.bind]
      exact onwards tail stops

theorem lift (v : Except (Fault ε) α) : Local fun cs => v >>= fun x => .ok (x, cs) := by
  cases v with
  | error fault =>
    intro cs y rest read
    simp [Bind.bind, Except.bind] at read
  | ok x => exact .pure x

end Local

theorem Stops.notDigit {c : Char} {rest : List Char} (stops : Stops (c :: rest)) :
    c.isDigit = false := by
  have other := stops.head
  rw [isNumeric, Bool.or_eq_false_iff] at other
  exact other.1

theorem span_append_stops (cs : List Char) {tail : List Char} (stops : Stops tail) :
    (cs ++ tail).span Char.isDigit =
      (cs.takeWhile Char.isDigit, cs.dropWhile Char.isDigit ++ tail) := by
  rw [List.span_eq_takeWhile_dropWhile]
  induction cs with
  | nil =>
    cases tail with
    | nil => rfl
    | cons c rest => simp [stops.notDigit]
  | cons c cs ih =>
    cases digit : c.isDigit with
    | true => simpa [digit] using ih
    | false => simp [digit]

theorem someDigits_local (atEnd : Fault ε) : Local (someDigits atEnd) := by
  intro cs ds rest read
  cases cs with
  | nil => simp [someDigits] at read
  | cons c cs =>
    cases digit : c.isDigit with
    | false => simp [someDigits, digit] at read
    | true =>
      simp only [someDigits, digit, if_true, List.span_eq_takeWhile_dropWhile, Except.ok.injEq,
        Prod.mk.injEq] at read
      obtain ⟨rfl, rfl⟩ := read
      constructor
      · refine ⟨_, List.takeWhile_append_dropWhile.symm, ?_⟩
        intro d h
        simp [isNumeric, List.mem_takeWhile_imp h]
      · intro tail stops
        simp only [List.cons_append, someDigits, digit, if_true]
        rw [← List.cons_append, span_append_stops _ stops]

theorem wholePart_nonzero (atEnd : Fault ε) {c : Char} (nonzero : c ≠ '0') (cs : List Char) :
    wholePart atEnd (c :: cs) = someDigits atEnd (c :: cs) := by
  unfold wholePart
  split
  · rename_i equal
    exact absurd (List.cons.inj equal).1 nonzero
  · rfl

theorem wholePart_zero (atEnd : Fault ε) {rest : List Char} (stops : Stops rest) :
    wholePart atEnd ('0' :: rest) = .ok (['0'], rest) := by
  cases rest with
  | nil => rfl
  | cons c rest => simp [wholePart, stops.notDigit]

theorem wholePart_local (atEnd : Fault ε) : Local (wholePart atEnd) := by
  intro cs ds rest read
  rcases cs with _ | ⟨c, cs⟩
  · simp [wholePart, someDigits] at read
  by_cases zero : c = '0'
  · subst zero
    have numeric : ∀ c ∈ ['0'], isNumeric c = true := List.forall_mem_singleton.mpr rfl
    rcases cs with _ | ⟨d, cs⟩
    · obtain ⟨rfl, rfl⟩ : ['0'] = ds ∧ [] = rest := by
        simpa [wholePart_zero atEnd stops_nil] using read
      exact ⟨⟨['0'], rfl, numeric⟩, fun tail stops => wholePart_zero atEnd stops⟩
    · cases digit : d.isDigit with
      | true => simp [wholePart, digit] at read
      | false =>
        obtain ⟨rfl, rfl⟩ : ['0'] = ds ∧ d :: cs = rest := by simpa [wholePart, digit] using read
        exact ⟨⟨['0'], rfl, numeric⟩, fun tail _ => by simp [wholePart, digit]⟩
  · rw [wholePart_nonzero atEnd zero] at read
    obtain ⟨used, onward⟩ := someDigits_local atEnd read
    refine ⟨used, fun tail stops => ?_⟩
    rw [List.cons_append, wholePart_nonzero atEnd zero]
    exact onward tail stops

/- A reader that goes on only behind certain characters, and takes nothing where none of them
stands. -/
theorem Local.behind {r : Reader ε α} {x : α} (marks : List Char)
    (numeric : marks.all isNumeric = true)
    (inner : ∀ c ∈ marks, ∃ s : Reader ε α, Local s ∧ ∀ cs, r (c :: cs) = s cs)
    (other : ∀ cs : List Char, (∀ c ∈ cs.head?, c ∉ marks) → r cs = .ok (x, cs)) : Local r := by
  rw [List.all_eq_true] at numeric
  intro cs y rest read
  by_cases marked : ∃ c ∈ cs.head?, c ∈ marks
  · obtain ⟨c, first, mark⟩ := marked
    obtain ⟨cs, rfl⟩ := List.head?_eq_some_iff.mp first
    obtain ⟨s, local', opens⟩ := inner c mark
    rw [opens] at read
    obtain ⟨⟨used, rfl, among⟩, onward⟩ := local' read
    refine ⟨⟨c :: used, rfl, ?_⟩, ?_⟩
    · intro d h
      rcases List.mem_cons.mp h with rfl | h
      · exact numeric d mark
      · exact among d h
    · intro tail stops
      rw [List.cons_append, opens]
      exact onward tail stops
  · push Not at marked
    rw [other cs marked] at read
    simp only [Except.ok.injEq, Prod.mk.injEq] at read
    obtain ⟨rfl, rfl⟩ := read
    refine ⟨⟨[], rfl, by simp⟩, ?_⟩
    intro tail stops
    apply other
    intro c first mark
    cases cs with
    | nil =>
      have := stops c first
      rw [numeric c mark] at this
      contradiction
    | cons d cs => exact marked c first mark

theorem fractionPart_local (atEnd : Fault ε) : Local (fractionPart atEnd) := by
  refine .behind (x := none) ['.'] rfl ?_ ?_
  · simp only [List.mem_singleton, forall_eq]
    exact ⟨_, (someDigits_local atEnd).bind fun ds => .pure (some ds), fun _ => rfl⟩
  · intro cs unmarked
    unfold fractionPart
    split
    · simp at unmarked
    · rfl

def exponentSign (cs : List Char) : Except (Fault ε) (Bool × List Char) :=
  .ok (match cs with
    | '-' :: rest => (true, rest)
    | '+' :: rest => (false, rest)
    | rest => (false, rest))

theorem exponentSign_local : Local (@exponentSign ε) := by
  refine .behind (x := false) ['-', '+'] rfl ?_ ?_
  · simp only [List.mem_cons, List.not_mem_nil, or_false]
    rintro c (rfl | rfl)
    · exact ⟨_, .pure true, fun _ => rfl⟩
    · exact ⟨_, .pure false, fun _ => rfl⟩
  · intro cs unmarked
    unfold exponentSign
    split
    · simp at unmarked
    · simp at unmarked
    · rfl

theorem exponentPart_local (atEnd : Fault ε) : Local (exponentPart atEnd) := by
  have inner : Local fun cs => exponentSign cs >>= fun p => someDigits atEnd p.2 >>= fun q =>
      .ok (some (p.1, q.1), q.2) :=
    exponentSign_local.bind fun negative => (someDigits_local atEnd).bind fun ds =>
      .pure (some (negative, ds))
  refine .behind (x := none) ['e', 'E'] rfl ?_ ?_
  · simp only [List.mem_cons, List.not_mem_nil, or_false]
    rintro c (rfl | rfl)
    · exact ⟨_, inner, fun _ => rfl⟩
    · exact ⟨_, inner, fun _ => rfl⟩
  · intro cs unmarked
    cases cs with
    | nil => rfl
    | cons c cs =>
      obtain ⟨small, large⟩ : c ≠ 'e' ∧ c ≠ 'E' := by simpa using unmarked
      simp [exponentPart, small, large]

def signPart (cs : List Char) : Except (Fault ε) (Bool × List Char) :=
  .ok (match cs with
    | '-' :: cs => (true, cs)
    | cs => (false, cs))

theorem signPart_unsigned {cs : List Char} (unsigned : ∀ c ∈ cs.head?, c ≠ '-') :
    signPart cs = (.ok (false, cs) : Except (Fault ε) _) := by
  unfold signPart
  split
  · simp at unsigned
  · rfl

theorem signPart_local : Local (@signPart ε) := by
  refine .behind (x := false) ['-'] rfl ?_ ?_
  · simp only [List.mem_singleton, forall_eq]
    exact ⟨_, .pure true, fun _ => rfl⟩
  · intro cs unmarked
    exact signPart_unsigned (by simpa using unmarked)

theorem numberText_eq (atEnd : Fault ε) (cs : List Char) :
    numberText atEnd cs = signPart cs >>= fun p => wholePart atEnd p.2 >>= fun q =>
      fractionPart atEnd q.2 >>= fun r => exponentPart atEnd r.2 >>= fun s =>
      .ok (⟨p.1, q.1, r.1, s.1⟩, s.2) := rfl

theorem numberText_local (atEnd : Fault ε) : Local (numberText atEnd) :=
  signPart_local.bind fun negative => (wholePart_local atEnd).bind fun whole =>
    (fractionPart_local atEnd).bind fun fraction => (exponentPart_local atEnd).bind fun exponent =>
      .pure (NumberText.mk negative whole fraction exponent)

theorem readNumber_local : Local (@readNumber ε) :=
  (numberText_local .ended).bind fun t => .lift t.value

/- The number is what a reader finds in its text, with nothing left over. -/
def Number.ReadsBack (ε : Type) (n : Number) : Prop :=
  (readNumber n.text.toList : Except (Fault ε) (Number × List Char)) = .ok (n, [])

namespace Number.ReadsBack

variable {n : Number} (back : n.ReadsBack ε)

include back

theorem followed {rest : List Char} (stops : Stops rest) :
    (readNumber (n.text.toList ++ rest) : Except (Fault ε) _) = .ok (n, rest) :=
  (readNumber_local back).2 rest stops

theorem numeric : ∀ c ∈ n.text.toList, isNumeric c = true := by
  obtain ⟨used, same, numeric⟩ := (readNumber_local back).1
  rw [same, List.append_nil]
  exact numeric

theorem head : ∃ c cs, n.text.toList = c :: cs ∧ (c = '-' ∨ c.isDigit = true) := by
  unfold ReadsBack at back
  cases written : n.text.toList with
  | nil =>
    rw [written] at back
    cases back
  | cons c cs =>
    refine ⟨c, cs, rfl, ?_⟩
    by_contra neither
    obtain ⟨unsigned, digit⟩ : c ≠ '-' ∧ ¬ c.isDigit = true := by simpa using neither
    have nonzero : c ≠ '0' := by
      rintro rfl
      exact digit rfl
    have whole : wholePart (.ended : Fault ε) (c :: cs) = .error .malformed := by
      rw [wholePart_nonzero _ nonzero, someDigits, if_neg digit]
    have failed : (readNumber (c :: cs) : Except (Fault ε) _) = .error .malformed := by
      rw [readNumber, numberText_eq, signPart_unsigned (by simpa using unsigned)]
      simp only [Bind.bind, Except.bind, whole]
    rw [written, failed] at back
    cases back

end Number.ReadsBack

theorem appendDigits_fits (ds : List Char) (value : Nat)
    (fits : Nat.ofDigitChars 10 ds value < twoTo 64) :
    appendDigits value ds = (Nat.ofDigitChars 10 ds value, 0) := by
  induction ds generalizing value with
  | nil => rfl
  | cons d ds ih =>
    have longer : Nat.ofDigitChars 10 (d :: ds) value =
        Nat.ofDigitChars 10 ds (value * 10 + digitValue d) := by
      rw [Nat.ofDigitChars_cons, Nat.mul_comm, digitValue]
    rw [longer] at fits ⊢
    have grows : value * 10 + digitValue d ≤
        Nat.ofDigitChars 10 ds (value * 10 + digitValue d) := by
      rw [Nat.ofDigitChars_eq_ofDigitChars_zero]
      have := Nat.le_mul_of_pos_left (value * 10 + digitValue d) (Nat.pow_pos (n := ds.length)
        (show 0 < 10 by decide))
      omega
    simp only [appendDigits]
    rw [if_pos (by omega)]
    exact ih _ fits

theorem toDigits_nonzero {n : Nat} (positive : 0 < n) :
    ∃ d ds, Nat.toDigits 10 n = d :: ds ∧ d ≠ '0' := by
  induction n using Nat.strongRecOn with
  | ind n ih =>
    rw [Nat.toDigits_eq_if (by decide)]
    split
    · refine ⟨_, [], rfl, ?_⟩
      simp only [ne_eq, Nat.digitChar_eq_zero]
      omega
    · obtain ⟨d, ds, same, nonzero⟩ := ih (n / 10) (by omega) (by omega)
      exact ⟨d, ds ++ [(n % 10).digitChar], by rw [same]; rfl, nonzero⟩

theorem wholePart_toDigits (n : Nat) :
    wholePart (.ended : Fault ε) (Nat.toDigits 10 n) = .ok (Nat.toDigits 10 n, []) := by
  rcases Nat.eq_zero_or_pos n with rfl | positive
  · rfl
  · have digits : ∀ c ∈ Nat.toDigits 10 n, c.isDigit = true := fun c h =>
      Nat.isDigit_of_mem_toDigits (by decide) (by decide) h
    obtain ⟨d, ds, same, nonzero⟩ := toDigits_nonzero positive
    rw [same] at digits ⊢
    rw [wholePart_nonzero _ nonzero, someDigits, if_pos (digits d List.mem_cons_self)]
    have all := span_append_stops (d :: ds) stops_nil
    rw [List.append_nil, List.append_nil, List.takeWhile_eq_self_iff.mpr digits,
      List.dropWhile_eq_nil_iff.mpr digits] at all
    rw [all]

theorem Number.ReadsBack.natural (n : UInt64) : (Number.natural n).ReadsBack ε := by
  have written : (Number.natural n).text.toList = Nat.toDigits 10 n.toNat := by
    simp [Number.text]
  have unsigned : ∀ c ∈ (Nat.toDigits 10 n.toNat).head?, c ≠ '-' := by
    rintro c first rfl
    have digit := Nat.isDigit_of_mem_toDigits (b := 10) (by decide) (by decide)
      (List.mem_of_mem_head? first)
    contradiction
  have value : appendDigits 0 (Nat.toDigits 10 n.toNat) = (n.toNat, 0) := by
    have whole := Nat.ofDigitChars_ten_toDigits (n := n.toNat)
    rw [appendDigits_fits _ _ (by rw [whole]; exact n.toNat_lt), whole]
  rw [ReadsBack, written, readNumber, numberText_eq, signPart_unsigned unsigned]
  simp only [Bind.bind, Except.bind, wholePart_toDigits, fractionPart, exponentPart]
  simp [NumberText.value, value, Pure.pure, Except.pure]

/-! Strings -/

theorem hexValue_hexDigit : ∀ d < 16, hexValue? (hexDigit d) = some d := by decide

theorem stringChars_short {e c : Char} (short : shortEscape? e = some c) (rest : List Char) :
    (stringChars ('\\' :: e :: rest) : Except (Fault ε) _) = prepend c (stringChars rest) := by
  have plain : e ≠ 'u' := by
    rintro rfl
    cases short
  simp [stringChars, plain, short]

theorem stringChars_control {c : Char} (control : c.toNat < 0x20) (rest : List Char) :
    (stringChars (['\\', 'u', '0', '0', hexDigit (c.toNat / 16), hexDigit (c.toNat % 16)] ++ rest) :
      Except (Fault ε) _) = prepend c (stringChars rest) := by
  have code : fourHex? '0' '0' (hexDigit (c.toNat / 16)) (hexDigit (c.toNat % 16)) =
      some c.toNat := by
    have zero : hexValue? '0' = some 0 := rfl
    have high := hexValue_hexDigit (c.toNat / 16) (by omega)
    have low := hexValue_hexDigit (c.toNat % 16) (by omega)
    simp only [fourHex?, zero, high, low, Option.pure_def, Option.bind_eq_bind, Option.bind_some,
      Option.some.injEq]
    omega
  have single : isLowSurrogate c.toNat = false ∧ isHighSurrogate c.toNat = false := by
    simp only [isLowSurrogate, isHighSurrogate, Bool.and_eq_false_iff, decide_eq_false_iff_not]
    omega
  simp [stringChars, code, single]

theorem stringChars_plain {c : Char} (unquoted : c ≠ '"') (unescaped : c ≠ '\\')
    (shown : ¬ c.toNat < 0x20) (rest : List Char) :
    (stringChars (c :: rest) : Except (Fault ε) _) = prepend c (stringChars rest) := by
  simp [stringChars, unescaped, shown]

/- The three ways to write a character. -/
theorem escapeChar_cases (c : Char) :
    (∃ e, escapeChar c = ['\\', e] ∧ shortEscape? e = some c) ∨
    (escapeChar c = ['\\', 'u', '0', '0', hexDigit (c.toNat / 16), hexDigit (c.toNat % 16)] ∧
      c.toNat < 0x20) ∨
    (escapeChar c = [c] ∧ c ≠ '"' ∧ c ≠ '\\' ∧ ¬c.toNat < 0x20) := by
  by_cases short : c ∈ ['"', '\\', '\n', '\r', '\t', '\x08', '\x0c']
  · left
    simp only [List.mem_cons, List.not_mem_nil, or_false] at short
    rcases short with rfl | rfl | rfl | rfl | rfl | rfl | rfl <;> exact ⟨_, rfl, rfl⟩
  · right
    simp only [List.mem_cons, List.not_mem_nil, or_false, not_or] at short
    by_cases control : c.toNat < 0x20
    · left
      simp [escapeChar, short, control]
    · right
      simp [escapeChar, short, control]

theorem stringChars_escape (c : Char) (rest : List Char) :
    (stringChars (escapeChar c ++ rest) : Except (Fault ε) _) = prepend c (stringChars rest) := by
  rcases escapeChar_cases c with ⟨e, written, short⟩ | ⟨written, control⟩ |
    ⟨written, unquoted, unescaped, shown⟩
  · rw [written]
    exact stringChars_short short rest
  · rw [written]
    exact stringChars_control control rest
  · rw [written]
    exact stringChars_plain unquoted unescaped shown rest

theorem readString_quoted (s : String) (rest : List Char) :
    (readString (s.toList.flatMap escapeChar ++ '"' :: rest) : Except (Fault ε) _) =
      .ok (s, rest) := by
  have chars (cs : List Char) :
      (stringChars (cs.flatMap escapeChar ++ '"' :: rest) : Except (Fault ε) _) =
        .ok (cs, rest) := by
    induction cs with
    | nil => simp [stringChars]
    | cons c cs ih =>
      rw [List.flatMap_cons, List.append_assoc, stringChars_escape, ih]
      rfl
  simp [readString, chars, Bind.bind, Except.bind, Pure.pure, Except.pure]

end ScriptCheck.Json
