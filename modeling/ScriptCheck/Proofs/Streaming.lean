import ScriptCheck.Proofs.Values
import ScriptCheck.Tree.Loading

/-! Reading in step. Several readers go over the same text: one reads it as a JSON value, another
one turns it into something else on the way, and a third one only passes over it. Where the first
one succeeds, the others end at the same place, and what they make of the text is what they would
make of the value. -/
namespace ScriptCheck

variable {ε α β γ : Type}

theorem pure_eq_ok (a : α) : (pure a : Except ε α) = .ok a := rfl

@[simp] theorem toOption_ok (a : α) : (Except.ok a : Except ε α).toOption = some a := rfl

@[simp] theorem toOption_error (fault : ε) : (.error fault : Except ε α).toOption = none := rfl

theorem toOption_bind (x : Except ε α) (next : α → Except ε β) :
    (x >>= next).toOption = x.toOption.bind fun a => (next a).toOption := by
  cases x <;> rfl

theorem toOption_map (f : α → β) (x : Except ε α) : (f <$> x).toOption = x.toOption.map f := by
  cases x <;> rfl

theorem toOption_eq_some {x : Except ε α} {a : α} : x.toOption = some a ↔ x = .ok a := by
  cases x with
  | error fault => simp [Except.toOption]
  | ok b => simp [Except.toOption]

theorem bind_eq_ok {x : Except ε α} {next : α → Except ε β} {b : β} :
    (x >>= next) = .ok b ↔ ∃ a, x = .ok a ∧ next a = .ok b := by
  cases x with
  | error fault => simp [Bind.bind, Except.bind]
  | ok a => simp [Bind.bind, Except.bind]

theorem mapM_of_cons {load : List α → Except ε (List β)} {item : α → Option β}
    (empty : load [] = .ok [])
    (step : ∀ x rest, (load (x :: rest)).toOption =
      (item x).bind fun y => (load rest).toOption.map (y :: ·)) (xs : List α) :
    (load xs).toOption = xs.mapM item := by
  induction xs with
  | nil =>
    rw [empty]
    rfl
  | cons x rest ih =>
    rw [step, ih, List.mapM_cons]
    cases item x <;> cases rest.mapM item <;> rfl

namespace Json

variable {σ : Type}

/-- Where the first reader succeeds, the second one makes of the text what `f` makes of the value,
and ends at the same place. -/
def Tracks (r : Reader ε α) (r' : Reader ε β) (f : α → Option β) : Prop :=
  ∀ cs x rest, r cs = .ok (x, rest) → (r' cs).toOption = (f x).map (·, rest)

/-! Arrays -/

theorem itemsFrom_cases {item : Reader ε α} {count : Nat} {cs rest : List Char} {xs : List α}
    (read : itemsFrom item (count + 1) cs = .ok (xs, rest)) :
    ∃ x behind, item cs = .ok (x, behind) ∧
      ((∃ more ys, skipSpace behind = ',' :: more ∧ itemsFrom item count more = .ok (ys, rest) ∧
        xs = x :: ys) ∨
      skipSpace behind = ']' :: rest ∧ xs = [x]) := by
  rw [itemsFrom] at read
  obtain ⟨⟨x, behind⟩, first, read⟩ := bind_eq_ok.mp read
  refine ⟨x, behind, first, ?_⟩
  dsimp only at read
  split at read
  · rename_i more comma
    obtain ⟨⟨ys, last⟩, others, done⟩ := bind_eq_ok.mp read
    obtain ⟨rfl, rfl⟩ := Prod.mk.inj (Except.ok.inj done)
    exact .inl ⟨more, ys, comma, others, rfl⟩
  · rename_i more closed
    obtain ⟨rfl, rfl⟩ := Prod.mk.inj (Except.ok.inj read)
    exact .inr ⟨closed, rfl⟩
  · cases read
  · cases read

theorem itemsFrom_cons {item : Reader ε α} {count : Nat} {cs rest : List Char} {xs : List α}
    (read : itemsFrom item count cs = .ok (xs, rest)) : ∃ x ys, xs = x :: ys := by
  cases count with
  | zero => simp [itemsFrom] at read
  | succ count =>
    obtain ⟨x, _, _, ⟨_, ys, _, _, same⟩ | ⟨_, same⟩⟩ := itemsFrom_cases read
    · exact ⟨x, ys, same⟩
    · exact ⟨x, [], same⟩

section

variable {item : Reader ε α} {item' : Reader ε β} {f : α → Option β}
  (tracks : Tracks item item' f)
include tracks

theorem itemsFrom_tracks (count : Nat) :
    Tracks (itemsFrom item count) (itemsFrom item' count) fun xs => xs.mapM f := by
  induction count with
  | zero => exact fun cs xs rest read => by simp [itemsFrom] at read
  | succ count ih =>
    intro cs xs rest read
    obtain ⟨x, behind, first, next⟩ := itemsFrom_cases read
    rw [itemsFrom, toOption_bind, tracks cs x behind first]
    cases made : f x with
    | none => rcases next with ⟨more, ys, _, _, rfl⟩ | ⟨_, rfl⟩ <;> simp [List.mapM_cons, made]
    | some y =>
      rcases next with ⟨more, ys, comma, others, rfl⟩ | ⟨closed, rfl⟩
      · simp only [Option.map_some, Option.bind_some, comma, toOption_bind, ih more ys rest others,
          List.mapM_cons, made, Option.bind_eq_bind]
        cases List.mapM f ys <;> rfl
      · simp [List.mapM_cons, made, closed, pure_eq_ok]

theorem readItems_tracks : Tracks (readItems item) (readItems item') fun xs => xs.mapM f := by
  intro cs xs rest read
  simp only [readItems] at read ⊢
  split at read
  · rename_i more closed
    obtain ⟨rfl, rfl⟩ : [] = xs ∧ more = rest := by simpa using read
    simp
  · cases read
  · rename_i other
    exact itemsFrom_tracks tracks _ _ xs rest read

end

/-! Objects -/

theorem membersFrom_cases {key : Reader ε String} {leaves : Leaves ε} {d count : Nat}
    {seen ms : List (String × Json)} {cs rest : List Char}
    (read : membersFrom key (memberWith leaves d) (count + 1) seen cs = .ok (ms, rest)) :
    ∃ text k behind front j last, skipSpace cs = '"' :: text ∧ key text = .ok (k, behind) ∧
      (colon behind : Except (Fault ε) _) = .ok front ∧ readValue leaves d front = .ok (j, last) ∧
      ((∃ tail, skipSpace last = ',' :: tail ∧
        membersFrom key (memberWith leaves d) count (seen ++ [(k, j)]) tail = .ok (ms, rest)) ∨
      skipSpace last = '}' :: rest ∧ ms = seen ++ [(k, j)]) := by
  rw [membersFrom] at read
  split at read
  · rename_i text quote
    obtain ⟨⟨k, behind⟩, name, read⟩ := bind_eq_ok.mp read
    obtain ⟨⟨more, after⟩, member, read⟩ := bind_eq_ok.mp read
    obtain ⟨front, colon, member⟩ := bind_eq_ok.mp member
    obtain ⟨⟨j, last⟩, value, added⟩ := bind_eq_ok.mp member
    obtain ⟨rfl, rfl⟩ := Prod.mk.inj (Except.ok.inj added)
    refine ⟨text, k, behind, front, j, last, quote, name, colon, value, ?_⟩
    dsimp only at read
    split at read
    · rename_i tail comma
      exact .inl ⟨tail, comma, read⟩
    · rename_i tail closed
      obtain ⟨rfl, rfl⟩ := Prod.mk.inj (Except.ok.inj read)
      exact .inr ⟨closed, rfl⟩
    · cases read
    · cases read
  · cases read
  · cases read

section

variable {key key' : Reader ε String} {rename : String → String} {leaves : Leaves ε} {d : Nat}
  {member' : σ → String → Reader ε σ} {step : σ → String × Json → Option σ}
  (keys : Tracks key key' fun k => some (rename k))
  (each : ∀ k cs j rest, (colon cs >>= readValue leaves d) = .ok (j, rest) →
    ∀ s, (member' s (rename k) cs).toOption = (step s (k, j)).map (·, rest))
include keys each

theorem membersFrom_tracks {count : Nat} {seen ms : List (String × Json)} {cs rest : List Char}
    (read : membersFrom key (memberWith leaves d) count seen cs = .ok (ms, rest)) :
    ∃ new, ms = seen ++ new ∧ ∀ s, (membersFrom key' member' count s cs).toOption =
      (new.foldlM step s).map (·, rest) := by
  -- the one reader adds to `seen` at its end, the other one to any `s`; so both may vary
  induction count generalizing seen cs with
  | zero => simp [membersFrom] at read
  | succ count ih =>
    obtain ⟨text, k, behind, front, j, last, quote, name, colon, value, next⟩ :=
      membersFrom_cases read
    have first := keys text k behind name
    have second := each k behind j last (bind_eq_ok.mpr ⟨front, colon, value⟩)
    simp only [membersFrom, quote, toOption_bind, first, Option.map_some, Option.bind_some, second]
    rcases next with ⟨tail, comma, others⟩ | ⟨closed, rfl⟩
    · obtain ⟨new, rfl, later⟩ := ih others
      refine ⟨(k, j) :: new, by simp, fun s => ?_⟩
      cases made : step s (k, j) with
      | none => simp [List.foldlM_cons, made]
      | some t => simp [List.foldlM_cons, made, comma, later]
    · refine ⟨[(k, j)], rfl, fun s => ?_⟩
      cases made : step s (k, j) with
      | none => simp [List.foldlM_cons, made]
      | some t => simp [List.foldlM_cons, made, closed, pure_eq_ok]

theorem readMembers_tracks {ms : List (String × Json)} {cs rest : List Char}
    (read : readMembers key (memberWith leaves d) [] cs = .ok (ms, rest)) (s : σ) :
    (readMembers key' member' s cs).toOption = (ms.foldlM step s).map (·, rest) := by
  simp only [readMembers] at read ⊢
  split at read
  · rename_i more closed
    obtain ⟨rfl, rfl⟩ : [] = ms ∧ more = rest := by simpa using read
    rfl
  · obtain ⟨new, rfl, tracked⟩ := membersFrom_tracks keys each read
    exact tracked s

end

/-! Values -/

/-- How a value was read from the front of a text. -/
inductive Found (leaves : Leaves ε) (d : Nat) (cs : List Char) : Json → List Char → Prop where
  | null {more rest : List Char} (front : skipSpace cs = 'n' :: more)
      (read : (keyword ['u', 'l', 'l'] more : Except (Fault ε) _) = .ok rest) :
    Found leaves d cs .null rest
  | yes {more rest : List Char} (front : skipSpace cs = 't' :: more)
      (read : (keyword ['r', 'u', 'e'] more : Except (Fault ε) _) = .ok rest) :
    Found leaves d cs (.bool true) rest
  | no {more rest : List Char} (front : skipSpace cs = 'f' :: more)
      (read : (keyword ['a', 'l', 's', 'e'] more : Except (Fault ε) _) = .ok rest) :
    Found leaves d cs (.bool false) rest
  | string {more rest : List Char} {s : String} (front : skipSpace cs = '"' :: more)
      (read : leaves.string more = .ok (s, rest)) : Found leaves d cs (.string s) rest
  | number {c : Char} {more rest : List Char} {n : Number} (front : skipSpace cs = c :: more)
      (head : c = '-' ∨ c.isDigit = true) (read : leaves.number (c :: more) = .ok (n, rest)) :
    Found leaves d cs (.number n) rest
  | array {more rest : List Char} {inner : Nat} {js : List Json}
      (front : skipSpace cs = '[' :: more) (level : d = inner + 1)
      (read : readItems (readValue leaves inner) more = .ok (js, rest)) :
    Found leaves d cs (.array js) rest
  | object {more rest : List Char} {inner : Nat} {ms : List (String × Json)}
      (front : skipSpace cs = '{' :: more) (level : d = inner + 1)
      (read : readMembers leaves.string (memberWith leaves inner) [] more = .ok (ms, rest)) :
    Found leaves d cs (.object ms) rest

theorem readValue_found {leaves : Leaves ε} {d : Nat} {cs rest : List Char} {j : Json}
    (read : readValue leaves d cs = .ok (j, rest)) : Found leaves d cs j rest := by
  have made {α : Type} {x : Except (Fault ε) α} {f : α → Json × List Char}
      (ok : (x >>= fun a => .ok (f a)) = .ok (j, rest)) :
      ∃ a, x = .ok a ∧ (f a).1 = j ∧ (f a).2 = rest := by
    obtain ⟨a, first, second⟩ := bind_eq_ok.mp ok
    exact ⟨a, first, Prod.ext_iff.mp (Except.ok.inj second)⟩
  rw [readValue.eq_def] at read
  split at read
  · cases read
  · rename_i more front
    obtain ⟨a, first, rfl, rfl⟩ := made read
    exact .null front first
  · rename_i more front
    obtain ⟨a, first, rfl, rfl⟩ := made read
    exact .yes front first
  · rename_i more front
    obtain ⟨a, first, rfl, rfl⟩ := made read
    exact .no front first
  · rename_i more front
    obtain ⟨a, first, rfl, rfl⟩ := made read
    exact .string front first
  · rename_i more front
    cases d with
    | zero => cases read
    | succ inner =>
      obtain ⟨a, first, rfl, rfl⟩ := made read
      exact .array front rfl first
  · rename_i more front
    cases d with
    | zero => cases read
    | succ inner =>
      obtain ⟨a, first, rfl, rfl⟩ := made read
      exact .object front rfl first
  · rename_i c more _ _ _ _ _ _ front
    split at read
    · rename_i head
      obtain ⟨a, first, rfl, rfl⟩ := made read
      exact .number front (by simpa using head) first
    · cases read

/-! Lengths. A value has no more arrays and objects in each other than characters. -/

theorem length_skipSpace (cs : List Char) : (skipSpace cs).length ≤ cs.length :=
  (List.dropWhile_sublist _).length_le

theorem length_front {cs more : List Char} {c : Char} (front : skipSpace cs = c :: more) :
    more.length < cs.length := by
  have shorter := length_skipSpace cs
  rw [front, List.length_cons] at shorter
  exact shorter

theorem keyword_shorter {ks cs rest : List Char}
    (read : (keyword ks cs : Except (Fault ε) _) = .ok rest) : rest.length ≤ cs.length := by
  fun_induction keyword (ε := ε) ks cs with
  | case1 cs => exact (Except.ok.inj read) ▸ Nat.le_refl _
  | case3 k ks cs ih => exact Nat.le_succ_of_le (ih read)
  | _ => cases read

theorem prepend_eq_ok {c : Char} {r : Except (Fault ε) (List Char × List Char)}
    {chars rest : List Char} (read : prepend c r = .ok (chars, rest)) :
    ∃ others, r = .ok (others, rest) := by
  cases r with
  | error fault => cases read
  | ok p =>
    simp only [prepend, Except.map, Except.ok.injEq, Prod.mk.injEq] at read
    exact ⟨p.1, by rw [← read.2]⟩

theorem stringChars_skimmed {cs chars rest : List Char}
    (read : (stringChars cs : Except (Fault ε) _) = .ok (chars, rest)) :
    (skimChars cs : Except (Fault ε) _) = .ok rest ∧ rest.length ≤ cs.length := by
  fun_induction stringChars (ε := ε) cs generalizing chars rest with
  | case2 behind =>
    obtain ⟨-, rfl⟩ := Prod.mk.inj (Except.ok.inj read)
    exact ⟨rfl, Nat.le_succ _⟩
  | case6 a b c d behind n code _ _ ih =>
    obtain ⟨others, read⟩ := prepend_eq_ok read
    obtain ⟨skimmed, shorter⟩ := ih read
    refine ⟨?_, by simp only [List.length_cons]; omega⟩
    simpa [skimChars, code] using skimmed
  | case8 a b c d n code _ _ a' b' c' d' behind m code' _ ih =>
    obtain ⟨others, read⟩ := prepend_eq_ok read
    obtain ⟨skimmed, shorter⟩ := ih read
    refine ⟨?_, by simp only [List.length_cons]; omega⟩
    simpa [skimChars, code, code'] using skimmed
  | case15 e behind _ plain c short ih =>
    obtain ⟨others, read⟩ := prepend_eq_ok read
    obtain ⟨skimmed, shorter⟩ := ih read
    refine ⟨?_, by simp only [List.length_cons]; omega⟩
    have unnumbered : e ≠ 'u' := plain
    simpa [skimChars, unnumbered, short] using skimmed
  | case18 c behind unquoted _ _ _ unescaped shown ih =>
    obtain ⟨others, read⟩ := prepend_eq_ok read
    obtain ⟨skimmed, shorter⟩ := ih read
    refine ⟨?_, Nat.le_succ_of_le shorter⟩
    rw [skimChars.eq_def]
    split <;> simp_all
  | _ => cases read

theorem someDigits_atEnd {before : Fault ε} {cs : List Char} {r : List Char × List Char}
    (read : someDigits before cs = .ok r) (after : Fault ε) : someDigits after cs = .ok r := by
  cases cs with
  | nil => cases read
  | cons c cs => exact read

theorem numberText_atEnd {before : Fault ε} {cs : List Char} {r : NumberText × List Char}
    (read : numberText before cs = .ok r) (after : Fault ε) : numberText after cs = .ok r := by
  have whole {cs r} (read : wholePart before cs = .ok r) : wholePart after cs = .ok r := by
    unfold wholePart at read ⊢
    split at read
    · exact read
    · exact someDigits_atEnd read after
  have fraction {cs r} (read : fractionPart before cs = .ok r) : fractionPart after cs = .ok r := by
    unfold fractionPart at read ⊢
    split at read
    · obtain ⟨ds, digits, done⟩ := bind_eq_ok.mp read
      exact bind_eq_ok.mpr ⟨ds, someDigits_atEnd digits after, done⟩
    · exact read
  have exponent {cs r} (read : exponentPart before cs = .ok r) : exponentPart after cs = .ok r := by
    unfold exponentPart at read ⊢
    split at read
    · exact read
    · dsimp only at read ⊢
      split at read
      · rename_i marked
        obtain ⟨ds, digits, done⟩ := bind_eq_ok.mp read
        rw [if_pos marked]
        exact bind_eq_ok.mpr ⟨ds, someDigits_atEnd digits after, done⟩
      · rename_i other
        rw [if_neg other]
        exact read
  rw [numberText_eq] at read ⊢
  obtain ⟨p, sign, read⟩ := bind_eq_ok.mp read
  obtain ⟨q, first, read⟩ := bind_eq_ok.mp read
  obtain ⟨t, second, read⟩ := bind_eq_ok.mp read
  obtain ⟨u, third, read⟩ := bind_eq_ok.mp read
  simp only [sign, whole first, fraction second, exponent third, ok_bind, read]

theorem colon_shorter {cs rest : List Char} (read : (colon cs : Except (Fault ε) _) = .ok rest) :
    rest.length < cs.length := by
  unfold colon at read
  split at read
  · rename_i more front
    exact (Except.ok.inj read) ▸ length_front front
  · cases read
  · cases read

theorem readString_shorter {cs rest : List Char} {s : String}
    (read : (readString cs : Except (Fault ε) _) = .ok (s, rest)) : rest.length ≤ cs.length := by
  obtain ⟨p, chars, done⟩ := bind_eq_ok.mp read
  obtain ⟨-, rfl⟩ := Prod.mk.inj (Except.ok.inj done)
  exact (stringChars_skimmed chars).2

theorem readNumber_shorter {cs rest : List Char} {n : Number}
    (read : (readNumber cs : Except (Fault ε) _) = .ok (n, rest)) : rest.length ≤ cs.length := by
  obtain ⟨⟨used, rfl, _⟩, _⟩ := readNumber_local read
  simp

theorem itemsFrom_depth {item : Reader ε Json} (each : ∀ cs j rest, item cs = .ok (j, rest) →
      j.depth + rest.length ≤ cs.length) {count : Nat} {cs rest : List Char} {js : List Json}
    (read : itemsFrom item count cs = .ok (js, rest)) :
    itemsDepth js + rest.length ≤ cs.length := by
  induction count generalizing cs js with
  | zero => simp [itemsFrom] at read
  | succ count ih =>
    obtain ⟨j, behind, first, next⟩ := itemsFrom_cases read
    have here := each cs j behind first
    rcases next with ⟨more, ks, comma, others, rfl⟩ | ⟨closed, rfl⟩
    · have later := ih others
      have shorter := length_front comma
      simp only [itemsDepth]
      omega
    · have shorter := length_front closed
      simp only [itemsDepth]
      omega

theorem membersFrom_depth {d : Nat} (each : ∀ cs j rest,
      readValue (strict : Leaves ε) d cs = .ok (j, rest) → j.depth + rest.length ≤ cs.length)
    {count : Nat} {seen ms : List (String × Json)} {cs rest : List Char}
    (read : membersFrom readString (memberWith (strict : Leaves ε) d) count seen cs =
      .ok (ms, rest)) :
    ∃ new, ms = seen ++ new ∧ membersDepth new + rest.length ≤ cs.length := by
  induction count generalizing cs seen with
  | zero => simp [membersFrom] at read
  | succ count ih =>
    obtain ⟨text, k, behind, front, j, last, quote, name, colon, value, next⟩ :=
      membersFrom_cases read
    have before : front.length < cs.length :=
      calc
        front.length < behind.length := colon_shorter colon
        _ ≤ text.length := readString_shorter name
        _ ≤ cs.length := (length_front quote).le
    have here := each front j last value
    rcases next with ⟨tail, comma, others⟩ | ⟨closed, rfl⟩
    · obtain ⟨new, rfl, later⟩ := ih others
      have shorter := length_front comma
      refine ⟨(k, j) :: new, by simp, ?_⟩
      simp only [membersDepth]
      omega
    · have shorter := length_front closed
      refine ⟨[(k, j)], rfl, ?_⟩
      simp only [membersDepth]
      omega

theorem readValue_depth {d : Nat} {cs rest : List Char} {j : Json}
    (read : readValue (strict : Leaves ε) d cs = .ok (j, rest)) :
    j.depth + rest.length ≤ cs.length := by
  induction d using Nat.strongRecOn generalizing cs rest j with
  | ind d ih =>
    cases readValue_found read with
    | null front read | yes front read | no front read =>
      have shorter := length_front front
      have read := keyword_shorter read
      simp only [depth]
      omega
    | string front read =>
      have shorter := length_front front
      have read := readString_shorter read
      simp only [depth]
      omega
    | number front head read =>
      have shorter := length_skipSpace cs
      rw [front] at shorter
      have read := readNumber_shorter read
      simp only [depth]
      omega
    | @array more _ inner js front level read =>
      have shorter := length_front front
      have items : itemsDepth js + rest.length ≤ more.length := by
        unfold readItems at read
        split at read
        · rename_i closed
          obtain ⟨rfl, rfl⟩ := Prod.mk.inj (Except.ok.inj read)
          simpa [itemsDepth] using (length_front closed).le
        · cases read
        · have below := itemsFrom_depth (fun _ _ _ => ih inner (by omega)) read
          exact below.trans (length_skipSpace more)
      simp only [depth]
      omega
    | @object more _ inner ms front level read =>
      have shorter := length_front front
      have members : membersDepth ms + rest.length ≤ more.length := by
        unfold readMembers at read
        split at read
        · rename_i closed
          obtain ⟨rfl, rfl⟩ := Prod.mk.inj (Except.ok.inj read)
          simpa [membersDepth] using (length_front closed).le
        · obtain ⟨new, rfl, below⟩ := membersFrom_depth (fun _ _ _ => ih inner (by omega)) read
          exact below.trans (length_skipSpace more)
      simp only [depth]
      omega

/-! Skimming -/

mutual
def blank : Json → Json
  | .null => .null
  | .bool b => .bool b
  | .number _ => .number (.natural 0)
  | .string _ => .string ""
  | .array items => .array (blankItems items)
  | .object members => .object (blankMembers members)

def blankItems : List Json → List Json
  | [] => []
  | j :: rest => j.blank :: blankItems rest

def blankMembers : List (String × Json) → List (String × Json)
  | [] => []
  | (_, j) :: rest => ("", j.blank) :: blankMembers rest
end

def blankWithin (d : Nat) (j : Json) : Option Json := if j.depth ≤ d then some j.blank else none

theorem mapM_blankWithin (d : Nat) (js : List Json) :
    js.mapM (blankWithin d) = if itemsDepth js ≤ d then some (blankItems js) else none := by
  induction js with
  | nil => rfl
  | cons j js ih =>
    simp only [List.mapM_cons, ih, blankWithin, itemsDepth, blankItems, Nat.max_le]
    by_cases here : j.depth ≤ d <;> by_cases later : itemsDepth js ≤ d <;> simp [here, later]

theorem foldlM_blankWithin (d : Nat) (ms seen : List (String × Json)) :
    ms.foldlM (fun seen m => (blankWithin d m.2).map fun j => seen ++ [("", j)]) seen =
      if membersDepth ms ≤ d then some (seen ++ blankMembers ms) else none := by
  induction ms generalizing seen with
  | nil => simp [membersDepth, blankMembers]
  | cons m ms ih =>
    have fits : membersDepth (m :: ms) ≤ d ↔ m.2.depth ≤ d ∧ membersDepth ms ≤ d := Nat.max_le
    rw [List.foldlM_cons]
    by_cases here : m.2.depth ≤ d
    · have first : blankWithin d m.2 = some m.2.blank := if_pos here
      simp [first, ih, fits, blankMembers, here]
    · have first : blankWithin d m.2 = none := if_neg here
      simp [first, fits, here]

theorem readString_skimmed :
    Tracks (readString : Reader ε _) skimming.string fun _ => some "" := by
  intro cs s rest read
  obtain ⟨p, chars, done⟩ := bind_eq_ok.mp read
  obtain ⟨-, rfl⟩ := Prod.mk.inj (Except.ok.inj done)
  simp only [skimming, (stringChars_skimmed chars).1, ok_bind]
  rfl

theorem readNumber_skimmed :
    Tracks (readNumber : Reader ε _) skimming.number fun _ => some (.natural 0) := by
  intro cs n rest read
  obtain ⟨⟨t, behind⟩, text, read⟩ := bind_eq_ok.mp read
  obtain ⟨_, _, done⟩ := bind_eq_ok.mp read
  obtain ⟨-, rfl⟩ := Prod.mk.inj (Except.ok.inj done)
  simp only [skimming, numberText_atEnd text .malformed, ok_bind]
  rfl

theorem readValue_skimmed (d e : Nat) :
    Tracks (readValue (strict : Leaves ε) d) (readValue skimming e) (blankWithin e) := by
  induction d using Nat.strongRecOn generalizing e with
  | ind d ih =>
    intro cs j rest read
    cases readValue_found read with
    | null front read | yes front read | no front read =>
      rw [readValue.eq_def, front]
      simp [read, blankWithin, depth, blank, pure_eq_ok, ok_bind]
    | @string _ _ s front read =>
      have skimmed := toOption_eq_some.mp (readString_skimmed _ s rest read)
      rw [readValue_string front, skimmed]
      simp [blankWithin, depth, blank, ok_bind]
    | @number _ _ _ n front head read =>
      have skimmed := toOption_eq_some.mp (readNumber_skimmed _ n rest read)
      rw [readValue_numeric front head, skimmed]
      simp [blankWithin, depth, blank, ok_bind]
    | @array more _ inner js front level read =>
      cases e with
      | zero =>
        rw [readValue.eq_def, front]
        simp [blankWithin, depth]
      | succ e =>
        have items := readItems_tracks (ih inner (by omega) e) more js rest read
        dsimp only at items
        rw [readValue_items front, toOption_bind, items, mapM_blankWithin]
        simp only [blankWithin, depth, Nat.add_le_add_iff_right, blank]
        split <;> rfl
    | @object more _ inner ms front level read =>
      cases e with
      | zero =>
        rw [readValue.eq_def, front]
        simp [blankWithin, depth]
      | succ e =>
        have each (k : String) (cs : List Char) (j : Json) (rest : List Char)
            (read : (colon cs >>= readValue (strict : Leaves ε) inner) = .ok (j, rest))
            (seen : List (String × Json)) :
            (memberWith (skimming : Leaves ε) e seen "" cs).toOption =
              ((blankWithin e j).map fun j => seen ++ [("", j)]).map (·, rest) := by
          obtain ⟨front, colon, read⟩ := bind_eq_ok.mp read
          have value := ih inner (by omega) e front j rest read
          simp only [memberWith, colon, ok_bind, toOption_bind, value]
          cases blankWithin e j <;> rfl
        have members : (readMembers skimming.string (memberWith skimming e) [] more).toOption =
            (ms.foldlM (fun seen m => (blankWithin e m.2).map fun j => seen ++ [("", j)]) []).map
              (·, rest) := readMembers_tracks readString_skimmed each read []
        rw [foldlM_blankWithin] at members
        rw [readValue_members front, toOption_bind, members]
        simp only [blankWithin, depth, Nat.add_le_add_iff_right, blank]
        split <;> rfl

theorem skim_of_readValue {d : Nat} {cs rest : List Char} {j : Json}
    (read : readValue (strict : Leaves ε) d cs = .ok (j, rest)) :
    (skim cs : Except (Fault ε) _) = .ok rest := by
  have shallow : j.depth ≤ cs.length := by
    have below := readValue_depth read
    omega
  have skimmed := readValue_skimmed d cs.length cs j rest read
  rw [blankWithin, if_pos shallow, Option.map_some, toOption_eq_some] at skimmed
  simp only [skim, skimmed, ok_bind]
  rfl

end Json

end ScriptCheck
