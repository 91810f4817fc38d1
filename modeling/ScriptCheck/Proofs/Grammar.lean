import ScriptCheck.Proofs.Derivations

/-! The reader accepts exactly what the grammar derives. At every moment the words read so far are
those of a derivation that has been begun: finished members with their bars, finished types with
their commas, and the constructs that are open. -/
namespace ScriptCheck.Ty

def behind (c : Char) (tss : List (List Token)) : List Token := tss.flatMap (· ++ [.mark c])

theorem behind_snoc (c : Char) (tss : List (List Token)) (ts : List Token) :
    behind c (tss ++ [ts]) = behind c tss ++ ts ++ [.mark c] := by
  simp [behind]

theorem divided_snoc (c : Char) (tss : List (List Token)) (ts : List Token) :
    divided c (tss ++ [ts]) = behind c tss ++ ts := by
  induction tss with
  | nil => rfl
  | cons us rest ih =>
    cases rest with
    | nil => simp [divided, behind]
    | cons vs rest =>
      rw [List.cons_append, List.cons_append, divided, ← List.cons_append, ih]
      simp [behind]

structure Member.Yields (m : Member) (ts : List Token) (t : Ty) : Prop where
  greedy : m.Greedy
  tokens : m.tokens = ts
  value : m.value = t

structure Lists (ds : List Derivation) (items : List Ty) : Prop where
  greedy : ∀ d ∈ ds, d.Greedy
  values : ds.map Derivation.value = items

theorem Lists.nil : Lists [] [] := ⟨nofun, rfl⟩

theorem Lists.snoc {ds : List Derivation} {items : List Ty} (lists : Lists ds items)
    {d : Derivation} (greedy : d.Greedy) : Lists (ds ++ [d]) (items ++ [d.value]) := by
  constructor
  · rw [List.forall_mem_append]
    exact ⟨lists.greedy, by simpa using greedy⟩
  · rw [List.map_append, lists.values]
    rfl

/-- Finished members, each with a bar behind it: none of them is a function. -/
def Passed (ts : List Token) (us : List Ty) : Prop :=
  ∃ ms : List Member, (∀ m ∈ ms, m.Greedy ∧ m.isFunction = false) ∧ ms.map Member.value = us ∧
    ts = behind '|' (ms.map Member.tokens)

theorem passed_nil : Passed [] [] := ⟨[], nofun, rfl, rfl⟩

theorem Passed.snoc {es ts : List Token} {us : List Ty} {t : Ty} (passed : Passed es us)
    {m : Member} (yields : m.Yields ts t) (plain : m.isFunction = false) :
    Passed (es ++ ts ++ [.mark '|']) (us ++ [t]) := by
  obtain ⟨ms, each, values, rfl⟩ := passed
  refine ⟨ms ++ [m], ?_, ?_, ?_⟩
  · rw [List.forall_mem_append]
    exact ⟨each, by simpa using ⟨yields.greedy, plain⟩⟩
  · rw [List.map_append, values, ← yields.value]
    rfl
  · rw [List.map_append, List.map_singleton, behind_snoc, yields.tokens]

def Derivation.of : List Member → Member → Derivation
  | [], last => .members last []
  | first :: more, last => .members first (more ++ [last])

theorem Derivation.all_of (ms : List Member) (last : Member) : (of ms last).all = ms ++ [last] := by
  cases ms <;> rfl

theorem Passed.type {es ts : List Token} {us : List Ty} {t : Ty} (passed : Passed es us)
    {m : Member} (yields : m.Yields ts t) :
    ∃ d : Derivation, d.Greedy ∧ d.tokens = es ++ ts ∧ d.value = ofMembers us t := by
  obtain ⟨ms, each, values, rfl⟩ := passed
  refine ⟨.of ms m, ?_, ?_, ?_⟩
  · have all := Derivation.all_of ms m
    generalize Derivation.of ms m = d at all
    obtain ⟨first, more⟩ := d
    change first :: more = ms ++ [m] at all
    constructor
    · rw [all, List.forall_mem_append]
      exact ⟨fun p h => (each p h).1, by simpa using yields.greedy⟩
    · rw [all, List.dropLast_concat]
      exact fun p h => (each p h).2
  · rw [Derivation.tokens_eq, Derivation.all_of, List.map_append, List.map_singleton, divided_snoc,
      yields.tokens]
  · rw [Derivation.value_eq, Derivation.all_of, List.map_append, List.map_singleton, values,
      yields.value, ofMembers_eq]

inductive Heads : List Token → Ty → Prop where
  | types {ds : List Derivation} {items : List Ty} (lists : Lists ds items) :
      Heads (.mark '@' :: .mark '(' :: (divided ',' (ds.map Derivation.tokens) ++ [.mark ')']))
        (.tuple items)
  | rest (chars : List Char) :
      Heads [.mark '@', .mark '(', .ellipsis, .name chars, .mark ')'] (.name (String.ofList chars))

theorem Heads.function {hs : List Token} {params : Ty} (heads : Heads hs params) {d : Derivation}
    (greedy : d.Greedy) :
    ∃ m : Member, m.Yields (hs ++ .mark ':' :: d.tokens) (.function params d.value) := by
  cases heads with
  | @types ds items lists =>
    refine ⟨.function ds d, .function lists.greedy greedy, ?_, ?_⟩
    · simp [Member.tokens, tokensListed_eq]
    · rw [Member.value, valuesOf_eq, lists.values]
  | rest chars => exact ⟨.variadic chars d, .variadic chars greedy, rfl, rfl⟩

def Opening.Traces : Opening → List Token → Prop
  | .group, ts => ts = [.mark '(']
  | .tuple items, ts => ∃ ds, Lists ds items ∧
    ts = .mark '[' :: behind ',' (ds.map Derivation.tokens)
  | .params items, ts => ∃ ds, Lists ds items ∧
    ts = .mark '@' :: .mark '(' :: behind ',' (ds.map Derivation.tokens)
  | .result args, ts => ∃ hs, Heads hs args ∧ ts = hs ++ [.mark ':']

inductive Stacked : List Frame → List Token → Prop where
  | nil : Stacked [] []
  | cons {opening : Opening} {earlier : List Ty} {stack : List Frame} {ss es os : List Token}
      (below : Stacked stack ss) (passed : Passed es earlier) (opened : opening.Traces os) :
      Stacked (⟨opening, earlier⟩ :: stack) (ss ++ es ++ os)

def Phase.Traces : Phase → List Token → Prop
  | .member, ts => ts = []
  | .itemOrBracket, ts => ts = [.mark '[']
  | .paren, ts => ts = [.mark '@']
  | .paramsOrRest, ts => ts = [.mark '@', .mark '(']
  | .restName, ts => ts = [.mark '@', .mark '(', .ellipsis]
  | .restEnd chars, ts => ts = [.mark '@', .mark '(', .ellipsis, .name chars]
  | .colon args, ts => Heads ts args
  | .after t, ts => ∃ m : Member, m.Yields ts t ∧ m.isFunction = false

/-- The reader stands where these words lead. -/
inductive Progress.Traces : Progress → List Token → Prop where
  | of {phase : Phase} {earlier : List Ty} {stack : List Frame} {ss es ps : List Token}
      (below : Stacked stack ss) (passed : Passed es earlier) (here : phase.Traces ps) :
      Progress.Traces ⟨phase, earlier, stack⟩ (ss ++ es ++ ps)

theorem Stacked.begins {stack : List Frame} {ss : List Token} (stacked : Stacked stack ss) :
    Progress.Traces ⟨.member, [], stack⟩ ss := by
  have begun : Phase.Traces .member [] := rfl
  simpa using Progress.Traces.of stacked passed_nil begun

theorem beginMember_traces {next : Token} {earlier : List Ty} {stack : List Frame} {q : Progress}
    {ss es : List Token} (below : Stacked stack ss) (passed : Passed es earlier)
    (begun : beginMember next earlier stack = .ok q) : q.Traces (ss ++ es ++ [next]) := by
  unfold beginMember at begun
  split at begun <;> cases begun
  · rename_i chars
    exact .of below passed ⟨.name chars, ⟨.name chars, rfl, rfl⟩, rfl⟩
  · exact .of below passed rfl
  · exact .of below passed rfl
  · have group : Opening.Traces .group [.mark '('] := rfl
    exact (Stacked.cons below passed group).begins

theorem Listing.traces {entered : Phase} {opening : List Ty → Opening} {closing : Char}
    {done : List Ty → Phase} (listing : Listing entered opening closing done) (front : List Token)
    (opens : ∀ items ts, (opening items).Traces ts ↔
      ∃ ds, Lists ds items ∧ ts = front ++ behind ',' (ds.map Derivation.tokens))
    (closes : ∀ ds items, Lists ds items →
      (done items).Traces (front ++ divided ',' (ds.map Derivation.tokens) ++ [.mark closing]))
    {items outer earlier : List Ty} {last : Ty} {stack : List Frame} {next : Token} {q : Progress}
    {ss es os : List Token} (below : Stacked stack ss) (outside : Passed es outer)
    (opened : (opening items).Traces os) {d : Derivation} (greedy : d.Greedy)
    (value : d.value = ofMembers earlier last) (mark : next = .mark ',' ∨ next = .mark closing)
    (ended : endType next earlier last (⟨opening items, outer⟩ :: stack) = .ok q) :
    q.Traces (ss ++ es ++ (os ++ d.tokens ++ [next])) := by
  obtain ⟨ds, lists, rfl⟩ := (opens items os).mp opened
  have longer := lists.snoc greedy
  rw [value] at longer
  rcases mark with rfl | rfl
  · rw [listing.more] at ended
    cases ended
    have further := (opens _ _).mpr ⟨_, longer, rfl⟩
    rw [List.map_append, List.map_singleton, behind_snoc, ← List.append_assoc,
      ← List.append_assoc] at further
    exact (Stacked.cons below outside further).begins
  · rw [listing.close] at ended
    cases ended
    have closed := closes _ _ longer
    rw [List.map_append, List.map_singleton, divided_snoc, ← List.append_assoc] at closed
    exact .of below outside closed

theorem endType_traces {next : Token} {earlier : List Ty} {last : Ty} {stack : List Frame}
    {q : Progress} {ss es ts : List Token} (below : Stacked stack ss) (passed : Passed es earlier)
    {m : Member} (yields : m.Yields ts last) (ended : endType next earlier last stack = .ok q) :
    q.Traces (ss ++ es ++ ts ++ [next]) := by
  induction below generalizing earlier last es ts m with
  | nil => cases ended
  | @cons opening outer stack ss es' os below outside opened ih =>
    obtain ⟨d, greedy, written, value⟩ := passed.type yields
    have words : ss ++ es' ++ os ++ es ++ ts ++ [next] =
        ss ++ es' ++ (os ++ d.tokens ++ [next]) := by simp [written]
    rw [words]
    cases opening with
    | group =>
      simp only [endType] at ended
      split at ended <;> cases ended
      rename_i close
      subst close
      obtain rfl : os = [.mark '('] := opened
      exact .of below outside ⟨.group d, ⟨.group greedy, rfl, value⟩, rfl⟩
    | tuple items =>
      have mark : next = .mark ',' ∨ next = .mark ']' := by
        by_contra neither
        rw [not_or] at neither
        simp [endType, neither] at ended
      refine tuple_listing.traces [.mark '['] (fun _ _ => .rfl) ?_ below outside opened greedy
        value mark ended
      intro ds items lists
      refine ⟨.tuple ds, ⟨.tuple lists.greedy, ?_, ?_⟩, rfl⟩
      · simp [Member.tokens, tokensListed_eq]
      · rw [Member.value, valuesOf_eq, lists.values]
    | params items =>
      have mark : next = .mark ',' ∨ next = .mark ')' := by
        by_contra neither
        rw [not_or] at neither
        simp [endType, neither] at ended
      refine params_listing.traces [.mark '@', .mark '('] (fun _ _ => .rfl) ?_ below outside opened
        greedy value mark ended
      intro ds items lists
      exact Heads.types lists
    | result args =>
      obtain ⟨hs, heads, rfl⟩ := opened
      obtain ⟨f, function⟩ := heads.function greedy
      rw [value] at function
      have further := ih outside function ended
      simpa using further

theorem endText_derives {earlier : List Ty} {last t : Ty} {stack : List Frame}
    {ss es ts : List Token} (below : Stacked stack ss) (passed : Passed es earlier) {m : Member}
    (yields : m.Yields ts last) (ended : endText earlier last stack = .ok t) :
    ∃ d : Derivation, d.Greedy ∧ d.tokens = ss ++ es ++ ts ∧ d.value = t := by
  induction below generalizing earlier last es ts m with
  | nil =>
    cases ended
    exact passed.type yields
  | @cons opening outer stack ss es' os below outside opened ih =>
    obtain ⟨d, greedy, written, value⟩ := passed.type yields
    cases opening with
    | group => cases ended
    | tuple items => cases ended
    | params items => cases ended
    | result args =>
      obtain ⟨hs, heads, rfl⟩ := opened
      obtain ⟨f, function⟩ := heads.function greedy
      rw [value] at function
      obtain ⟨whole, derived, words, type⟩ := ih outside function ended
      exact ⟨whole, derived, by simp [words, written], type⟩

theorem Progress.Traces.step {p q : Progress} {ts : List Token} {next : Token}
    (traces : p.Traces ts) (stepped : p.step next = .ok q) : q.Traces (ts ++ [next]) := by
  cases traces with
  | @of phase earlier stack ss es ps below passed here =>
    rw [List.append_assoc]
    cases phase with
    | member =>
      obtain rfl : ps = [] := here
      exact beginMember_traces below passed stepped
    | itemOrBracket =>
      obtain rfl : ps = [.mark '['] := here
      simp only [Progress.step] at stepped
      split at stepped
      · rename_i close
        cases stepped
        subst close
        exact .of below passed ⟨.tuple [], ⟨.tuple (by simp), rfl, rfl⟩, rfl⟩
      · have opened : Opening.Traces (.tuple []) [.mark '['] := ⟨[], .nil, rfl⟩
        have begun := beginMember_traces (.cons below passed opened) passed_nil stepped
        simpa using begun
    | paren =>
      obtain rfl : ps = [.mark '@'] := here
      simp only [Progress.step] at stepped
      split at stepped <;> cases stepped
      rename_i next
      subst next
      exact .of below passed rfl
    | paramsOrRest =>
      obtain rfl : ps = [.mark '@', .mark '('] := here
      simp only [Progress.step] at stepped
      split at stepped
      · rename_i dots
        cases stepped
        subst dots
        exact .of below passed rfl
      · split at stepped
        · rename_i close
          cases stepped
          subst close
          exact .of below passed (.types .nil)
        · have opened : Opening.Traces (.params []) [.mark '@', .mark '('] := ⟨[], .nil, rfl⟩
          have begun := beginMember_traces (.cons below passed opened) passed_nil stepped
          simpa using begun
    | restName =>
      obtain rfl : ps = [.mark '@', .mark '(', .ellipsis] := here
      simp only [Progress.step] at stepped
      split at stepped <;> cases stepped
      exact .of below passed rfl
    | restEnd chars =>
      obtain rfl : ps = [.mark '@', .mark '(', .ellipsis, .name chars] := here
      simp only [Progress.step] at stepped
      split at stepped <;> cases stepped
      rename_i close
      subst close
      exact .of below passed (.rest chars)
    | colon args =>
      simp only [Progress.step] at stepped
      split at stepped <;> cases stepped
      rename_i colon
      subst colon
      have opened : Opening.Traces (.result args) (ps ++ [.mark ':']) := ⟨ps, here, rfl⟩
      exact (Stacked.cons below passed opened).begins
    | after t =>
      obtain ⟨m, yields, plain⟩ := here
      simp only [Progress.step] at stepped
      split at stepped
      · rename_i bar
        cases stepped
        subst bar
        have begun : Phase.Traces .member [] := rfl
        have further := Progress.Traces.of below (passed.snoc yields plain) begun
        simpa using further
      · have further := endType_traces below passed yields stepped
        simpa using further

theorem Progress.Traces.reads {p q : Progress} {ts us : List Token} (traces : p.Traces ts)
    (through : p.reads us = .ok q) : q.Traces (ts ++ us) := by
  induction us generalizing p ts with
  | nil =>
    cases through
    simpa using traces
  | cons next rest ih =>
    cases stepped : p.step next with
    | error fault => simp [Progress.reads, stepped, bind, Except.bind] at through
    | ok r =>
      rw [Progress.reads_cons stepped] at through
      have further := ih (traces.step stepped) through
      simpa using further

theorem Progress.Traces.finish {p : Progress} {ts : List Token} {t : Ty} (traces : p.Traces ts)
    (ended : p.finish = .ok t) : ∃ d : Derivation, d.Greedy ∧ d.tokens = ts ∧ d.value = t := by
  cases traces with
  | @of phase earlier stack ss es ps below passed here =>
    cases phase with
    | after last =>
      obtain ⟨m, yields, _⟩ := here
      exact endText_derives below passed yields ended
    | _ => cases ended

theorem derivation_of_parse {s : String} {t : Ty} (read : parse s = .ok t) :
    ∃ d : Derivation, d.Greedy ∧ d.tokens = words s.toList ∧ d.value = t := by
  obtain ⟨q, through, ended⟩ := parse_eq_ok_iff.mp read
  have begun : start.Traces [] := Stacked.nil.begins
  exact (begun.reads through).finish ended

def Known (ts : List Token) : Prop := ∀ c, .mark c ∈ ts → c ∈ marks

theorem known_divided {c : Char} (listed : c ∈ marks) {tss : List (List Token)}
    (each : ∀ ts ∈ tss, Known ts) : Known (divided c tss) := by
  induction tss with
  | nil => exact nofun
  | cons ts rest ih =>
    obtain ⟨head, tail⟩ := List.forall_mem_cons.mp each
    cases rest with
    | nil => exact head
    | cons us rest =>
      intro d there
      simp only [divided, List.mem_append, List.mem_cons, Token.mark.injEq] at there
      rcases there with early | rfl | later
      · exact head d early
      · exact listed
      · exact ih tail d later

theorem Derivation.known_of_all {d : Derivation} (each : ∀ m ∈ d.all, Known m.tokens) :
    Known d.tokens := by
  rw [tokens_eq]
  exact known_divided (by decide) (List.forall_mem_map.mpr each)

theorem known_listed {ds : List Derivation}
    (each : ∀ m ∈ ds.flatMap Derivation.all, Known m.tokens) : Known (tokensListed ds) := by
  rw [tokensListed_eq]
  refine known_divided (by decide) (List.forall_mem_map.mpr fun d member => ?_)
  exact Derivation.known_of_all fun m inside => each m (List.mem_flatMap.mpr ⟨d, member, inside⟩)

theorem Member.known (m : Member) : Known m.tokens := by
  induction m using Member.induction with
  | step m ih =>
    intro c there
    cases m with
    | name chars => simp [tokens] at there
    | tuple items =>
      have items := known_listed ih
      simp only [tokens, List.mem_cons, List.mem_append, Token.mark.injEq, List.not_mem_nil,
        or_false] at there
      rcases there with rfl | inside | rfl
      · decide
      · exact items c inside
      · decide
    | function params result =>
      simp only [parts, List.forall_mem_append] at ih
      have params := known_listed ih.1
      have result := Derivation.known_of_all ih.2
      simp only [tokens, List.mem_cons, List.mem_append, Token.mark.injEq] at there
      rcases there with rfl | rfl | inside | rfl | rfl | inside
      · decide
      · decide
      · exact params c inside
      · decide
      · decide
      · exact result c inside
    | variadic rest result =>
      have result := Derivation.known_of_all ih
      simp only [tokens, List.mem_cons, Token.mark.injEq, reduceCtorEq, false_or] at there
      rcases there with rfl | rfl | rfl | rfl | inside
      · decide
      · decide
      · decide
      · decide
      · exact result c inside
    | group inner =>
      have inner := Derivation.known_of_all ih
      simp only [tokens, List.mem_cons, List.mem_append, Token.mark.injEq, List.not_mem_nil,
        or_false] at there
      rcases there with rfl | inside | rfl
      · decide
      · exact inner c inside
      · decide

theorem Derivation.spells {d : Derivation} {cs : List Char} (same : d.tokens = words cs) :
    Spells d.tokens cs := by
  have known : Known d.tokens := known_of_all fun m _ => m.known
  rw [same] at known ⊢
  exact spells_words known

/-- A text denotes a type exactly if it is spelled with the words of a greedy derivation that has
the type as its value, so it denotes one type at most. Any derivation at all is enough for a text to
be accepted. -/
theorem parse_iff_derivation (s : String) (t : Ty) :
    (parse s = .ok t ↔
      ∃ d : Derivation, Spells d.tokens s.toList ∧ d.Greedy ∧ d.value = t) ∧
    ((∃ d : Derivation, Spells d.tokens s.toList) → ∃ u, parse s = .ok u) := by
  refine ⟨⟨?_, ?_⟩, ?_⟩
  · intro read
    obtain ⟨d, greedy, same, value⟩ := derivation_of_parse read
    exact ⟨d, Derivation.spells same, greedy, value⟩
  · rintro ⟨d, spelled, greedy, rfl⟩
    rw [parse_of_derivation spelled, Derivation.reading_of_greedy greedy]
  · rintro ⟨d, spelled⟩
    exact ⟨d.reading, parse_of_derivation spelled⟩

theorem parse_iff_derivation_ambiguous :
    let s := " @(): a | b"
    let short : Derivation :=
      .members (.function [] (.members (.name ['a']) [])) [.name ['b']]
    let long : Derivation :=
      .members (.function [] (.members (.name ['a']) [.name ['b']])) []
    Spells short.tokens s.toList ∧ ¬ short.Greedy ∧ (∃ u, parse s = .ok u) ∧
      Spells long.tokens s.toList ∧ long.Greedy ∧ parse s = .ok long.value ∧
      parse s ≠ .ok short.value := by
  intro s short long
  have words : short.tokens = words s.toList ∧ long.tokens = words s.toList := by decide +kernel
  have late : Spells short.tokens s.toList := Derivation.spells words.1
  have spelled : Spells long.tokens s.toList := Derivation.spells words.2
  have result : Derivation.Greedy (.members (.name ['a']) [.name ['b']]) :=
    .members (by simp [Member.Greedy.name]) (by simp [Member.isFunction])
  have greedy : long.Greedy := .members (by simpa using .function nofun result) nofun
  have ambiguous : ¬ short.Greedy := by
    intro greedy
    simp only [short] at greedy
    cases greedy with
    | members _ last => exact absurd (last _ List.mem_cons_self) (by decide)
  have read := (parse_iff_derivation s long.value).1.mpr ⟨long, spelled, greedy, rfl⟩
  refine ⟨late, ambiguous, (parse_iff_derivation s long.value).2 ⟨short, late⟩, spelled, greedy,
    read, ?_⟩
  rw [read]
  decide

end ScriptCheck.Ty
