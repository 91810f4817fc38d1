import ScriptCheck.Proofs.Canonical

/-! Going through the words of a type expression. Where the reader stands after some words, what
members it then has read with all the functions whose results are still open, and that all it has
read can be printed and read again. -/
namespace ScriptCheck.Ty

def Progress.reads (p : Progress) (ts : List Token) : Except Fault Progress :=
  ts.foldlM Progress.step p

namespace Progress

theorem reads_cons {p q : Progress} {t : Token} (step : p.step t = .ok q) (ts : List Token) :
    p.reads (t :: ts) = q.reads ts := by
  simp only [reads, List.foldlM_cons, step]
  rfl

theorem reads_append {p q : Progress} {first : List Token} (through : p.reads first = .ok q)
    (second : List Token) : p.reads (first ++ second) = q.reads second := by
  simp only [reads, List.foldlM_append] at through ⊢
  rw [through]
  rfl

theorem run_eq_ok_iff {p : Progress} {stop : Nat} {ls : List Lexeme} {t : Ty} :
    p.run stop ls = .ok t ↔ ∃ q, p.reads (ls.map Lexeme.token) = .ok q ∧ q.finish = .ok t := by
  induction ls generalizing p with
  | nil =>
    simp only [run, reads, List.map_nil, List.foldlM_nil]
    cases ended : p.finish with
    | ok u => simp [pure, Except.pure, ended]
    | error fault => simp [pure, Except.pure, ended]
  | cons l rest ih =>
    cases stepped : p.step l.token with
    | ok q =>
      rw [List.map_cons, reads_cons stepped, ← ih]
      simp [run, stepped]
    | error fault => simp [run, reads, stepped, bind, Except.bind]

end Progress

theorem parse_eq_ok_iff {text : String} {t : Ty} :
    parse text = .ok t ↔ ∃ q, start.reads (words text.toList) = .ok q ∧ q.finish = .ok t :=
  Progress.run_eq_ok_iff

abbrev OpenResult := Ty × List Ty

def OpenResult.frame (f : OpenResult) : Frame := ⟨.result f.1, f.2⟩

/-- The members that are there once the open results end, `ms` being those of the innermost. -/
def settle (ms : List Ty) : List OpenResult → List Ty
  | [] => ms
  | (params, outer) :: more => settle (outer ++ [.function params (join ms)]) more

theorem settle_append (ms : List Ty) (first second : List OpenResult) :
    settle ms (first ++ second) = settle (settle ms first) second := by
  induction first generalizing ms with
  | nil => rfl
  | cons f more ih => exact ih _

theorem ends_settled (before : List Ty) (last : Ty) (opened : List OpenResult) :
    ∃ earlier member, settle (before ++ [last]) opened = earlier ++ [member] ∧
      (∀ next stack, endType next before last (opened.map OpenResult.frame ++ stack) =
        endType next earlier member stack) ∧
      endText before last (opened.map OpenResult.frame) = .ok (ofMembers earlier member) := by
  induction opened generalizing before last with
  | nil => exact ⟨before, last, rfl, fun _ _ => rfl, rfl⟩
  | cons f more ih =>
    obtain ⟨params, outer⟩ := f
    obtain ⟨earlier, member, same, type, text⟩ :=
      ih outer (.function params (ofMembers before last))
    refine ⟨earlier, member, ?_, type, text⟩
    rw [settle, ← ofMembers_eq, same]

/-- From any place where a member may stand, the words lead behind a member; whatever more members
follow, in the end `members` of them have been read. -/
def Reads (ts : List Token) (members : List Ty → List Ty) : Prop :=
  ∀ earlier stack, ∃ before last opened,
    Progress.reads ⟨.member, earlier, stack⟩ ts =
      .ok ⟨.after last, before, opened.map OpenResult.frame ++ stack⟩ ∧
    ∀ rest, settle (before ++ last :: rest) opened = earlier ++ members rest

namespace Reads

variable {ts : List Token} {members : List Ty → List Ty}

theorem begins (reads : Reads ts members) :
    ∃ first more, ts = first :: more ∧ first ≠ .mark ']' ∧ first ≠ .mark ')' ∧
      first ≠ .ellipsis := by
  obtain ⟨before, last, opened, through, _⟩ := reads [] []
  cases ts with
  | nil => simp [Progress.reads, pure, Except.pure] at through
  | cons first more =>
    refine ⟨first, more, rfl, ?_, ?_, ?_⟩ <;> rintro rfl <;>
      simp [Progress.reads, Progress.step, beginMember, bind, Except.bind] at through

theorem ended (reads : Reads ts members) (frame : Frame) (stack : List Frame) {next : Token}
    (ends : next ≠ .mark '|') (more : List Token) :
    ∃ earlier member, members [] = earlier ++ [member] ∧
      Progress.reads ⟨.member, [], frame :: stack⟩ (ts ++ next :: more) =
        (do Progress.reads (← endType next earlier member (frame :: stack)) more) := by
  obtain ⟨before, last, opened, through, settled⟩ := reads [] (frame :: stack)
  obtain ⟨earlier, member, same, type, _⟩ := ends_settled before last opened
  refine ⟨earlier, member, ?_, ?_⟩
  · rw [← same, settled []]
    rfl
  · rw [Progress.reads_append through]
    simp only [Progress.reads, List.foldlM_cons, Progress.step, if_neg ends, type]

theorem name (chars : List Char) : Reads [.name chars] (.name (String.ofList chars) :: ·) :=
  fun earlier _ => ⟨earlier, _, [], rfl, fun _ => rfl⟩

theorem bar {us : List Token} {others : List Ty → List Ty} (first : Reads ts members)
    (second : Reads us others) :
    Reads (ts ++ .mark '|' :: us) (fun rest => members (others rest)) := by
  intro earlier stack
  obtain ⟨before, last, opened, through, settled⟩ := first earlier stack
  obtain ⟨before', last', opened', through', settled'⟩ :=
    second (before ++ [last]) (opened.map OpenResult.frame ++ stack)
  refine ⟨before', last', opened' ++ opened, ?_, fun rest => ?_⟩
  · rw [Progress.reads_append through, Progress.reads_cons rfl, through', List.map_append,
      List.append_assoc]
  · rw [settle_append, settled', List.append_assoc]
    exact settled (others rest)

theorem result {params : Ty} {head : List Token}
    (opens : ∀ earlier stack, Progress.reads ⟨.member, earlier, stack⟩ head =
      .ok ⟨.colon params, earlier, stack⟩) (returned : Reads ts members) :
    Reads (head ++ .mark ':' :: ts) (fun rest => [.function params (join (members rest))]) := by
  intro earlier stack
  obtain ⟨before, last, opened, through, settled⟩ :=
    returned [] (⟨.result params, earlier⟩ :: stack)
  refine ⟨before, last, opened ++ [(params, earlier)], ?_, fun rest => ?_⟩
  · rw [Progress.reads_append (opens earlier stack), Progress.reads_cons rfl, through,
      List.map_append, List.append_assoc]
    rfl
  · rw [settle_append, settled]
    rfl

theorem parse (reads : Reads ts members) {text : String} (cut : words text.toList = ts) :
    Ty.parse text = .ok (join (members [])) := by
  obtain ⟨before, last, opened, through, settled⟩ := reads [] []
  obtain ⟨earlier, member, same, _, ended⟩ := ends_settled before last opened
  have type : ofMembers earlier member = join (members []) := by
    rw [ofMembers_eq, ← same, settled []]
    rfl
  rw [parse_eq_ok_iff, cut]
  refine ⟨_, through, ?_⟩
  rw [List.append_nil, ← type]
  exact ended

end Reads

def divided (divider : Char) : List (List Token) → List Token
  | [] => []
  | [ts] => ts
  | ts :: us :: rest => ts ++ .mark divider :: divided divider (us :: rest)

/-- A construct that holds a list of types: `entered` is where the reader stands right behind its
opening mark, `opening` how it stays open, `closing` the mark that ends it, and `done` where the
reader then stands. -/
structure Listing (entered : Phase) (opening : List Ty → Opening) (closing : Char)
    (done : List Ty → Phase) : Prop where
  empty : ∀ earlier stack,
    Progress.step ⟨entered, earlier, stack⟩ (.mark closing) = .ok ⟨done [], earlier, stack⟩
  begin : ∀ earlier stack first, first ≠ .mark ']' → first ≠ .mark ')' → first ≠ .ellipsis →
    Progress.step ⟨entered, earlier, stack⟩ first =
      Progress.step ⟨.member, [], ⟨opening [], earlier⟩ :: stack⟩ first
  more : ∀ items outer stack before last,
    endType (.mark ',') before last (⟨opening items, outer⟩ :: stack) =
      .ok ⟨.member, [], ⟨opening (items ++ [ofMembers before last]), outer⟩ :: stack⟩
  close : ∀ items outer stack before last,
    endType (.mark closing) before last (⟨opening items, outer⟩ :: stack) =
      .ok ⟨done (items ++ [ofMembers before last]), outer, stack⟩
  ends : Token.mark closing ≠ .mark '|'

theorem tuple_listing : Listing .itemOrBracket .tuple ']' fun items => .after (.tuple items) where
  empty _ _ := rfl
  begin _ _ first bracket _ _ := by simp only [Progress.step, if_neg bracket]
  more _ _ _ _ _ := rfl
  close _ _ _ _ _ := rfl
  ends := by decide

theorem params_listing : Listing .paramsOrRest .params ')' fun items => .colon (.tuple items) where
  empty _ _ := rfl
  begin _ _ first _ paren dots := by simp only [Progress.step, if_neg paren, if_neg dots]
  more _ _ _ _ _ := rfl
  close _ _ _ _ _ := rfl
  ends := by decide

namespace Listing

variable {entered : Phase} {opening : List Ty → Opening} {closing : Char}
  {done : List Ty → Phase} (listing : Listing entered opening closing done)
  {α : Type} {tokens : α → List Token} {members : α → List Ty → List Ty}
include listing

theorem reads_items {x : α} {xs : List α} (each : ∀ y ∈ x :: xs, Reads (tokens y) (members y))
    (items outer : List Ty) (stack : List Frame) :
    Progress.reads ⟨.member, [], ⟨opening items, outer⟩ :: stack⟩
        (divided ',' ((x :: xs).map tokens) ++ [.mark closing]) =
      .ok ⟨done (items ++ (x :: xs).map fun y => join (members y [])), outer, stack⟩ := by
  induction xs generalizing x items with
  | nil =>
    obtain ⟨earlier, member, same, through⟩ :=
      (each x List.mem_cons_self).ended ⟨opening items, outer⟩ stack listing.ends []
    rw [List.map_singleton, divided, through, listing.close, ofMembers_eq, ← same]
    rfl
  | cons y ys ih =>
    have comma : Token.mark ',' ≠ .mark '|' := by decide
    obtain ⟨earlier, member, same, through⟩ :=
      (each x List.mem_cons_self).ended ⟨opening items, outer⟩ stack comma
        (divided ',' ((y :: ys).map tokens) ++ [.mark closing])
    have rest := ih (fun m h => each m (List.mem_cons_of_mem _ h)) (items ++ [join (members x [])])
    simp only [List.map_cons] at through rest ⊢
    rw [divided, List.append_assoc, List.cons_append, through, listing.more, ofMembers_eq, ← same]
    simp only [List.append_assoc, List.cons_append, List.nil_append] at rest ⊢
    exact rest

theorem reads_all {xs : List α} (each : ∀ y ∈ xs, Reads (tokens y) (members y))
    (earlier : List Ty) (stack : List Frame) :
    Progress.reads ⟨entered, earlier, stack⟩ (divided ',' (xs.map tokens) ++ [.mark closing]) =
      .ok ⟨done (xs.map fun y => join (members y [])), earlier, stack⟩ := by
  cases xs with
  | nil => exact Progress.reads_cons (listing.empty earlier stack) []
  | cons x xs =>
    obtain ⟨first, more, begins, bracket, paren, dots⟩ := (each x List.mem_cons_self).begins
    have whole := listing.reads_items each [] earlier stack
    have front : ∃ rest, divided ',' ((x :: xs).map tokens) = first :: rest := by
      cases xs with
      | nil => exact ⟨more, begins⟩
      | cons y ys => exact ⟨_, by simp only [List.map_cons, divided, begins]; rfl⟩
    obtain ⟨rest, front⟩ := front
    rw [front] at whole ⊢
    simp only [Progress.reads, List.cons_append, List.foldlM_cons] at whole ⊢
    rw [listing.begin earlier stack first bracket paren dots, whole]
    rfl

end Listing

def Callable (params : Ty) : Prop := ∀ result, Legible result → Legible (.function params result)

def Phase.Sound : Phase → Prop
  | .after t => Legible t
  | .colon params => Callable params
  | .restEnd chars => IsName chars
  | _ => True

def Opening.Sound : Opening → Prop
  | .group => True
  | .tuple items | .params items => ∀ t ∈ items, Legible t
  | .result args => Callable args

/-- Everything read so far is legible. -/
structure Progress.Sound (p : Progress) : Prop where
  phase : p.phase.Sound
  earlier : ∀ t ∈ p.earlier, Legible t
  stack : ∀ f ∈ p.stack, f.opening.Sound ∧ ∀ t ∈ f.earlier, Legible t

theorem legible_snoc {ts : List Ty} {t : Ty} (each : ∀ u ∈ ts, Legible u) (last : Legible t) :
    ∀ u ∈ ts ++ [t], Legible u := by
  rw [List.forall_mem_append]
  exact ⟨each, by simpa using last⟩

theorem ofMembers_legible {earlier : List Ty} {last : Ty} (each : ∀ t ∈ earlier, Legible t)
    (final : Legible last) : Legible (ofMembers earlier last) := by
  cases earlier with
  | nil => exact final
  | cons t ts => exact .union (by simp) (legible_snoc each final)

theorem beginMember_sound {next : Token} {earlier : List Ty} {stack : List Frame} {q : Progress}
    (word : ∀ chars, next = .name chars → IsName chars) (each : ∀ t ∈ earlier, Legible t)
    (frames : ∀ f ∈ stack, f.opening.Sound ∧ ∀ t ∈ f.earlier, Legible t)
    (begun : beginMember next earlier stack = .ok q) : q.Sound := by
  unfold beginMember at begun
  split at begun <;> cases begun
  · rename_i chars
    refine ⟨.name ?_, each, frames⟩
    rw [String.toList_ofList]
    exact word chars rfl
  · exact ⟨trivial, each, frames⟩
  · exact ⟨trivial, each, frames⟩
  · exact ⟨trivial, nofun, List.forall_mem_cons.mpr ⟨⟨trivial, each⟩, frames⟩⟩

theorem endType_sound {next : Token} {earlier : List Ty} {last : Ty} {stack : List Frame}
    {q : Progress} (each : ∀ t ∈ earlier, Legible t) (final : Legible last)
    (frames : ∀ f ∈ stack, f.opening.Sound ∧ ∀ t ∈ f.earlier, Legible t)
    (ended : endType next earlier last stack = .ok q) : q.Sound := by
  induction stack generalizing earlier last with
  | nil => cases ended
  | cons f stack ih =>
    obtain ⟨opening, outer⟩ := f
    obtain ⟨⟨here, around⟩, below⟩ := List.forall_mem_cons.mp frames
    have whole := ofMembers_legible each final
    cases opening with
    | group =>
      simp only [endType] at ended
      split at ended <;> cases ended
      exact ⟨whole, around, below⟩
    | tuple items =>
      have items' := legible_snoc here whole
      simp only [endType] at ended
      split at ended
      · cases ended
        exact ⟨trivial, nofun, List.forall_mem_cons.mpr ⟨⟨items', around⟩, below⟩⟩
      · split at ended <;> cases ended
        exact ⟨.tuple items', around, below⟩
    | params items =>
      have items' := legible_snoc here whole
      simp only [endType] at ended
      split at ended
      · cases ended
        exact ⟨trivial, nofun, List.forall_mem_cons.mpr ⟨⟨items', around⟩, below⟩⟩
      · split at ended <;> cases ended
        exact ⟨fun _ returned => .function items' returned, around, below⟩
    | result params => exact ih around (here _ whole) below ended

theorem endText_legible {earlier : List Ty} {last t : Ty} {stack : List Frame}
    (each : ∀ t ∈ earlier, Legible t) (final : Legible last)
    (frames : ∀ f ∈ stack, f.opening.Sound ∧ ∀ t ∈ f.earlier, Legible t)
    (ended : endText earlier last stack = .ok t) : Legible t := by
  induction stack generalizing earlier last with
  | nil =>
    cases ended
    exact ofMembers_legible each final
  | cons f stack ih =>
    obtain ⟨opening, outer⟩ := f
    obtain ⟨⟨here, around⟩, below⟩ := List.forall_mem_cons.mp frames
    cases opening with
    | result params => exact ih around (here _ (ofMembers_legible each final)) below ended
    | _ => cases ended

theorem Progress.Sound.step {p q : Progress} {next : Token} (sound : p.Sound)
    (word : ∀ chars, next = .name chars → IsName chars) (stepped : p.step next = .ok q) :
    q.Sound := by
  obtain ⟨phase, earlier, stack⟩ := p
  obtain ⟨here, each, frames⟩ := sound
  have none : ∀ t ∈ ([] : List Ty), Legible t := nofun
  cases phase with
  | member => exact beginMember_sound word each frames stepped
  | itemOrBracket =>
    simp only [Progress.step] at stepped
    split at stepped
    · cases stepped
      exact ⟨.tuple none, each, frames⟩
    · refine beginMember_sound word none ?_ stepped
      exact List.forall_mem_cons.mpr ⟨⟨none, each⟩, frames⟩
  | paren =>
    simp only [Progress.step] at stepped
    split at stepped <;> cases stepped
    exact ⟨trivial, each, frames⟩
  | paramsOrRest =>
    simp only [Progress.step] at stepped
    split at stepped
    · cases stepped
      exact ⟨trivial, each, frames⟩
    · split at stepped
      · cases stepped
        exact ⟨fun _ returned => .function none returned, each, frames⟩
      · refine beginMember_sound word none ?_ stepped
        exact List.forall_mem_cons.mpr ⟨⟨none, each⟩, frames⟩
  | restName =>
    simp only [Progress.step] at stepped
    split at stepped <;> cases stepped
    exact ⟨word _ rfl, each, frames⟩
  | restEnd chars =>
    simp only [Progress.step] at stepped
    split at stepped <;> cases stepped
    exact ⟨fun _ returned => .variadic nofun returned, each, frames⟩
  | colon params =>
    simp only [Progress.step] at stepped
    split at stepped <;> cases stepped
    exact ⟨trivial, nofun, List.forall_mem_cons.mpr ⟨⟨here, each⟩, frames⟩⟩
  | after t =>
    simp only [Progress.step] at stepped
    split at stepped
    · cases stepped
      exact ⟨trivial, legible_snoc each here, frames⟩
    · exact endType_sound each here frames stepped

theorem Progress.Sound.reads {p q : Progress} {ts : List Token} (sound : p.Sound)
    (each : ∀ chars, .name chars ∈ ts → IsName chars) (through : p.reads ts = .ok q) :
    q.Sound := by
  induction ts generalizing p with
  | nil =>
    cases through
    exact sound
  | cons next rest ih =>
    cases stepped : p.step next with
    | error fault => simp [Progress.reads, stepped, bind, Except.bind] at through
    | ok r =>
      rw [Progress.reads_cons stepped] at through
      have further := sound.step (fun chars same => each chars (same ▸ List.mem_cons_self)) stepped
      exact ih further (fun chars h => each chars (List.mem_cons_of_mem _ h)) through

theorem Progress.Sound.finish {p : Progress} {t : Ty} (sound : p.Sound)
    (ended : p.finish = .ok t) : Legible t := by
  obtain ⟨phase, earlier, stack⟩ := p
  cases phase with
  | after last => exact endText_legible sound.earlier sound.phase sound.stack ended
  | _ => cases ended

theorem parse_legible {text : String} {t : Ty} (read : parse text = .ok t) : Legible t := by
  obtain ⟨q, through, ended⟩ := parse_eq_ok_iff.mp read
  have empty : start.Sound := ⟨trivial, nofun, nofun⟩
  exact (empty.reads (fun _ => name_of_mem_words) through).finish ended

end ScriptCheck.Ty
