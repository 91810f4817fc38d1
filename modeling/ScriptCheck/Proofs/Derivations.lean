import ScriptCheck.Proofs.Reading

/-! The grammar of type expressions, by its derivations. A derivation has the words that it derives
and a value, in which grouping leaves no trace. The grammar is ambiguous where a bar follows a
function; derivations in which none does are called greedy, because every function takes as much
into its result as it can. The reader goes through the words of any derivation, and of a greedy one
it gives the value. -/
namespace ScriptCheck.Ty

mutual
/-- `type := member ('|' member)*` -/
inductive Derivation where
  | members (first : Member) (more : List Member)

/-- `member := name | '[' types? ']' | '@' '(' ('...' name | types?) ')' ':' type | '(' type ')'`,
where `types := type (',' type)*` -/
inductive Member where
  | name (chars : List Char)
  | tuple (items : List Derivation)
  | function (params : List Derivation) (result : Derivation)
  | variadic (rest : List Char) (result : Derivation)
  | group (inner : Derivation)
end

mutual
def Derivation.tokens : Derivation → List Token
  | .members first more => first.tokens ++ tokensBarred more

def Member.tokens : Member → List Token
  | .name chars => [.name chars]
  | .tuple items => .mark '[' :: (tokensListed items ++ [.mark ']'])
  | .function params result =>
    .mark '@' :: .mark '(' :: (tokensListed params ++ .mark ')' :: .mark ':' :: result.tokens)
  | .variadic rest result =>
    .mark '@' :: .mark '(' :: .ellipsis :: .name rest :: .mark ')' :: .mark ':' :: result.tokens
  | .group inner => .mark '(' :: (inner.tokens ++ [.mark ')'])

def tokensBarred : List Member → List Token
  | [] => []
  | m :: more => .mark '|' :: (m.tokens ++ tokensBarred more)

def tokensListed : List Derivation → List Token
  | [] => []
  | [d] => d.tokens
  | d :: e :: more => d.tokens ++ .mark ',' :: tokensListed (e :: more)
end

mutual
def Derivation.value : Derivation → Ty
  | .members first more => join (first.value :: valuesOfMembers more)

def Member.value : Member → Ty
  | .name chars => .name (String.ofList chars)
  | .tuple items => .tuple (valuesOf items)
  | .function params result => .function (.tuple (valuesOf params)) result.value
  | .variadic rest result => .function (.name (String.ofList rest)) result.value
  | .group inner => inner.value

def valuesOfMembers : List Member → List Ty
  | [] => []
  | m :: more => m.value :: valuesOfMembers more

def valuesOf : List Derivation → List Ty
  | [] => []
  | d :: more => d.value :: valuesOf more
end

def Member.isFunction : Member → Bool
  | .function .. | .variadic .. => true
  | _ => false

def Derivation.all : Derivation → List Member
  | .members first more => first :: more

mutual
/-- In no type of the derivation does a bar follow a function. -/
inductive Derivation.Greedy : Derivation → Prop where
  | members {first : Member} {more : List Member} (each : ∀ m ∈ first :: more, m.Greedy)
      (last : ∀ m ∈ (first :: more).dropLast, m.isFunction = false) :
      Derivation.Greedy (.members first more)

inductive Member.Greedy : Member → Prop where
  | name (chars : List Char) : Member.Greedy (.name chars)
  | tuple {items : List Derivation} (each : ∀ d ∈ items, d.Greedy) : Member.Greedy (.tuple items)
  | function {params : List Derivation} {result : Derivation} (each : ∀ d ∈ params, d.Greedy)
      (returned : result.Greedy) : Member.Greedy (.function params result)
  | variadic (rest : List Char) {result : Derivation} (returned : result.Greedy) :
      Member.Greedy (.variadic rest result)
  | group {inner : Derivation} (grouped : inner.Greedy) : Member.Greedy (.group inner)
end

theorem tokensListed_eq (ds : List Derivation) :
    tokensListed ds = divided ',' (ds.map Derivation.tokens) := by
  induction ds with
  | nil => rfl
  | cons d ds ih =>
    cases ds with
    | nil => rfl
    | cons e es => simp only [tokensListed, ih, List.map_cons, divided]

theorem Derivation.tokens_eq (d : Derivation) :
    d.tokens = divided '|' (d.all.map Member.tokens) := by
  obtain ⟨first, more⟩ := d
  induction more generalizing first with
  | nil => simp [tokens, tokensBarred, all, divided]
  | cons m more ih =>
    have rest := ih m
    simp only [tokens, all, List.map_cons, tokensBarred, divided] at rest ⊢
    rw [rest]

theorem valuesOfMembers_eq (ms : List Member) : valuesOfMembers ms = ms.map Member.value := by
  induction ms with
  | nil => rfl
  | cons m ms ih => simp only [valuesOfMembers, List.map_cons, ih]

theorem valuesOf_eq (ds : List Derivation) : valuesOf ds = ds.map Derivation.value := by
  induction ds with
  | nil => rfl
  | cons d ds ih => simp only [valuesOf, List.map_cons, ih]

theorem Derivation.value_eq (d : Derivation) : d.value = join (d.all.map Member.value) := by
  obtain ⟨first, more⟩ := d
  simp only [value, valuesOfMembers_eq, all, List.map_cons]

/-! Induction over derivations -/

def Member.parts : Member → List Member
  | .name _ => []
  | .tuple items => items.flatMap Derivation.all
  | .function params result => params.flatMap Derivation.all ++ result.all
  | .variadic _ result => result.all
  | .group inner => inner.all

theorem Derivation.size_all {d : Derivation} {m : Member} (there : m ∈ d.all) :
    sizeOf m < sizeOf d := by
  obtain ⟨first, more⟩ := d
  simp only [all, List.mem_cons] at there
  rcases there with rfl | later
  · simp only [members.sizeOf_spec]
    omega
  · have inside := List.sizeOf_lt_of_mem later
    simp only [members.sizeOf_spec]
    omega

theorem Derivation.size_each {ds : List Derivation} {m : Member}
    (there : m ∈ ds.flatMap Derivation.all) : sizeOf m < sizeOf ds := by
  obtain ⟨d, member, inside⟩ := List.mem_flatMap.mp there
  have smaller := size_all inside
  have whole := List.sizeOf_lt_of_mem member
  omega

theorem Member.size_part {m p : Member} (there : p ∈ m.parts) : sizeOf p < sizeOf m := by
  cases m with
  | name chars => simp [parts] at there
  | tuple items =>
    have inside := Derivation.size_each there
    simp only [tuple.sizeOf_spec]
    omega
  | function params result =>
    simp only [parts, List.mem_append] at there
    simp only [function.sizeOf_spec]
    rcases there with inside | inside
    · have smaller := Derivation.size_each inside
      omega
    · have smaller := Derivation.size_all inside
      omega
  | variadic rest result =>
    have inside := Derivation.size_all there
    simp only [variadic.sizeOf_spec]
    omega
  | group inner =>
    have inside := Derivation.size_all there
    simp only [group.sizeOf_spec]
    omega

theorem Member.induction {motive : Member → Prop}
    (step : ∀ m, (∀ p ∈ m.parts, motive p) → motive m) (m : Member) : motive m :=
  step m fun p there =>
    have : sizeOf p < sizeOf m := size_part there
    Member.induction step p
termination_by sizeOf m

/-! What the reader makes of a derivation -/

mutual
/-- The members that are read where the words of a derivation stand before the members `rest`. A
function takes all of them into its result. -/
def Derivation.spread : Derivation → List Ty → List Ty
  | .members first more, rest => first.spread (spreadMembers more rest)

def Member.spread : Member → List Ty → List Ty
  | .name chars, rest => .name (String.ofList chars) :: rest
  | .tuple items, rest => .tuple (readings items) :: rest
  | .function params result, rest =>
    [.function (.tuple (readings params)) (join (result.spread rest))]
  | .variadic word result, rest =>
    [.function (.name (String.ofList word)) (join (result.spread rest))]
  | .group inner, rest => join (inner.spread []) :: rest

def spreadMembers : List Member → List Ty → List Ty
  | [], rest => rest
  | m :: more, rest => m.spread (spreadMembers more rest)

def readings : List Derivation → List Ty
  | [] => []
  | d :: more => join (d.spread []) :: readings more
end

def Derivation.reading (d : Derivation) : Ty := join (d.spread [])

theorem readings_eq (ds : List Derivation) : readings ds = ds.map Derivation.reading := by
  induction ds with
  | nil => rfl
  | cons d ds ih => simp only [readings, List.map_cons, ih, Derivation.reading]

theorem Derivation.reads_of_all {d : Derivation}
    (each : ∀ m ∈ d.all, Reads m.tokens m.spread) : Reads d.tokens d.spread := by
  obtain ⟨first, more⟩ := d
  induction more generalizing first with
  | nil =>
    have single : (members first []).tokens = first.tokens := by
      simp only [tokens, tokensBarred, List.append_nil]
    rw [single]
    exact each first List.mem_cons_self
  | cons m more ih =>
    obtain ⟨head, tail⟩ := List.forall_mem_cons.mp each
    exact head.bar (ih m tail)

theorem Derivation.reads_of_each {ds : List Derivation}
    (each : ∀ m ∈ ds.flatMap Derivation.all, Reads m.tokens m.spread) :
    ∀ d ∈ ds, Reads d.tokens d.spread := by
  intro d member
  exact reads_of_all fun m inside => each m (List.mem_flatMap.mpr ⟨d, member, inside⟩)

theorem Member.reads (m : Member) : Reads m.tokens m.spread := by
  induction m using Member.induction with
  | step m ih =>
    cases m with
    | name chars => exact Reads.name chars
    | tuple items =>
      intro earlier stack
      have each := Derivation.reads_of_each ih
      refine ⟨earlier, .tuple (readings items), [], ?_, fun rest => rfl⟩
      rw [tokens, tokensListed_eq, Progress.reads_cons rfl, tuple_listing.reads_all each,
        readings_eq]
      rfl
    | function params result =>
      simp only [parts, List.forall_mem_append] at ih
      have each := Derivation.reads_of_each ih.1
      have head (earlier : List Ty) (stack : List Frame) :
          Progress.reads ⟨.member, earlier, stack⟩
            (.mark '@' :: .mark '(' :: (tokensListed params ++ [.mark ')'])) =
          .ok ⟨.colon (.tuple (readings params)), earlier, stack⟩ := by
        rw [Progress.reads_cons rfl, Progress.reads_cons rfl, tokensListed_eq,
          params_listing.reads_all each, readings_eq]
        rfl
      have read := Reads.result head (Derivation.reads_of_all ih.2)
      simpa [tokens, spread] using read
    | variadic rest result =>
      have head (earlier : List Ty) (stack : List Frame) :
          Progress.reads ⟨.member, earlier, stack⟩
            [.mark '@', .mark '(', .ellipsis, .name rest, .mark ')'] =
          .ok ⟨.colon (.name (String.ofList rest)), earlier, stack⟩ := rfl
      exact Reads.result head (Derivation.reads_of_all ih)
    | group inner =>
      intro earlier stack
      have read := Derivation.reads_of_all ih
      refine ⟨earlier, inner.reading, [], ?_, fun rest => rfl⟩
      have close : Token.mark ')' ≠ .mark '|' := by decide
      obtain ⟨before, last, same, through⟩ := read.ended ⟨.group, earlier⟩ stack close []
      rw [tokens, Progress.reads_cons rfl, through, Derivation.reading, same, ← ofMembers_eq]
      rfl

theorem Derivation.reads (d : Derivation) : Reads d.tokens d.spread :=
  reads_of_all fun m _ => m.reads

structure Member.Settled (m : Member) : Prop where
  alone : m.spread [] = [m.value]
  before : m.isFunction = false → ∀ rest, m.spread rest = m.value :: rest

theorem Derivation.spread_of_settled {d : Derivation} (each : ∀ m ∈ d.all, m.Settled)
    (last : ∀ m ∈ d.all.dropLast, m.isFunction = false) : d.spread [] = d.all.map Member.value := by
  obtain ⟨first, more⟩ := d
  induction more generalizing first with
  | nil => exact (each first List.mem_cons_self).alone
  | cons m more ih =>
    obtain ⟨head, tail⟩ := List.forall_mem_cons.mp each
    obtain ⟨plain, later⟩ := List.forall_mem_cons.mp last
    have rest : m.spread (spreadMembers more []) = (m :: more).map Member.value := ih m tail later
    simp only [spread, spreadMembers, rest, head.before plain, all, List.map_cons]

theorem Derivation.reading_of_settled {d : Derivation} (greedy : d.Greedy)
    (settled : ∀ m ∈ d.all, m.Greedy → m.Settled) : d.reading = d.value := by
  cases greedy with
  | members each last =>
    rw [reading, spread_of_settled (fun m h => settled m h (each m h)) last, value_eq]

theorem readings_of_settled {ds : List Derivation} (greedy : ∀ d ∈ ds, d.Greedy)
    (settled : ∀ m ∈ ds.flatMap Derivation.all, m.Greedy → m.Settled) :
    readings ds = valuesOf ds := by
  rw [readings_eq, valuesOf_eq]
  apply List.map_congr_left
  intro d member
  exact Derivation.reading_of_settled (greedy d member) fun m inside =>
    settled m (List.mem_flatMap.mpr ⟨d, member, inside⟩)

theorem Member.settled {m : Member} (greedy : m.Greedy) : m.Settled := by
  induction m using Member.induction with
  | step m ih =>
    cases greedy with
    | name chars => exact ⟨rfl, fun _ _ => rfl⟩
    | tuple each =>
      have items := readings_of_settled each ih
      exact ⟨by simp only [spread, value, items], fun _ _ => by simp only [spread, value, items]⟩
    | function each returned =>
      simp only [parts, List.forall_mem_append] at ih
      have params := readings_of_settled each ih.1
      have result := Derivation.reading_of_settled returned ih.2
      rw [Derivation.reading] at result
      exact ⟨by simp only [spread, value, params, result], nofun⟩
    | variadic rest returned =>
      have result := Derivation.reading_of_settled returned ih
      rw [Derivation.reading] at result
      exact ⟨by simp only [spread, value, result], nofun⟩
    | group grouped =>
      have inner := Derivation.reading_of_settled grouped ih
      rw [Derivation.reading] at inner
      exact ⟨by simp only [spread, value, inner], fun _ _ => by simp only [spread, value, inner]⟩

theorem Derivation.reading_of_greedy {d : Derivation} (greedy : d.Greedy) : d.reading = d.value :=
  reading_of_settled greedy fun _ _ => Member.settled

theorem parse_of_derivation {d : Derivation} {s : String} (spelled : Spells d.tokens s.toList) :
    parse s = .ok d.reading := d.reads.parse spelled.words

end ScriptCheck.Ty
