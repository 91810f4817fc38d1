import ScriptCheck.Ty.Reader
import ScriptCheck.Proofs.Words

/-! What a printed type means. No grouping is printed, so a function in the middle of a union takes
the members behind it, a union in a union loses its bounds, and parameters that are no tuple are
all alike. Types that none of this happens to are representable; every other type that can be read
at all is printed like one of them, its canonical form. -/
namespace ScriptCheck.Ty

def isUnion : Ty → Bool
  | .union _ => true
  | _ => false

/-- Good names, flat unions of several members with a function only at the end, and parameters that
are a tuple or `any`. -/
inductive Representable : Ty → Prop where
  | name {n : String} (name : IsName n.toList) : Representable (.name n)
  | tuple {items : List Ty} (each : ∀ t ∈ items, Representable t) : Representable (.tuple items)
  | union {members : List Ty} (several : 2 ≤ members.length)
      (flat : ∀ m ∈ members, m.isUnion = false)
      (last : ∀ m ∈ members.dropLast, m.isFunction = false)
      (each : ∀ m ∈ members, Representable m) : Representable (.union members)
  | function {params result : Ty} (written : (∃ items, params = .tuple items) ∨ params = .any)
      (args : Representable params) (returned : Representable result) :
      Representable (.function params result)

/-- Types whose text can be read: good names, and something in every union. -/
inductive Legible : Ty → Prop where
  | name {n : String} (name : IsName n.toList) : Legible (.name n)
  | tuple {items : List Ty} (each : ∀ t ∈ items, Legible t) : Legible (.tuple items)
  | union {members : List Ty} (some : members ≠ []) (each : ∀ m ∈ members, Legible m) :
      Legible (.union members)
  | function {params : List Ty} {result : Ty} (each : ∀ t ∈ params, Legible t)
      (returned : Legible result) : Legible (.function (.tuple params) result)
  | variadic {params result : Ty} (other : ∀ items, params ≠ .tuple items)
      (returned : Legible result) : Legible (.function params result)

theorem Representable.legible {t : Ty} (h : Representable t) : Legible t := by
  induction h with
  | name good => exact .name good
  | tuple _ each => exact .tuple each
  | @union members several _ _ _ each =>
    refine .union ?_ each
    rintro rfl
    simp at several
  | function written _ _ args returned =>
    rcases written with ⟨items, rfl⟩ | rfl
    · cases args with
      | tuple each => exact .function each returned
    · exact .variadic (fun items same => by cases same) returned

def join : List Ty → Ty
  | [t] => t
  | ts => .union ts

theorem ofMembers_eq (earlier : List Ty) (last : Ty) :
    ofMembers earlier last = join (earlier ++ [last]) := by
  cases earlier with
  | nil => rfl
  | cons t ts => cases ts <;> rfl

mutual
/-- The members that are read where `t` stands before the members `rest`. A function takes all of
them into its result. -/
def spread : Ty → List Ty → List Ty
  | .name n, rest => .name n :: rest
  | .tuple items, rest => .tuple (canonAll items) :: rest
  | .union members, rest => spreadAll members rest
  | .function (.tuple params) result, rest =>
    [.function (.tuple (canonAll params)) (join (spread result rest))]
  | .function _ result, rest => [.function .any (join (spread result rest))]

def spreadAll : List Ty → List Ty → List Ty
  | [], rest => rest
  | t :: ts, rest => spread t (spreadAll ts rest)

def canonAll : List Ty → List Ty
  | [] => []
  | t :: ts => join (spread t []) :: canonAll ts
end

/-- The type that the text of `t` denotes. -/
def canon (t : Ty) : Ty := join (spread t [])

example : canon (.union [.signature [] .num, .union [.str]]) =
    .signature [] (.union [.num, .str]) := rfl

theorem canonAll_eq (ts : List Ty) : canonAll ts = ts.map canon := by
  induction ts with
  | nil => rfl
  | cons t ts ih => simp only [canonAll, List.map_cons, ih, canon]

theorem spread_variadic {params : Ty} (other : ∀ items, params ≠ .tuple items) (result : Ty)
    (rest : List Ty) :
    spread (.function params result) rest = [.function .any (join (spread result rest))] := by
  cases params with
  | tuple items => exact absurd rfl (other items)
  | _ => rfl

structure Row (ms : List Ty) : Prop where
  each : ∀ m ∈ ms, Representable m
  flat : ∀ m ∈ ms, m.isUnion = false
  last : ∀ m ∈ ms.dropLast, m.isFunction = false

namespace Row

theorem nil : Row [] := ⟨nofun, nofun, nofun⟩

theorem single {t : Ty} (member : Representable t) (flat : t.isUnion = false) : Row [t] :=
  ⟨by simpa using member, by simpa using flat, nofun⟩

theorem cons {t : Ty} {ms : List Ty} (member : Representable t) (flat : t.isUnion = false)
    (plain : t.isFunction = false) (row : Row ms) : Row (t :: ms) := by
  refine ⟨List.forall_mem_cons.mpr ⟨member, row.each⟩,
    List.forall_mem_cons.mpr ⟨flat, row.flat⟩, ?_⟩
  cases ms with
  | nil => exact nofun
  | cons u us => exact List.forall_mem_cons.mpr ⟨plain, row.last⟩

theorem join {ms : List Ty} (row : Row ms) (some : ms ≠ []) : Representable (Ty.join ms) := by
  match ms, some with
  | [t], _ => exact row.each t List.mem_cons_self
  | t :: u :: us, _ => exact .union (by simp) row.flat row.last row.each

end Row

def Lines (t : Ty) : Prop := ∀ rest, Row rest → spread t rest ≠ [] ∧ Row (spread t rest)

theorem tuple_of_lines {ts : List Ty} (each : ∀ t ∈ ts, Lines t) :
    Representable (.tuple (canonAll ts)) := by
  rw [canonAll_eq]
  refine .tuple fun u member => ?_
  obtain ⟨t, there, rfl⟩ := List.mem_map.mp member
  obtain ⟨some, row⟩ := each t there [] .nil
  exact row.join some

theorem spreadAll_row {ts : List Ty} (each : ∀ t ∈ ts, Lines t) {rest : List Ty} (row : Row rest) :
    Row (spreadAll ts rest) := by
  induction ts with
  | nil => exact row
  | cons t ts ih =>
    have tail := ih fun m h => each m (List.mem_cons_of_mem _ h)
    exact (each t List.mem_cons_self _ tail).2

theorem Legible.lines {t : Ty} (legible : Legible t) : Lines t := by
  induction legible with
  | name good =>
    intro rest row
    exact ⟨by simp [spread], .cons (.name good) rfl rfl row⟩
  | tuple _ each =>
    intro rest row
    exact ⟨by simp [spread], .cons (tuple_of_lines each) rfl rfl row⟩
  | @union members some _ each =>
    intro rest row
    cases members with
    | nil => exact absurd rfl some
    | cons t ts =>
      have tail := spreadAll_row (fun m h => each m (List.mem_cons_of_mem _ h)) row
      exact each t List.mem_cons_self _ tail
  | function _ _ each returned =>
    intro rest row
    obtain ⟨some, inner⟩ := returned rest row
    refine ⟨by simp [spread], .single ?_ rfl⟩
    exact .function (.inl ⟨_, rfl⟩) (tuple_of_lines each) (inner.join some)
  | variadic other _ returned =>
    intro rest row
    obtain ⟨some, inner⟩ := returned rest row
    rw [spread_variadic other]
    refine ⟨by simp, .single ?_ rfl⟩
    exact .function (.inr rfl) (.name isName_any) (inner.join some)

theorem Legible.canon_representable {t : Ty} (legible : Legible t) : Representable (canon t) := by
  obtain ⟨some, row⟩ := legible.lines [] .nil
  exact row.join some

structure Fixed (t : Ty) : Prop where
  alone : t.isUnion = false → spread t [] = [t]
  before : t.isUnion = false → t.isFunction = false → ∀ rest, spread t rest = t :: rest
  canon : canon t = t

theorem canonAll_of_fixed {ts : List Ty} (each : ∀ t ∈ ts, Fixed t) : canonAll ts = ts := by
  induction ts with
  | nil => rfl
  | cons t ts ih =>
    obtain ⟨head, tail⟩ := List.forall_mem_cons.mp each
    have same : join (spread t []) = t := head.canon
    rw [canonAll, same, ih tail]

theorem spreadAll_of_fixed {ms : List Ty} (each : ∀ m ∈ ms, Fixed m)
    (flat : ∀ m ∈ ms, m.isUnion = false) (last : ∀ m ∈ ms.dropLast, m.isFunction = false) :
    spreadAll ms [] = ms := by
  induction ms with
  | nil => rfl
  | cons t ts ih =>
    obtain ⟨head, tail⟩ := List.forall_mem_cons.mp each
    obtain ⟨flatHead, flatTail⟩ := List.forall_mem_cons.mp flat
    cases ts with
    | nil => exact head.alone flatHead
    | cons u us =>
      obtain ⟨plain, later⟩ := List.forall_mem_cons.mp last
      rw [spreadAll, ih tail flatTail later]
      exact head.before flatHead plain _

theorem Representable.fixed {t : Ty} (h : Representable t) : Fixed t := by
  induction h with
  | name _ => exact ⟨fun _ => rfl, fun _ _ _ => rfl, rfl⟩
  | tuple _ each =>
    have same := canonAll_of_fixed each
    refine ⟨fun _ => ?_, fun _ _ rest => ?_, ?_⟩ <;> simp only [canon, spread, same, join]
  | @union members several flat last _ each =>
    refine ⟨nofun, nofun, ?_⟩
    rw [canon, spread, spreadAll_of_fixed each flat last]
    match members, several with
    | t :: u :: us, _ => rfl
  | @function params result written _ _ args returned =>
    have shown : spread (.function params result) [] = [.function params result] := by
      rcases written with ⟨items, rfl⟩ | rfl
      · have same : Ty.tuple (canonAll items) = .tuple items := args.canon
        have inner : join (spread result []) = result := returned.canon
        rw [spread, same, inner]
      · have inner : join (spread result []) = result := returned.canon
        simp only [any, spread, inner]
    exact ⟨fun _ => shown, nofun, by rw [canon, shown, join]⟩

end ScriptCheck.Ty
