import ScriptCheck.Proofs.Compatibility

/-! What types stand for. A type is read as a set of values, and a type that accepts another one
holds all its values, unless the other one holds too many of them: `any` is accepted everywhere
although it holds every value. -/
namespace ScriptCheck

open List (Forall₂)

inductive Value where
  | name (text : String)
  | tuple (items : List Value)
  | function (arg result : Value)

namespace Ty

/-- The values of a type. A name stands for one value and `any` for all of them; parameters and
result of a function are read alike. -/
inductive Has : Ty → Value → Prop where
  | any (v : Value) : Has .any v
  | name (n : String) : Has (.name n) (.name n)
  | tuple {ts : List Ty} {vs : List Value} (each : Forall₂ Has ts vs) :
      Has (.tuple ts) (.tuple vs)
  | union {t : Ty} {ts : List Ty} {v : Value} (member : t ∈ ts) (has : Has t v) :
      Has (.union ts) v
  | function {p r : Ty} {a b : Value} (arg : Has p a) (result : Has r b) :
      Has (.function p r) (.function a b)

/-- Nowhere in the type does `any` occur. -/
inductive Definite : Ty → Prop where
  | name {n : String} (known : n ≠ "any") : Definite (.name n)
  | tuple {ts : List Ty} (each : ∀ t ∈ ts, Definite t) : Definite (.tuple ts)
  | union {ts : List Ty} (each : ∀ t ∈ ts, Definite t) : Definite (.union ts)
  | function {p r : Ty} (params : Definite p) (result : Definite r) : Definite (.function p r)

@[simp] theorem definite_name_iff {n : String} : Definite (.name n) ↔ n ≠ "any" := by
  constructor
  · rintro ⟨known⟩
    exact known
  · exact .name

@[simp] theorem definite_tuple_iff {ts : List Ty} :
    Definite (.tuple ts) ↔ ∀ t ∈ ts, Definite t := by
  constructor
  · rintro ⟨⟩
    assumption
  · exact .tuple

@[simp] theorem definite_union_iff {ts : List Ty} :
    Definite (.union ts) ↔ ∀ t ∈ ts, Definite t := by
  constructor
  · rintro ⟨⟩
    assumption
  · exact .union

@[simp] theorem definite_function_iff {p r : Ty} :
    Definite (.function p r) ↔ Definite p ∧ Definite r := by
  constructor
  · rintro ⟨⟩
    constructor <;> assumption
  · exact fun ⟨params, result⟩ => .function params result

theorem Definite.ne_any {t : Ty} (definite : Definite t) : t ≠ .any := by
  rintro rfl
  cases definite with
  | name known => exact known rfl

theorem induction_of_accepts {motive : Ty → Ty → Prop} (unknown : ∀ a, motive .any a)
    (name : ∀ n, motive (.name n) (.name n))
    (tuple : ∀ es as, Forall₂ motive es as → motive (.tuple es) (.tuple as))
    (unions : ∀ es as, as.length ≤ es.length → (∀ a ∈ as, ∃ e ∈ es, motive e a) →
      motive (.union es) (.union as))
    (member : ∀ es a, Definite a → (∀ as, a ≠ .union as) → (∃ e ∈ es, motive e a) →
      motive (.union es) a)
    (function : ∀ p r q s, motive p q → motive r s → motive (.function p r) (.function q s))
    {expected actual : Ty} (definite : Definite actual) (accepted : expected.accepts actual) :
    motive expected actual := by
  induction expected using Ty.induction generalizing actual with
  | name n =>
    rcases accepts_name_iff.mp accepted with rfl | impossible | rfl
    · exact unknown actual
    · exact absurd impossible definite.ne_any
    · exact name n
  | tuple items each =>
    rcases accepts_tuple_iff.mp accepted with impossible | ⟨as, rfl, pairs⟩
    · exact absurd impossible definite.ne_any
    · cases definite with
      | tuple known =>
        apply tuple
        exact forall₂_of_mem pairs fun e here a there fits => each e here (known a there) fits
  | union members each =>
    rcases accepts_union_iff.mp accepted with
      impossible | ⟨as, rfl, fewer, found⟩ | ⟨single, e, listed, fits⟩
    · exact absurd impossible definite.ne_any
    · cases definite with
      | union known =>
        apply unions members as fewer
        intro a there
        obtain ⟨e, here, fits⟩ := found a there
        exact ⟨e, here, each e here (known a there) fits⟩
    · exact member members actual definite single ⟨e, listed, each e listed definite fits⟩
  | function params result first second =>
    rcases accepts_function_iff.mp accepted with impossible | ⟨ps, r, rfl, fits, returned⟩
    · exact absurd impossible definite.ne_any
    · cases definite with
      | function known returns =>
        exact function _ _ _ _ (first known fits) (second returns returned)

def Covers (expected actual : Ty) : Prop := ∀ v, actual.Has v → expected.Has v

theorem Covers.unknown (a : Ty) : Covers .any a := fun v _ => .any v

theorem Covers.tuple {es as : List Ty} (each : Forall₂ Covers es as) :
    Covers (.tuple es) (.tuple as) := by
  intro v has
  cases has with
  | tuple items => exact .tuple (forall₂_chain each items)

theorem Covers.function {p r q s : Ty} (params : Covers p q) (result : Covers r s) :
    Covers (.function p r) (.function q s) := by
  intro v has
  cases has with
  | function arg returned => exact .function (params _ arg) (result _ returned)

theorem Covers.member {a : Ty} {es : List Ty} (found : ∃ e ∈ es, Covers e a) :
    Covers (.union es) a := by
  obtain ⟨e, member, covers⟩ := found
  exact fun v has => .union member (covers v has)

theorem Covers.union {e : Ty} {as : List Ty} (each : ∀ a ∈ as, Covers e a) :
    Covers e (.union as) := by
  intro v has
  cases has with
  | union member inside => exact each _ member v inside

theorem covers_of_accepts {expected actual : Ty} (definite : Definite actual)
    (accepted : expected.accepts actual) : Covers expected actual := by
  refine induction_of_accepts Covers.unknown ?_ ?_ ?_ ?_ ?_ definite accepted
  · exact fun n v has => has
  · exact fun es as each => .tuple each
  · exact fun es as _ found => .union fun a listed => .member (found a listed)
  · exact fun es a _ _ found => .member found
  · exact fun p r q s params result => .function params result

/-- Where a comparison finds nothing wrong, every value of the actual type is one of the expected
type, if all is known of the actual type. -/
theorem values_of_compatible (expected actual : Ty) (definite : Definite actual)
    (compatible : mismatches expected actual = []) : ∀ v, actual.Has v → expected.Has v :=
  covers_of_accepts definite (accepts_iff.mpr compatible)

theorem values_of_compatible_nested :
    let inner : Ty := .union [.str, .union [.num]]
    let actual : Ty := .union [.tuple [.num, inner], .signature [.str] .num]
    let expected : Ty :=
      .union [.signature [.any] (.union [.num]), .tuple [.union [.str, .num], inner]]
    let pair : Value := .tuple [.name "num", .name "num"]
    Definite actual ∧ mismatches expected actual = [] ∧ actual.Has pair ∧ expected.Has pair := by
  intro inner actual expected pair
  have num : Definite .num := .name (by decide)
  have str : Definite .str := .name (by decide)
  have deep : Definite inner := by
    refine .union (List.forall_mem_cons.mpr ⟨str, List.forall_mem_singleton.mpr ?_⟩)
    exact .union (List.forall_mem_singleton.mpr num)
  have definite : Definite actual := by
    refine .union (List.forall_mem_cons.mpr ⟨.tuple ?_, List.forall_mem_singleton.mpr ?_⟩)
    · exact List.forall_mem_cons.mpr ⟨num, List.forall_mem_singleton.mpr deep⟩
    · exact .function (.tuple (List.forall_mem_singleton.mpr str)) num
  have compatible : mismatches expected actual = [] := by decide +kernel
  have has : actual.Has pair := by
    refine .union List.mem_cons_self (.tuple (.cons (.name "num") (.cons ?_ .nil)))
    exact .union (by simp : Ty.union [.num] ∈ _) (.union List.mem_cons_self (.name "num"))
  have held := values_of_compatible expected actual definite compatible pair has
  exact ⟨definite, compatible, has, held⟩

end Ty
end ScriptCheck
