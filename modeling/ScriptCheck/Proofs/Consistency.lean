import Mathlib.Data.List.Perm.Subperm
import ScriptCheck.Proofs.Inhabitants
import ScriptCheck.Proofs.Precision

/-! Types without unions. Two of them are compatible exactly if they can be completed to the same
type, by putting types in place of every `any`; so the order in which they are compared does not
matter, and if nothing is unknown to begin with they have to be equal. Among the members of unions
equality is all that is left of compatibility, and counting members first then rejects nothing that
looking them up would find. -/
namespace ScriptCheck.Ty

open List (Forall₂)

/-- Nowhere in the type does a union occur. -/
inductive UnionFree : Ty → Prop where
  | name (n : String) : UnionFree (.name n)
  | tuple {ts : List Ty} (each : ∀ t ∈ ts, UnionFree t) : UnionFree (.tuple ts)
  | function {p r : Ty} (params : UnionFree p) (result : UnionFree r) : UnionFree (.function p r)

@[simp] theorem unionFree_name (n : String) : UnionFree (.name n) := .name n

@[simp] theorem unionFree_tuple_iff {ts : List Ty} :
    UnionFree (.tuple ts) ↔ ∀ t ∈ ts, UnionFree t := by
  constructor
  · rintro ⟨⟩
    assumption
  · exact .tuple

@[simp] theorem unionFree_function_iff {p r : Ty} :
    UnionFree (.function p r) ↔ UnionFree p ∧ UnionFree r := by
  constructor
  · rintro ⟨⟩
    constructor <;> assumption
  · exact fun ⟨params, result⟩ => .function params result

@[mk_iff]
structure Ground (t : Ty) : Prop where
  unionFree : UnionFree t
  definite : Definite t

theorem Ground.tuple {ts : List Ty} (each : ∀ t ∈ ts, Ground t) : Ground (.tuple ts) where
  unionFree := .tuple fun t item => (each t item).unionFree
  definite := .tuple fun t item => (each t item).definite

theorem Ground.function {p r : Ty} (params : Ground p) (result : Ground r) :
    Ground (.function p r) where
  unionFree := .function params.unionFree result.unionFree
  definite := .function params.definite result.definite

/-! Completions -/

mutual
/-- The type with `part` in place of every `any`. -/
def fill (part : Ty) : Ty → Ty
  | .name n => if n = "any" then part else .name n
  | .tuple items => .tuple (fillAll part items)
  | .union members => .union (fillAll part members)
  | .function params result => .function (fill part params) (fill part result)

def fillAll (part : Ty) : List Ty → List Ty
  | [] => []
  | t :: ts => fill part t :: fillAll part ts
end

theorem fillAll_eq (part : Ty) (ts : List Ty) : fillAll part ts = ts.map (fill part) := by
  induction ts with
  | nil => rfl
  | cons t ts ih => rw [fillAll, ih, List.map_cons]

mutual
theorem coarser_fill (part : Ty) : (t : Ty) → Coarser t (fill part t)
  | .name n => by
    unfold fill
    split
    · subst n
      exact .any part
    · exact .name n
  | .tuple items => .tuple (coarser_fillAll part items)
  | .union members => .union (coarser_fillAll part members)
  | .function params result => .function (coarser_fill part params) (coarser_fill part result)

theorem coarser_fillAll (part : Ty) : (ts : List Ty) → Forall₂ Coarser ts (fillAll part ts)
  | [] => .nil
  | t :: ts => .cons (coarser_fill part t) (coarser_fillAll part ts)
end

theorem Definite.fill {part : Ty} (known : Definite part) (t : Ty) : Definite (fill part t) := by
  induction t using Ty.induction with
  | name n =>
    unfold Ty.fill
    split
    · exact known
    · exact .name ‹_›
  | tuple items each =>
    rw [Ty.fill, fillAll_eq]
    exact .tuple (List.forall_mem_map.mpr each)
  | union members each =>
    rw [Ty.fill, fillAll_eq]
    exact .union (List.forall_mem_map.mpr each)
  | function params result first second => exact .function first second

theorem UnionFree.fill {part t : Ty} (single : UnionFree part) (free : UnionFree t) :
    UnionFree (fill part t) := by
  induction free with
  | name n =>
    unfold Ty.fill
    split
    · exact single
    · exact .name n
  | tuple _ each =>
    rw [Ty.fill, fillAll_eq]
    exact .tuple (List.forall_mem_map.mpr each)
  | function _ _ first second => exact .function first second

theorem definite_num : Definite num := .name (by decide)

theorem UnionFree.ground {t : Ty} (free : UnionFree t) : Ground (Ty.fill num t) where
  unionFree := .fill (.name _) free
  definite := definite_num.fill t

/-! Consistency -/

/-- Both types can be completed to the same type without unions, putting some type in place of each
`any`. -/
def Consistent (expected actual : Ty) : Prop :=
  ∃ t, Ground t ∧ Coarser expected t ∧ Coarser actual t

theorem Consistent.unknown {t : Ty} (free : UnionFree t) : Consistent .any t :=
  ⟨fill num t, free.ground, .any _, coarser_fill num t⟩

theorem Consistent.refl {t : Ty} (free : UnionFree t) : Consistent t t :=
  ⟨fill num t, free.ground, coarser_fill num t, coarser_fill num t⟩

theorem Consistent.symm {e a : Ty} : Consistent e a → Consistent a e
  | ⟨t, ground, left, right⟩ => ⟨t, ground, right, left⟩

theorem Consistent.tuple {es as : List Ty} (each : Forall₂ Consistent es as) :
    Consistent (.tuple es) (.tuple as) := by
  have common : ∃ ts, (∀ t ∈ ts, Ground t) ∧ Forall₂ Coarser es ts ∧ Forall₂ Coarser as ts := by
    induction each with
    | nil => exact ⟨[], by simp, .nil, .nil⟩
    | cons head _ ih =>
      obtain ⟨t, ground, left, right⟩ := head
      obtain ⟨ts, grounds, lefts, rights⟩ := ih
      exact ⟨t :: ts, List.forall_mem_cons.mpr ⟨ground, grounds⟩, .cons left lefts,
        .cons right rights⟩
  obtain ⟨ts, grounds, left, right⟩ := common
  exact ⟨.tuple ts, .tuple grounds, .tuple left, .tuple right⟩

theorem Consistent.function {p q r s : Ty} (params : Consistent p q) (result : Consistent r s) :
    Consistent (.function p r) (.function q s) := by
  obtain ⟨t, ground, left, right⟩ := params
  obtain ⟨u, ground', left', right'⟩ := result
  exact ⟨.function t u, .function ground ground', .function left left', .function right right'⟩

theorem consistent_of_accepts {e a : Ty} (freeE : UnionFree e) (freeA : UnionFree a)
    (accepted : e.accepts a) : Consistent e a := by
  induction freeE generalizing a with
  | name n =>
    rcases accepts_name_iff.mp accepted with rfl | rfl | rfl
    · exact .unknown freeA
    · exact .symm (.unknown (.name n))
    · exact .refl freeA
  | @tuple items free each =>
    rcases accepts_tuple_iff.mp accepted with rfl | ⟨as, rfl, pairs⟩
    · exact .symm (.unknown (.tuple free))
    · cases freeA with
      | tuple freeAs =>
        apply Consistent.tuple
        exact forall₂_of_mem pairs fun e here a there fits => each e here (freeAs a there) fits
  | function params result first second =>
    rcases accepts_function_iff.mp accepted with rfl | ⟨ps, r, rfl, fits, returned⟩
    · exact .symm (.unknown (.function params result))
    · cases freeA with
      | function freeP freeR => exact .function (first freeP fits) (second freeR returned)

theorem length_pairwise_comm {es as : List Ty} (each : ∀ e ∈ es, ∀ a ∈ as,
    (mismatches e a).length = (mismatches a e).length) :
    (pairwise es as).length = (pairwise as es).length := by
  induction es generalizing as with
  | nil => cases as <;> simp [pairwise]
  | cons e es ih =>
    cases as with
    | nil => simp [pairwise]
    | cons a as =>
      have head := each e List.mem_cons_self a List.mem_cons_self
      have tail := ih fun e' inE a' inA =>
        each e' (List.mem_cons_of_mem e inE) a' (List.mem_cons_of_mem a inA)
      simp only [pairwise, List.length_append, head, tail]

theorem length_mismatches_comm {e a : Ty} (freeE : UnionFree e) (freeA : UnionFree a) :
    (mismatches e a).length = (mismatches a e).length := by
  induction freeE generalizing a with
  | name n =>
    cases freeA with
    | name m =>
      by_cases same : n = m
      · rw [same]
      · simp [mismatches, isAny, same, Ne.symm same, or_comm, apply_ite List.length]
    | _ => by_cases known : n = "any" <;> simp [mismatches, isAny, known]
  | @tuple ts _ each =>
    cases freeA with
    | name m => by_cases known : m = "any" <;> simp [mismatches, isAny, known]
    | tuple freeAs =>
      -- a wrong count is one reason in either order, and does not keep items from being compared
      have items := length_pairwise_comm fun e inE a inA => each e inE (freeAs a inA)
      simp [mismatches, isAny, items, eq_comm (a := ts.length), apply_ite List.length]
    | function => simp [mismatches, isAny]
  | function _ _ first second =>
    cases freeA with
    | name m => by_cases known : m = "any" <;> simp [mismatches, isAny, known]
    | tuple => simp [mismatches, isAny]
    | function freeP freeR => simp [mismatches, isAny, first freeP, second freeR]

/-- Without unions, a comparison finds nothing wrong exactly if the two types can be completed to
the same type, and in either order it finds as many things wrong. -/
theorem compatible_iff_consistent (e a : Ty) (freeE : UnionFree e) (freeA : UnionFree a) :
    (mismatches e a = [] ↔ ∃ t, Ground t ∧ Coarser e t ∧ Coarser a t) ∧
    (mismatches e a).length = (mismatches a e).length := by
  refine ⟨⟨?_, ?_⟩, length_mismatches_comm freeE freeA⟩
  · intro compatible
    exact consistent_of_accepts freeE freeA (accepts_iff.mpr compatible)
  · rintro ⟨t, _, left, right⟩
    exact mismatches_of_coarser left right

/-- Unknown parameters on one side, unknown parts of the result on either. -/
theorem compatible_iff_consistent_callback :
    let e : Ty := .variadic (.tuple [.any, .num])
    let a : Ty := .signature [.str, .any] (.tuple [.variadic .bool, .any])
    UnionFree e ∧ UnionFree a ∧ mismatches e a = [] ∧
      (∃ t, Ground t ∧ Coarser e t ∧ Coarser a t) ∧
      (mismatches e a).length = (mismatches a e).length := by
  intro e a
  have freeE : UnionFree e := by simp [e, variadic, any, num]
  have freeA : UnionFree a := by simp [a, signature, variadic, any, str, bool]
  have compatible : mismatches e a = [] := by decide +kernel
  have both := compatible_iff_consistent e a freeE freeA
  exact ⟨freeE, freeA, compatible, both.1.mp compatible, both.2⟩

/-! Members of unions -/

theorem eq_of_each_coarser {ts us : List Ty} (each : ∀ t ∈ ts, ∀ {u}, Coarser t u → t = u)
    (pairs : Forall₂ Coarser ts us) : ts = us := by
  have same : Forall₂ Eq ts us := forall₂_of_mem pairs fun t here u _ less => each t here less
  rwa [List.forall₂_eq_eq_eq] at same

theorem Coarser.eq_of_definite {t u : Ty} (less : Coarser t u) (definite : Definite t) : t = u := by
  induction definite generalizing u with
  | name known =>
    cases less with
    | any => exact absurd rfl known
    | name => rfl
  | tuple _ each =>
    cases less with
    | tuple items => rw [eq_of_each_coarser each items]
  | union _ each =>
    cases less with
    | union members => rw [eq_of_each_coarser each members]
  | function _ _ first second =>
    cases less with
    | function params result => rw [first params, second result]

theorem Ground.accepts_iff_eq {e a : Ty} (groundE : Ground e) (groundA : Ground a) :
    e.accepts a ↔ e = a := by
  constructor
  · intro accepted
    obtain ⟨t, _, left, right⟩ :=
      consistent_of_accepts groundE.unionFree groundA.unionFree accepted
    exact (left.eq_of_definite groundE.definite).trans
      (right.eq_of_definite groundA.definite).symm
  · rintro rfl
    exact accepts_iff.mpr (mismatches_of_coarser (.refl e) (.refl e))

theorem Ground.found_iff_mem {es : List Ty} {a : Ty} (groundE : ∀ e ∈ es, Ground e)
    (groundA : Ground a) : (∃ e ∈ es, e.accepts a) ↔ a ∈ es := by
  constructor
  · rintro ⟨e, member, accepted⟩
    rwa [← ((groundE e member).accepts_iff_eq groundA).mp accepted]
  · intro member
    exact ⟨a, member, (groundA.accepts_iff_eq groundA).mpr rfl⟩

/-- Counting the members of a union first rejects no union that is a part of the expected one: if
members are different from each other, and neither unions nor `any` occur in them, then there is
nothing wrong exactly if they are all expected, and among too many of them one is not. -/
theorem union_compatible_iff_subset (es as : List Ty) (groundE : ∀ e ∈ es, Ground e)
    (groundA : ∀ a ∈ as, Ground a) (distinct : as.Nodup) :
    (mismatches (.union es) (.union as) = [] ↔ ∀ a ∈ as, a ∈ es) ∧
    (es.length < as.length →
      mismatches (.union es) (.union as) = [.moreMembers (.union as) (.union es)] ∧
      ∃ a ∈ as, a ∉ es) := by
  have found : ∀ a ∈ as, (∃ e ∈ es, e.accepts a) ↔ a ∈ es := fun a listed =>
    Ground.found_iff_mem groundE (groundA a listed)
  refine ⟨⟨?_, ?_⟩, fun longer => ⟨?_, ?_⟩⟩
  · intro compatible a listed
    obtain ⟨_, each⟩ := accepts_unions_iff.mp (accepts_iff.mpr compatible)
    exact (found a listed).mp (each a listed)
  · intro expected
    have fits : as.length ≤ es.length := (distinct.subperm expected).length_le
    apply accepts_iff.mp
    exact accepts_unions_iff.mpr ⟨fits, fun a listed => (found a listed).mpr (expected a listed)⟩
  · simp [mismatches, isAny, longer]
  · by_contra expected
    push Not at expected
    have fits : as.length ≤ es.length := (distinct.subperm expected).length_le
    omega

/-- The first two members are the last two of the other union; a third one is too many. -/
theorem union_compatible_iff_subset_pairs :
    let pair : Ty := .tuple [.num, .str]
    let wide : List Ty := [.null, .signature [.num] .bool, pair]
    let narrow : List Ty := [pair, .signature [.num] .bool]
    (∀ t ∈ wide, Ground t) ∧ (∀ t ∈ narrow, Ground t) ∧ wide.Nodup ∧ narrow.Nodup ∧
      mismatches (.union wide) (.union narrow) = [] ∧
      mismatches (.union narrow) (.union wide) = [.moreMembers (.union wide) (.union narrow)] ∧
      ∃ t ∈ wide, t ∉ narrow := by
  intro pair wide narrow
  have grounds : ∀ t ∈ wide, Ground t := by
    simp [wide, pair, ground_iff, signature, null, num, bool, str]
  have grounds' : ∀ t ∈ narrow, Ground t := by
    simp [narrow, pair, ground_iff, signature, num, bool, str]
  have distinct : narrow.Nodup := by decide +kernel
  have distinct' : wide.Nodup := by decide +kernel
  have part := (union_compatible_iff_subset wide narrow grounds grounds' distinct).1.mpr
    (by decide +kernel)
  have rejected := (union_compatible_iff_subset narrow wide grounds' grounds distinct').2
    (by decide +kernel)
  exact ⟨grounds, grounds', distinct', distinct, part, rejected⟩

end ScriptCheck.Ty
