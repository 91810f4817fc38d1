import Mathlib.Data.Fintype.EquivFin
import ScriptCheck.Proofs.Consistency

/-! Chains of comparisons. A type that accepts another one accepts all that the other one accepts,
as long as `any` does not occur in the one in the middle. Where it does occur the chain can break:
`any` is accepted for one reason and accepts for another, and nothing ties the two together. -/
namespace ScriptCheck.Ty

open List (Forall₂)

/-! Accepting all that another type accepts -/

def Absorbs (e t : Ty) : Prop := ∀ a, t.accepts a → e.accepts a

theorem Absorbs.refl (t : Ty) : Absorbs t t := fun _ accepted => accepted

theorem Absorbs.trans {e t u : Ty} (outer : Absorbs e t) (inner : Absorbs t u) : Absorbs e u :=
  fun a accepted => outer a (inner a accepted)

theorem Absorbs.unknown (t : Ty) : Absorbs .any t := fun a _ => any_accepts a

theorem Absorbs.tuple {es ts : List Ty} (each : Forall₂ Absorbs es ts) :
    Absorbs (.tuple es) (.tuple ts) := by
  intro a accepted
  rcases accepts_tuple_iff.mp accepted with rfl | ⟨as, rfl, pairs⟩
  · exact accepts_tuple_iff.mpr (.inl rfl)
  · exact accepts_tuple_iff.mpr (.inr ⟨as, rfl, forall₂_chain each pairs⟩)

theorem Absorbs.function {p r q s : Ty} (params : Absorbs p q) (result : Absorbs r s) :
    Absorbs (.function p r) (.function q s) := by
  intro a accepted
  rcases accepts_function_iff.mp accepted with rfl | ⟨ps, b, rfl, fits, returned⟩
  · exact accepts_function_iff.mpr (.inl rfl)
  · exact accepts_function_iff.mpr (.inr ⟨ps, b, rfl, params ps fits, result b returned⟩)

theorem Absorbs.unions {es ts : List Ty} (enough : ts.length ≤ es.length)
    (each : ∀ t ∈ ts, ∃ e ∈ es, Absorbs e t) : Absorbs (.union es) (.union ts) := by
  have found : ∀ a, (∃ t ∈ ts, t.accepts a) → ∃ e ∈ es, e.accepts a := by
    rintro a ⟨t, listed, accepted⟩
    obtain ⟨e, member, absorbs⟩ := each t listed
    exact ⟨e, member, absorbs a accepted⟩
  intro a accepted
  rcases accepts_union_iff.mp accepted with rfl | ⟨as, rfl, fewer, inside⟩ | ⟨single, inside⟩
  · exact accepts_union_iff.mpr (.inl rfl)
  · exact accepts_unions_iff.mpr ⟨by omega, fun m listed => found m (inside m listed)⟩
  · exact accepts_union_iff.mpr (.inr (.inr ⟨single, found a inside⟩))

theorem Absorbs.member {t : Ty} {es : List Ty} (known : t ≠ .any) (single : ∀ ts, t ≠ .union ts)
    (found : ∃ e ∈ es, Absorbs e t) : Absorbs (.union es) t := by
  obtain ⟨e, member, absorbs⟩ := found
  intro a accepted
  by_cases unknown : a = .any
  · exact accepts_union_iff.mpr (.inl unknown)
  · have plain : ∀ as, a ≠ .union as := by
      rintro as rfl
      rcases cases_of_accepts_union accepted with impossible | ⟨ts, same, _⟩
      · exact known impossible
      · exact single ts same
    exact accepts_union_iff.mpr (.inr (.inr ⟨plain, e, member, absorbs a accepted⟩))

theorem absorbs_of_accepts {e t : Ty} (definite : Definite t) (accepted : e.accepts t) :
    Absorbs e t := by
  refine induction_of_accepts Absorbs.unknown ?_ ?_ ?_ ?_ ?_ definite accepted
  · exact fun n => .refl _
  · exact fun es ts each => .tuple each
  · exact fun es ts enough found => .unions enough found
  · exact fun es t definite single found => .member definite.ne_any single found
  · exact fun p r q s params result => .function params result

/-! Names -/

mutual
def names : Ty → List String
  | .name n => [n]
  | .tuple items => namesAll items
  | .union members => namesAll members
  | .function params result => names params ++ names result

def namesAll : List Ty → List String
  | [] => []
  | t :: ts => names t ++ namesAll ts
end

theorem mem_namesAll {n : String} {ts : List Ty} : n ∈ namesAll ts ↔ ∃ t ∈ ts, n ∈ t.names := by
  induction ts with
  | nil => simp [namesAll]
  | cons t ts ih => simp [namesAll, ih]

theorem definite_iff_names {t : Ty} : Definite t ↔ "any" ∉ t.names := by
  induction t using Ty.induction with
  | name n => simp [names, eq_comm]
  | tuple items each =>
    simp only [definite_tuple_iff, names, mem_namesAll, not_exists, not_and]
    exact forall₂_congr each
  | union members each =>
    simp only [definite_union_iff, names, mem_namesAll, not_exists, not_and]
    exact forall₂_congr each
  | function params result first second => simp [names, first, second]

theorem names_fill {n : String} {part t : Ty} (unknown : "any" ∈ t.names) (new : n ∈ part.names) :
    n ∈ (fill part t).names := by
  have among : ∀ ts, (∀ t ∈ ts, "any" ∈ t.names → n ∈ (fill part t).names) →
      "any" ∈ namesAll ts → n ∈ namesAll (fillAll part ts) := by
    intro ts each present
    obtain ⟨t, listed, inside⟩ := mem_namesAll.mp present
    rw [fillAll_eq]
    exact mem_namesAll.mpr ⟨fill part t, List.mem_map_of_mem listed, each t listed inside⟩
  induction t using Ty.induction with
  | name m =>
    have same : m = "any" := (List.mem_singleton.mp unknown).symm
    rwa [fill, if_pos same]
  | tuple items each => exact among items each unknown
  | union members each => exact among members each unknown
  | function params result first second =>
    rcases List.mem_append.mp unknown with left | right
    · exact List.mem_append_left _ (first left)
    · exact List.mem_append_right _ (second right)

/-- Every name of `a` stands in `e` as well, unless `any` does. -/
def Supplies (e a : Ty) : Prop := ∀ n ∈ a.names, n ∈ e.names ∨ "any" ∈ e.names

theorem Supplies.member {es : List Ty} {a : Ty} (found : ∃ e ∈ es, Supplies e a) :
    Supplies (.union es) a := by
  intro n listed
  obtain ⟨e, member, supplies⟩ := found
  rcases supplies n listed with named | unknown
  · exact .inl (mem_namesAll.mpr ⟨e, member, named⟩)
  · exact .inr (mem_namesAll.mpr ⟨e, member, unknown⟩)

theorem Supplies.all {es as : List Ty} (each : ∀ a ∈ as, ∃ e ∈ es, Supplies e a) :
    Supplies (.union es) (.union as) := by
  intro n listed
  obtain ⟨a, there, inside⟩ := mem_namesAll.mp listed
  exact Supplies.member (each a there) n inside

theorem Supplies.function {p r q s : Ty} (params : Supplies p q) (result : Supplies r s) :
    Supplies (.function p r) (.function q s) := by
  intro n listed
  simp only [names, List.mem_append] at listed ⊢
  rcases listed with left | right
  · have given := params n left
    tauto
  · have given := result n right
    tauto

theorem supplies_of_accepts {e a : Ty} (definite : Definite a) (accepted : e.accepts a) :
    Supplies e a := by
  refine induction_of_accepts ?_ ?_ ?_ ?_ ?_ ?_ definite accepted
  · exact fun a n _ => .inr (List.mem_singleton.mpr rfl)
  · exact fun n m listed => .inl listed
  · exact fun es as each => Supplies.all fun a => exists_of_forall₂ each
  · exact fun es as _ found => .all found
  · exact fun es a _ _ found => .member found
  · exact fun p r q s params result => .function params result

/-- The types through which accepting is transitive are exactly those in which `any` does not
occur. -/
theorem definite_iff_transitive (m : Ty) :
    Definite m ↔ ∀ e a : Ty, e.accepts m → m.accepts a → e.accepts a := by
  constructor
  · intro definite e a first second
    exact absorbs_of_accepts definite first a second
  · intro transitive
    apply definite_iff_names.mpr
    intro unknown
    -- `any` is taken for `num` on the way in, and for a name found nowhere else on the way out
    obtain ⟨fresh, unseen⟩ := Infinite.exists_notMem_finset ("any" :: (fill num m).names).toFinset
    obtain ⟨known, new⟩ : fresh ≠ "any" ∧ fresh ∉ (fill num m).names := by simpa using unseen
    have first : (fill num m).accepts m :=
      accepts_iff.mpr (mismatches_of_coarser (.refl _) (coarser_fill num m))
    have second : m.accepts (fill (.name fresh) m) :=
      accepts_iff.mpr (mismatches_of_coarser (coarser_fill (.name fresh) m) (.refl _))
    have accepted := transitive _ _ first second
    have named : fresh ∈ (fill (.name fresh) m).names := names_fill unknown List.mem_cons_self
    rcases supplies_of_accepts (Definite.fill (.name known) m) accepted fresh named with old | left
    · exact new old
    · exact definite_iff_names.mp (definite_num.fill m) left

end ScriptCheck.Ty
