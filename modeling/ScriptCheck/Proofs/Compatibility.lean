import Mathlib.Data.List.Forall2
import Mathlib.Tactic.Common
import ScriptCheck.Ty.Compatibility

/-! When a type accepts another one. A comparison collects reasons, and there are none in few cases
only: one for each way of building the expected type, and `any`. -/
namespace ScriptCheck.Ty

open List (Forall₂)

@[elab_as_elim]
theorem induction {motive : Ty → Prop} (name : ∀ n, motive (.name n))
    (tuple : ∀ items, (∀ t ∈ items, motive t) → motive (.tuple items))
    (union : ∀ members, (∀ t ∈ members, motive t) → motive (.union members))
    (function : ∀ params result, motive params → motive result →
      motive (.function params result)) (t : Ty) : motive t := by
  induction t using Ty.rec (motive_2 := fun ts => ∀ t ∈ ts, motive t) with
  | name n => exact name n
  | tuple items each => exact tuple items each
  | union members each => exact union members each
  | function params result first second => exact function params result first second
  | nil => contradiction
  | cons t ts head tail =>
    rename_i listed
    exact (List.forall_mem_cons.mpr ⟨head, tail⟩) _ listed

section Pairs

variable {α β γ : Type} {xs : List α} {ys : List β} {zs : List γ}

theorem forall₂_of_mem {R S : α → β → Prop} (pairs : Forall₂ R xs ys)
    (each : ∀ x ∈ xs, ∀ y ∈ ys, R x y → S x y) : Forall₂ S xs ys := by
  obtain ⟨same, related⟩ := List.forall₂_iff_zip.mp pairs
  refine List.forall₂_iff_zip.mpr ⟨same, fun {x y} pair => ?_⟩
  obtain ⟨here, there⟩ := List.of_mem_zip pair
  exact each x here y there (related pair)

theorem forall₂_chain {R : β → γ → Prop} {S : α → γ → Prop}
    (each : Forall₂ (fun x y => ∀ z, R y z → S x z) xs ys) (pairs : Forall₂ R ys zs) :
    Forall₂ S xs zs := by
  induction each generalizing zs with
  | nil =>
    cases pairs with
    | nil => exact .nil
  | cons head _ ih =>
    cases pairs with
    | cons first rest => exact .cons (head _ first) (ih rest)

theorem exists_of_forall₂ {R : α → β → Prop} (pairs : Forall₂ R xs ys) {y : β} (member : y ∈ ys) :
    ∃ x ∈ xs, R x y := by
  induction pairs with
  | nil => cases member
  | cons head _ ih =>
    cases member with
    | head => exact ⟨_, List.mem_cons_self, head⟩
    | tail _ later =>
      obtain ⟨x, listed, related⟩ := ih later
      exact ⟨x, List.mem_cons_of_mem _ listed, related⟩

end Pairs

theorem accepts_iff {e a : Ty} : e.accepts a ↔ mismatches e a = [] := List.isEmpty_iff

theorem isAny_iff {t : Ty} : t.isAny = true ↔ t = .any := by
  cases t <;> simp [isAny, any]

theorem anyAccepts_iff {es : List Ty} {a : Ty} :
    anyAccepts es a = true ↔ ∃ e ∈ es, e.accepts a := by
  induction es with
  | nil => simp [anyAccepts]
  | cons e es ih => simp [anyAccepts, ih, accepts]

theorem pairwise_eq_nil_iff {es as : List Ty} (same : es.length = as.length) :
    pairwise es as = [] ↔ Forall₂ (fun e a => e.accepts a) es as := by
  induction es generalizing as with
  | nil =>
    cases as with
    | nil => simp [pairwise]
    | cons a as => simp at same
  | cons e es ih =>
    cases as with
    | nil => simp at same
    | cons a as =>
      rw [pairwise, List.append_eq_nil_iff, List.forall₂_cons, accepts_iff,
        ih (Nat.succ.inj same)]

theorem accepts_name_iff {n : String} {a : Ty} :
    (name n).accepts a ↔ n = "any" ∨ a = .any ∨ a = .name n := by
  rw [accepts_iff, ← isAny_iff]
  cases a with
  | name m => by_cases known : n = "any" <;> by_cases same : m = "any" <;>
      simp [mismatches, isAny, known, same, @eq_comm _ m n]
  | _ => by_cases known : n = "any" <;> simp [mismatches, isAny, known]

theorem any_accepts (a : Ty) : any.accepts a := accepts_name_iff.mpr (.inl rfl)

theorem accepts_tuple_iff {items : List Ty} {a : Ty} :
    (tuple items).accepts a ↔
      a = .any ∨ ∃ as, a = .tuple as ∧ Forall₂ (fun e a => e.accepts a) items as := by
  rw [accepts_iff, ← isAny_iff]
  cases a with
  | tuple as =>
    by_cases same : items.length = as.length
    · simp [mismatches, isAny, same, pairwise_eq_nil_iff same]
    · have unequal : ¬ Forall₂ (fun e a => e.accepts a) items as := fun each => same each.length_eq
      simp [mismatches, isAny, same, unequal]
  | name m => simp [mismatches, isAny]
  | _ => simp [mismatches, isAny]

theorem accepts_function_iff {params result a : Ty} :
    (function params result).accepts a ↔
      a = .any ∨ ∃ ps r, a = .function ps r ∧ params.accepts ps ∧ result.accepts r := by
  rw [accepts_iff, ← isAny_iff]
  cases a with
  | function ps r => simp [mismatches, isAny, accepts_iff, and_comm]
  | name m => simp [mismatches, isAny]
  | _ => simp [mismatches, isAny]

/-- Members of a union are looked up one by one, but only if the other union has no more of them;
what is no union is looked up as a whole. -/
theorem accepts_union_iff {es : List Ty} {a : Ty} :
    (union es).accepts a ↔ a = .any ∨
      (∃ as, a = .union as ∧ as.length ≤ es.length ∧ ∀ m ∈ as, ∃ e ∈ es, e.accepts m) ∨
      (∀ as, a ≠ .union as) ∧ ∃ e ∈ es, e.accepts a := by
  rw [accepts_iff, ← isAny_iff]
  cases a with
  | union as =>
    by_cases more : es.length < as.length
    · simp [mismatches, isAny, more, Nat.not_le_of_lt more]
    · simp [mismatches, isAny, more, anyAccepts_iff, Nat.le_of_not_lt more]
  | name m => by_cases known : m = "any" <;> simp [mismatches, isAny, known, anyAccepts_iff]
  | _ => simp [mismatches, isAny, anyAccepts_iff]

theorem accepts_unions_iff {es as : List Ty} : (union es).accepts (union as) ↔
    as.length ≤ es.length ∧ ∀ m ∈ as, ∃ e ∈ es, e.accepts m := by
  simp [accepts_union_iff, any]

/-! What accepts a type of each form. Unions aside, it is a type of the same form or `any`. -/

theorem cases_of_accepts_union {e : Ty} {as : List Ty} (accepted : e.accepts (union as)) :
    e = .any ∨
      ∃ es, e = .union es ∧ as.length ≤ es.length ∧ ∀ m ∈ as, ∃ e ∈ es, e.accepts m := by
  cases e with
  | union es => exact .inr ⟨es, rfl, accepts_unions_iff.mp accepted⟩
  | name n => simpa [accepts_name_iff, any] using accepted
  | tuple items => simp [accepts_tuple_iff, any] at accepted
  | function params result => simp [accepts_function_iff, any] at accepted

theorem cases_of_accepts_tuple {e : Ty} {as : List Ty} (single : ∀ es, e ≠ .union es)
    (accepted : e.accepts (tuple as)) :
    e = .any ∨ ∃ es, e = .tuple es ∧ Forall₂ (fun e a => e.accepts a) es as := by
  cases e with
  | union es => exact absurd rfl (single es)
  | name n => simpa [accepts_name_iff, any] using accepted
  | tuple items => simpa [accepts_tuple_iff, any] using accepted
  | function params result => simp [accepts_function_iff, any] at accepted

theorem cases_of_accepts_function {e p r : Ty} (single : ∀ es, e ≠ .union es)
    (accepted : e.accepts (function p r)) :
    e = .any ∨ ∃ q s, e = .function q s ∧ q.accepts p ∧ s.accepts r := by
  cases e with
  | union es => exact absurd rfl (single es)
  | name n => simpa [accepts_name_iff, any] using accepted
  | tuple items => simp [accepts_tuple_iff, any] at accepted
  | function params result => simpa [accepts_function_iff, any] using accepted

end ScriptCheck.Ty
