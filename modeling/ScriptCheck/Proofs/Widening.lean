import Mathlib.Data.List.Perm.Subperm
import Mathlib.Logic.Relation
import ScriptCheck.Proofs.Transitivity

/-! Unions of more and of fewer members. What is accepted stays accepted if unions in the expected
type gain members and unions in the actual type lose some, at any depth and in any order. Parameters
and results of functions are changed in the same direction, as they are compared in the same one. -/
namespace ScriptCheck.Ty

open List (Forall₂)

/-! Changes -/

inductive Change (edit : List Ty → List Ty → Prop) : Ty → Ty → Prop where
  | members {ms ms' : List Ty} (edited : edit ms ms') : Change edit (.union ms) (.union ms')
  | member {t t' : Ty} (before after : List Ty) (inside : Change edit t t') :
      Change edit (.union (before ++ t :: after)) (.union (before ++ t' :: after))
  | item {t t' : Ty} (before after : List Ty) (inside : Change edit t t') :
      Change edit (.tuple (before ++ t :: after)) (.tuple (before ++ t' :: after))
  | params {p p' : Ty} (result : Ty) (inside : Change edit p p') :
      Change edit (.function p result) (.function p' result)
  | result {r r' : Ty} (params : Ty) (inside : Change edit r r') :
      Change edit (.function params r) (.function params r')

/-- The second type is the first with members of unions put into another order and with more members
in them. -/
def Widens : Ty → Ty → Prop := Relation.ReflTransGen (Change fun ms ms' => ms.Subperm ms')

def Narrows : Ty → Ty → Prop := Relation.ReflTransGen (Change fun ms ms' => ms'.Subperm ms)

theorem forall₂_middle {R : Ty → Ty → Prop} (refl : ∀ t, R t t) {t u : Ty} (before after : List Ty)
    (changed : R t u) : Forall₂ R (before ++ t :: after) (before ++ u :: after) := by
  induction before with
  | nil => exact .cons changed (List.forall₂_same.mpr fun t _ => refl t)
  | cons first _ ih => exact .cons (refl first) ih

/-- A preorder of types that goes through everything types are built with. -/
structure Congruence (R : Ty → Ty → Prop) : Prop where
  refl : ∀ t, R t t
  trans : ∀ {t u v}, R t u → R u v → R t v
  tuple : ∀ {ts us}, Forall₂ R ts us → R (.tuple ts) (.tuple us)
  union : ∀ {ts us}, Forall₂ R ts us → R (.union ts) (.union us)
  function : ∀ {p q r s}, R p q → R r s → R (.function p r) (.function q s)

namespace Congruence

variable {R : Ty → Ty → Prop} {edit : List Ty → List Ty → Prop} {t t' : Ty}

theorem change (related : Congruence R)
    (edits : ∀ ms ms', edit ms ms' → R (.union ms) (.union ms')) (changed : Change edit t t') :
    R t t' := by
  induction changed with
  | members edited => exact edits _ _ edited
  | member before after _ ih => exact related.union (forall₂_middle related.refl before after ih)
  | item before after _ ih => exact related.tuple (forall₂_middle related.refl before after ih)
  | params result _ ih => exact related.function ih (related.refl result)
  | result params _ ih => exact related.function (related.refl params) ih

theorem changes (related : Congruence R)
    (edits : ∀ ms ms', edit ms ms' → R (.union ms) (.union ms'))
    (changed : Relation.ReflTransGen (Change edit) t t') : R t t' := by
  induction changed with
  | refl => exact related.refl t
  | tail _ step ih => exact related.trans ih (related.change edits step)

end Congruence

/-! Wider expected types -/

theorem Absorbs.congruence : Congruence fun e e' => Absorbs e' e where
  refl := .refl
  trans first second := second.trans first
  tuple each := .tuple each.flip
  union each := .unions (Nat.le_of_eq each.length_eq) fun _ => exists_of_forall₂ each.flip
  function params result := .function params result

theorem Widens.absorbs {e e' : Ty} (wider : Widens e e') : Absorbs e' e := by
  refine Absorbs.congruence.changes ?_ wider
  intro ms ms' edited
  -- members that were there are still there, so the count cannot have become too small
  exact .unions edited.length_le fun m listed => ⟨m, edited.subset listed, .refl m⟩

/-! Narrower actual types -/

def ReplaceableBy (a a' : Ty) : Prop := ∀ e : Ty, e.accepts a → e.accepts a'

theorem ReplaceableBy.refl (a : Ty) : ReplaceableBy a a := fun _ accepted => accepted

theorem ReplaceableBy.trans {a b c : Ty} (first : ReplaceableBy a b) (second : ReplaceableBy b c) :
    ReplaceableBy a c := fun e accepted => second e (first e accepted)

theorem ReplaceableBy.unions {as as' : List Ty} (fewer : as'.length ≤ as.length)
    (each : ∀ a' ∈ as', ∃ a ∈ as, ReplaceableBy a a') :
    ReplaceableBy (.union as) (.union as') := by
  intro e accepted
  rcases cases_of_accepts_union accepted with rfl | ⟨es, rfl, enough, found⟩
  · exact any_accepts _
  · refine accepts_unions_iff.mpr ⟨by omega, fun a' listed => ?_⟩
    obtain ⟨a, before, replaceable⟩ := each a' listed
    obtain ⟨e, member, fits⟩ := found a before
    exact ⟨e, member, replaceable e fits⟩

theorem replaceableBy_of_single {a a' : Ty} (known : a ≠ .any) (single : ∀ as, a ≠ .union as)
    (single' : ∀ as, a' ≠ .union as)
    (outside : ∀ e : Ty, (∀ es, e ≠ .union es) → e.accepts a → e.accepts a') :
    ReplaceableBy a a' := by
  intro e accepted
  induction e using Ty.induction with
  | union members each =>
    rcases accepts_union_iff.mp accepted with unknown | ⟨as, same, _⟩ | ⟨_, e, member, fits⟩
    · exact absurd unknown known
    · exact absurd same (single as)
    · exact accepts_union_iff.mpr (.inr (.inr ⟨single', e, member, each e member fits⟩))
  | _ => exact outside _ (by simp) accepted

theorem ReplaceableBy.tuple {as as' : List Ty} (each : Forall₂ ReplaceableBy as as') :
    ReplaceableBy (.tuple as) (.tuple as') := by
  apply replaceableBy_of_single (by simp [any]) (by simp) (by simp)
  intro e single accepted
  rcases cases_of_accepts_tuple single accepted with rfl | ⟨es, rfl, pairs⟩
  · exact any_accepts _
  · have kept := pairs.imp fun e a fits a' (replaceable : ReplaceableBy a a') => replaceable e fits
    exact accepts_tuple_iff.mpr (.inr ⟨as', rfl, forall₂_chain kept each⟩)

theorem ReplaceableBy.function {p p' r r' : Ty} (params : ReplaceableBy p p')
    (result : ReplaceableBy r r') : ReplaceableBy (.function p r) (.function p' r') := by
  apply replaceableBy_of_single (by simp [any]) (by simp) (by simp)
  intro e single accepted
  rcases cases_of_accepts_function single accepted with rfl | ⟨q, s, rfl, fits, returned⟩
  · exact any_accepts _
  · exact accepts_function_iff.mpr (.inr ⟨p', r', rfl, params q fits, result s returned⟩)

theorem ReplaceableBy.congruence : Congruence ReplaceableBy where
  refl := .refl
  trans := .trans
  tuple := .tuple
  union each := .unions (Nat.le_of_eq each.length_eq.symm) fun _ => exists_of_forall₂ each
  function := .function

theorem Narrows.replaceableBy {a a' : Ty} (narrower : Narrows a a') : ReplaceableBy a a' := by
  refine ReplaceableBy.congruence.changes ?_ narrower
  intro ms ms' edited
  exact .unions edited.length_le fun m listed => ⟨m, edited.subset listed, .refl m⟩

/-- What is accepted stays accepted if unions of the expected type gain members and unions of the
actual type lose members, at any depth and in any order. -/
theorem accepts_of_widens_of_narrows (e e' a a' : Ty) (wider : Widens e e')
    (narrower : Narrows a a') (accepted : e.accepts a) : e'.accepts a' := by
  have still : e'.accepts a := wider.absorbs a accepted
  exact narrower.replaceableBy e' still

/-- Below a tuple and below the parameters of a function, members come and go on both sides at once,
down to an empty union. -/
theorem accepts_of_widens_of_narrows_nested :
    let e : Ty := .union [.tuple [.union [.num, .str]], .signature [.union [.num]] .null]
    let e' : Ty :=
      .union [.bool, .signature [.union [.any, .num]] .null, .tuple [.union [.str, .num]]]
    let a : Ty := .union [.signature [.union [.num]] .null, .tuple [.union [.str]]]
    let a' : Ty := .union [.tuple [.union [.str]], .signature [.union []] .null]
    Widens e e' ∧ Narrows a a' ∧ e.accepts a ∧ e'.accepts a' := by
  intro e e' a a'
  have wider : Widens e e' := by
    have swapped : List.Subperm [num, str] [str, num] := by decide +kernel
    have grown : List.Subperm [num] [any, num] := by decide +kernel
    refine .head (.member [] _ (.item [] [] (.members swapped))) ?_
    refine .head (.member [_] [] (.params _ (.item [] [] (.members grown)))) ?_
    exact .single (.members (by decide +kernel))
  have narrower : Narrows a a' := by
    have emptied : List.Subperm [] [num] := by decide +kernel
    refine .head (.member [] _ (.params _ (.item [] [] (.members emptied)))) ?_
    exact .single (.members (by decide +kernel))
  have accepted : e.accepts a := by decide +kernel
  exact ⟨wider, narrower, accepted, accepts_of_widens_of_narrows e e' a a' wider narrower accepted⟩

end ScriptCheck.Ty
