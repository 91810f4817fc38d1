import Mathlib.Data.List.Forall2
import ScriptCheck.Proofs.Compatibility
import ScriptCheck.Proofs.FirstReturn

/-! Types of which less is known, some of their parts being replaced by `any`. With less known on
either side a comparison gives no more reasons, and less known about names is less known about
every node. -/
namespace ScriptCheck

open List (Forall₂)

namespace Ty

/-- The first type is the second with some of the types in it, or all of it, replaced by `any`. -/
inductive Coarser : Ty → Ty → Prop where
  | any (u : Ty) : Coarser .any u
  | name (n : String) : Coarser (.name n) (.name n)
  | tuple {ts us : List Ty} (each : Forall₂ Coarser ts us) : Coarser (.tuple ts) (.tuple us)
  | union {ts us : List Ty} (each : Forall₂ Coarser ts us) : Coarser (.union ts) (.union us)
  | function {p q r s : Ty} (params : Coarser p q) (result : Coarser r s) :
      Coarser (.function p r) (.function q s)

mutual
theorem Coarser.refl : (t : Ty) → Coarser t t
  | .name n => .name n
  | .tuple items => .tuple (Coarser.reflEach items)
  | .union members => .union (Coarser.reflEach members)
  | .function p r => .function (Coarser.refl p) (Coarser.refl r)

theorem Coarser.reflEach : (ts : List Ty) → Forall₂ Coarser ts ts
  | [] => .nil
  | t :: ts => .cons (Coarser.refl t) (Coarser.reflEach ts)
end

@[simp] theorem mismatches_any_left (a : Ty) : mismatches .any a = [] := by
  rw [mismatches.eq_def]
  simp [any, isAny]

@[simp] theorem mismatches_any_right (e : Ty) : mismatches e .any = [] := by
  rw [mismatches.eq_def]
  simp [any, isAny]

def Lenient (e' e : Ty) : Prop :=
  ∀ a' a, Coarser a' a → (mismatches e' a').length ≤ (mismatches e a).length

theorem anyAccepts_of_lenient {es' es : List Ty} (each : Forall₂ Lenient es' es) {a' a : Ty}
    (less : Coarser a' a) (accepted : anyAccepts es a = true) : anyAccepts es' a' = true := by
  induction each with
  | nil => simp [anyAccepts] at accepted
  | cons head _ ih =>
    simp only [anyAccepts, Bool.or_eq_true, List.isEmpty_iff_length_eq_zero] at accepted ⊢
    rcases accepted with here | later
    · have fewer := head a' a less
      exact .inl (by omega)
    · exact .inr (ih later)

theorem rejected_length_le {es' es as' as : List Ty} (each : Forall₂ Lenient es' es)
    (less : Forall₂ Coarser as' as) :
    (as'.filter fun m => !anyAccepts es' m).length ≤
      (as.filter fun m => !anyAccepts es m).length := by
  induction less with
  | nil => exact Nat.le_refl _
  | @cons a' a as' as head _ ih =>
    cases accepted : anyAccepts es a with
    | true =>
      have still := anyAccepts_of_lenient each head accepted
      simpa [accepted, still] using ih
    | false =>
      cases still : anyAccepts es' a' <;> simp [accepted, still] <;> omega

theorem pairwise_length_le {es' es as' as : List Ty} (each : Forall₂ Lenient es' es)
    (less : Forall₂ Coarser as' as) : (pairwise es' as').length ≤ (pairwise es as).length := by
  induction each generalizing as' as with
  | nil => simp [pairwise]
  | cons head _ ih =>
    cases less with
    | nil => simp [pairwise]
    | cons first rest =>
      simp only [pairwise, List.length_append]
      exact Nat.add_le_add (head _ _ first) (ih rest)

theorem Lenient.name (n : String) : Lenient (.name n) (.name n) := by
  intro a' a less
  cases less with
  | any => simp
  | name => exact Nat.le_refl _
  | tuple => simp [mismatches, isAny, apply_ite List.length]
  | union => simp [mismatches, isAny, apply_ite List.length]
  | function => simp [mismatches, isAny, apply_ite List.length]

theorem Lenient.tuple {ts us : List Ty} (each : Forall₂ Lenient ts us) :
    Lenient (.tuple ts) (.tuple us) := by
  intro a' a less
  cases less with
  | any => simp
  | tuple items =>
    have fewer := pairwise_length_le each items
    simp only [mismatches, isAny, each.length_eq, items.length_eq]
    simpa using fewer
  | name => simp [mismatches, isAny, apply_ite List.length]
  | union => simp [mismatches, isAny]
  | function => simp [mismatches, isAny]

theorem Lenient.union {ts us : List Ty} (each : Forall₂ Lenient ts us) :
    Lenient (.union ts) (.union us) := by
  intro a' a less
  have single : ∀ m m', (if anyAccepts ts a' then [] else [Mismatch.notContained a' m']).length ≤
      (if anyAccepts us a then [] else [Mismatch.notContained a m]).length := by
    intro m m'
    cases accepted : anyAccepts us a with
    | true => simp [anyAccepts_of_lenient each less accepted]
    | false => split <;> simp
  cases less with
  | any => simp
  | @union _ bs members =>
    have fewer := rejected_length_le each members
    simp only [mismatches, isAny, each.length_eq, members.length_eq]
    by_cases more : us.length < bs.length <;> simp [more, fewer]
  | name n =>
    by_cases h : n = "any"
    · simp [mismatches, isAny, h]
    · simpa [mismatches, isAny, h] using single _ _
  | tuple => simpa [mismatches, isAny] using single _ _
  | function => simpa [mismatches, isAny] using single _ _

theorem Lenient.function {p q r s : Ty} (params : Lenient p q) (result : Lenient r s) :
    Lenient (.function p r) (.function q s) := by
  intro a' a less
  cases less with
  | any => simp
  | function less more =>
    simpa [mismatches, isAny] using Nat.add_le_add (result _ _ more) (params _ _ less)
  | name => simp [mismatches, isAny, apply_ite List.length]
  | tuple => simp [mismatches, isAny]
  | union => simp [mismatches, isAny]

mutual
theorem Coarser.lenient {t u : Ty} : Coarser t u → Lenient t u
  | .any u => fun _ _ _ => by simp
  | .name n => .name n
  | .tuple each => .tuple (Coarser.lenientEach each)
  | .union each => .union (Coarser.lenientEach each)
  | .function params result => .function params.lenient result.lenient

theorem Coarser.lenientEach {ts us : List Ty} : Forall₂ Coarser ts us → Forall₂ Lenient ts us
  | .nil => .nil
  | .cons head tail => .cons head.lenient (Coarser.lenientEach tail)
end

theorem forall₂_of_coarser {es as ts : List Ty}
    (each : ∀ t ∈ ts, ∀ {e a}, Coarser e t → Coarser a t → mismatches e a = [])
    (left : Forall₂ Coarser es ts) (right : Forall₂ Coarser as ts) :
    Forall₂ (fun e a => e.accepts a) es as := by
  induction left generalizing as with
  | nil =>
    cases right with
    | nil => exact .nil
  | cons first _ ih =>
    obtain ⟨head, tail⟩ := List.forall_mem_cons.mp each
    cases right with
    | cons second others => exact .cons (accepts_iff.mpr (head first second)) (ih tail others)

/-- Two types that say less than a third one are compatible. -/
theorem mismatches_of_coarser {e a t : Ty} (left : Coarser e t) (right : Coarser a t) :
    mismatches e a = [] := by
  induction t using Ty.induction generalizing e a with
  | name n =>
    cases left with
    | any => simp
    | name => cases right <;> simp [mismatches]
  | tuple items each =>
    cases left with
    | any => simp
    | tuple first =>
      cases right with
      | any => simp
      | tuple second =>
        have pairs := forall₂_of_coarser each first second
        exact accepts_iff.mp (accepts_tuple_iff.mpr (.inr ⟨_, rfl, pairs⟩))
  | union members each =>
    cases left with
    | any => simp
    | union first =>
      cases right with
      | any => simp
      | union second =>
        have pairs := forall₂_of_coarser each first second
        have found := accepts_unions_iff.mpr
          ⟨Nat.le_of_eq pairs.length_eq.symm, fun m listed => exists_of_forall₂ pairs listed⟩
        exact accepts_iff.mp found
  | function params result first second =>
    cases left with
    | any => simp
    | function args returned =>
      cases right with
      | any => simp
      | function args' returned' =>
        simp [mismatches, isAny, first args args', second returned returned']

/-- Every type is compatible with itself, whatever its names are and however many members its unions
have. -/
theorem mismatches_self (t : Ty) : mismatches t t = [] :=
  mismatches_of_coarser (.refl t) (.refl t)

end Ty

def Bindings.Coarser (b' b : Bindings) : Prop :=
  Forall₂ (fun p' p => p'.1 = p.1 ∧ Ty.Coarser p'.2 p.2) b' b

namespace Bindings.Coarser

variable {b' b : Bindings}

theorem set (less : Coarser b' b) (x : String) {u' u : Ty} (type : u'.Coarser u) :
    Coarser (b'.set x u') (b.set x u) := by
  induction less with
  | nil => exact .cons ⟨rfl, type⟩ .nil
  | @cons p' p _ _ head tail ih =>
    obtain ⟨n, t'⟩ := p'
    obtain ⟨m, t⟩ := p
    obtain ⟨rfl, known⟩ : n = m ∧ Ty.Coarser t' t := head
    by_cases same : n = x
    · simp only [Bindings.set, if_pos same]
      exact .cons ⟨rfl, type⟩ tail
    · simp only [Bindings.set, if_neg same]
      exact .cons ⟨rfl, known⟩ ih

theorem get? (less : Coarser b' b) (x : String) :
    Option.Rel Ty.Coarser (b'.get? x) (b.get? x) := by
  induction less with
  | nil => exact .none
  | @cons p' p _ _ head tail ih =>
    obtain ⟨n, t'⟩ := p'
    obtain ⟨m, t⟩ := p
    obtain ⟨rfl, known⟩ : n = m ∧ Ty.Coarser t' t := head
    by_cases same : n = x
    · simp only [Bindings.get?, if_pos same]
      exact .some known
    · simpa only [Bindings.get?, if_neg same] using ih

theorem bindAll (less : Coarser b' b) (params : List Param) {us' us : List Ty}
    (types : Forall₂ Ty.Coarser us' us) :
    Coarser (ScriptCheck.bindAll params us' b') (ScriptCheck.bindAll params us b) := by
  induction params generalizing b' b us' us with
  | nil => exact less
  | cons p rest ih =>
    cases types with
    | nil => exact less
    | cons head tail => exact ih (less.set p.name head) tail

theorem exported (less : Coarser b' b) (ns : String) {inner' inner : Bindings}
    (members : Coarser inner' inner) :
    Coarser (ScriptCheck.exported ns inner' b') (ScriptCheck.exported ns inner b) := by
  induction members generalizing b' b with
  | nil => exact less
  | @cons p' p _ _ head tail ih =>
    obtain ⟨n, t'⟩ := p'
    obtain ⟨m, t⟩ := p
    obtain ⟨rfl, known⟩ : n = m ∧ Ty.Coarser t' t := head
    exact ih (less.set (qualify ns n) known)

end Bindings.Coarser

/-- Less is known about what names stand for. A name that stands for nothing is as good as one of
type `any`, so a name may also be lost. -/
structure Lookups.Coarser (v' v : Lookups) : Prop where
  var : ∀ x, Ty.Coarser ((v'.var x).getD .any) ((v.var x).getD .any)
  type : ∀ x, Ty.Coarser ((v'.type x).getD .any) ((v.type x).getD .any)

namespace Lookups.Coarser

variable {v' v : Lookups} {b' b : Bindings}

theorem extend (less : Coarser v' v) (locals : Bindings.Coarser b' b) :
    Coarser (v'.extend b') (v.extend b) where
  var x := by
    have found := locals.get? x
    simp only [Lookups.extend]
    generalize b'.get? x = o' at found
    generalize b.get? x = o at found
    cases found with
    | none => exact less.var x
    | some known => exact known
  type := less.type

end Lookups.Coarser

def Blurs (n : Node) : Prop :=
  ∀ v' v, Lookups.Coarser v' v → Ty.Coarser (typeOf n v') (typeOf n v)

section

variable {v' v : Lookups} (less : Lookups.Coarser v' v)
include less

theorem typeOfAll_of_each {ns : List Node} (each : ∀ n ∈ ns, Blurs n) :
    Forall₂ Ty.Coarser (typeOfAll ns v') (typeOfAll ns v) := by
  induction ns with
  | nil => exact .nil
  | cons n rest ih =>
    exact .cons (each n List.mem_cons_self v' v less)
      (ih fun m h => each m (List.mem_cons_of_mem _ h))

theorem typeOfParams_of_each {params : List Param}
    (each : ∀ n ∈ params.flatMap fun p => p.declared.toList, Blurs n) :
    Forall₂ Ty.Coarser (typeOfParams params v') (typeOfParams params v) := by
  induction params with
  | nil => exact .nil
  | cons p rest ih =>
    obtain ⟨name, declared⟩ := p
    simp only [List.flatMap_cons, List.mem_append, Param.declared] at each
    refine .cons ?_ (ih fun m h => each m (.inr h))
    cases declared with
    | none => exact .any _
    | some d => exact each d (.inl (by simp)) v' v less

theorem resultType_of_each {params : List Param} {result : Option Node} {body : List Node}
    (each : ∀ n ∈ (Kind.function params result body).parts, Blurs n)
    (value : ∀ e, firstReturn body = some e → Blurs e) :
    Ty.Coarser (resultType params result body v') (resultType params result body v) := by
  simp only [Kind.parts, List.mem_append] at each
  cases result with
  | some declared => exact each declared (.inl (.inr (by simp))) v' v less
  | none =>
    have types := typeOfParams_of_each less fun n h => each n (.inl (.inl h))
    have own := Bindings.Coarser.bindAll .nil params types
    simp only [resultType, typeOfReturn_eq]
    cases found : firstReturn body with
    | none => exact .any _
    | some e => exact value e found _ _ (less.extend own)

end

theorem blurs (n : Node) : Blurs n := by
  induction n using Node.valueInduction with
  | step n each value =>
    obtain ⟨kind, loc⟩ := n
    change ∀ m ∈ kind.parts, Blurs m at each
    intro v' v less
    cases kind with
    | ident name => exact less.var name
    | namedType name inner => exact less.type name
    | fnType params result =>
      exact .function
        (.tuple (typeOfAll_of_each less fun n h => each n (List.mem_append_left _ h)))
        (each result (by simp [Kind.parts]) v' v less)
    | function params result body =>
      simp only [typeOf_function]
      refine .function (.tuple (typeOfParams_of_each less fun n h => each n ?_))
        (resultType_of_each less each value)
      simp only [Kind.parts, List.mem_append]
      exact .inl (.inl h)
    | call target args =>
      have callee := each target (by simp [Kind.parts]) v' v less
      simp only [typeOf]
      generalize typeOf target v' = t' at callee
      generalize typeOf target v = t at callee
      cases callee with
      | function params result => exact result
      | _ => exact .any _
    | _ => exact .refl _

end ScriptCheck
