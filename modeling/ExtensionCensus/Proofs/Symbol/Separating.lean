import ExtensionCensus.Proofs.Symbol.Renaming
import ExtensionCensus.Proofs.Symbol.Scope

/-!
# Renamings that tell types apart

Two tables may put the type parameters of one type at different places.  What becomes of the type
depends on these places only.

* `Ty.rename_congr` — renamings that agree about the type parameters of a type rename it alike;
* `Renaming.Separates`, `Renaming.Separates.rename` — **a renaming that tells types and type parameters
  apart tells type expressions apart**.
-/

namespace ExtensionCensus

section

variable {r r' : Renaming} {allowed : TypeParameterRef → Prop}

mutual

/-- Renamings that put the type parameters of a type at the same places rename it alike. -/
theorem Ty.rename_congr (h : r.type = r'.type) :
    ∀ t : Ty, t.Within (fun p => r.parameter p = r'.parameter p) → t.rename r = t.rename r'
  | .named head outer args, ht => by
    obtain ⟨houter, hargs⟩ := Ty.within_named_iff.mp ht
    have hhead : r.head head = r'.head head := by
      cases head <;> simp [Renaming.head, h]
    rw [Ty.rename, Ty.rename, hhead, Ty.renameOuter_congr h outer houter,
      Ty.renameList_congr h args hargs]
  | .parameter p, ht => by
    have hp := @Ty.within_parameter_iff (fun p => r.parameter p = r'.parameter p) p
    rw [Ty.rename_parameter, Ty.rename_parameter, hp.mp ht]
  | .array element rank, ht => by
    rw [Ty.rename_array, Ty.rename_array, Ty.rename_congr h element ht]
  | .pointer target, ht => by
    rw [Ty.rename_pointer, Ty.rename_pointer, Ty.rename_congr h target ht]
  | .dynamic, _ => rfl
  | .functionPointer signature, _ => rfl

theorem Ty.renameOuter_congr (h : r.type = r'.type) : ∀ outer : Option Ty,
    (∀ t, outer = some t → t.Within (fun p => r.parameter p = r'.parameter p)) →
    Ty.renameOuter r outer = Ty.renameOuter r' outer
  | none, _ => rfl
  | some t, ht => congrArg some (Ty.rename_congr h t (ht t rfl))

theorem Ty.renameList_congr (h : r.type = r'.type) : ∀ ts : List Ty,
    (∀ t ∈ ts, t.Within (fun p => r.parameter p = r'.parameter p)) →
    Ty.renameList r ts = Ty.renameList r' ts
  | [], _ => rfl
  | t :: ts, ht => by
    rw [Ty.renameList, Ty.renameList, Ty.rename_congr h t (ht t List.mem_cons_self),
      Ty.renameList_congr h ts fun u hu => ht u (List.mem_cons_of_mem t hu)]

end

/-- The renaming tells types apart, and the type parameters that are allowed. -/
structure Renaming.Separates (r : Renaming) (allowed : TypeParameterRef → Prop) : Prop where
  type : Function.Injective r.type
  parameter : ∀ p, allowed p → ∀ q, allowed q → r.parameter p = r.parameter q → p = q

theorem Renaming.Separates.head (h : r.Separates allowed) {x y : TypeHead}
    (he : r.head x = r.head y) : x = y := by
  cases x <;> cases y <;> simp_all [Renaming.head, h.type.eq_iff]

mutual

/-- Types are told apart by their types and type parameters. -/
theorem Renaming.Separates.rename (h : r.Separates allowed) : ∀ t u : Ty, t.Within allowed →
    u.Within allowed → t.rename r = u.rename r → t = u
  | .named head outer args, u, ht, hu, he => by
    cases u with
    | named head' outer' args' =>
      rw [Ty.rename, Ty.rename, Ty.named.injEq] at he
      obtain ⟨houter, hargs⟩ := Ty.within_named_iff.mp ht
      obtain ⟨houter', hargs'⟩ := Ty.within_named_iff.mp hu
      rw [h.head he.1, h.renameOuter outer outer' houter houter' he.2.1,
        h.renameList args args' hargs hargs' he.2.2]
    | _ => simp at he
  | .parameter p, u, ht, hu, he => by
    cases u with
    | parameter q =>
      rw [Ty.rename_parameter, Ty.rename_parameter, Ty.parameter.injEq] at he
      rw [h.parameter p (Ty.within_parameter_iff.mp ht) q (Ty.within_parameter_iff.mp hu) he]
    | _ => simp at he
  | .array element rank, u, ht, hu, he => by
    cases u with
    | array element' rank' =>
      rw [Ty.rename_array, Ty.rename_array, Ty.array.injEq] at he
      rw [h.rename element element' ht hu he.1, he.2]
    | _ => simp at he
  | .pointer target, u, ht, hu, he => by
    cases u with
    | pointer target' =>
      rw [Ty.rename_pointer, Ty.rename_pointer, Ty.pointer.injEq] at he
      rw [h.rename target target' ht hu he]
    | _ => simp at he
  | .dynamic, u, _, _, he => by
    cases u with
    | dynamic => rfl
    | _ => simp at he
  | .functionPointer signature, u, _, _, he => by
    cases u with
    | functionPointer signature' =>
      rw [Ty.rename_functionPointer, Ty.rename_functionPointer] at he
      exact he
    | _ => simp at he

theorem Renaming.Separates.renameOuter (h : r.Separates allowed) : ∀ outer outer' : Option Ty,
    (∀ t, outer = some t → t.Within allowed) → (∀ t, outer' = some t → t.Within allowed) →
    Ty.renameOuter r outer = Ty.renameOuter r outer' → outer = outer'
  | none, none, _, _, _ => rfl
  | none, some u, _, _, he => by simp [Ty.renameOuter_eq] at he
  | some t, none, _, _, he => by simp [Ty.renameOuter_eq] at he
  | some t, some u, ht, hu, he => by
    rw [Ty.renameOuter, Ty.renameOuter, Option.some.injEq] at he
    rw [h.rename t u (ht t rfl) (hu u rfl) he]

theorem Renaming.Separates.renameList (h : r.Separates allowed) : ∀ ts us : List Ty,
    (∀ t ∈ ts, t.Within allowed) → (∀ u ∈ us, u.Within allowed) →
    Ty.renameList r ts = Ty.renameList r us → ts = us
  | [], [], _, _, _ => rfl
  | [], u :: us, _, _, he => by simp [Ty.renameList_eq] at he
  | t :: ts, [], _, _, he => by simp [Ty.renameList_eq] at he
  | t :: ts, u :: us, ht, hu, he => by
    rw [Ty.renameList, Ty.renameList, List.cons.injEq] at he
    rw [h.rename t u (ht t List.mem_cons_self) (hu u List.mem_cons_self) he.1,
      h.renameList ts us (fun t' ht' => ht t' (List.mem_cons_of_mem t ht'))
        (fun u' hu' => hu u' (List.mem_cons_of_mem u hu')) he.2]

end

end

end ExtensionCensus
