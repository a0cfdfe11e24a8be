import ExtensionCensus.Extension.Receiver
import Mathlib.Data.List.Basic

/-!
# Where type parameters occur

* `Ty.occursList_iff`, `Ty.occurs_named_iff` — occurrence in the parts of a named type;
* `Ty.walked` — the types that the receiver walk comes to: arguments, elements and targets, but no
  containing types;
* `Ty.occurs_iff_leaves_or_outer` — **an occurrence is a leaf, or it is hidden in the containing
  type of a type that the walk comes to.**
-/

namespace ExtensionCensus

namespace Ty

variable {p : TypeParameterRef}

/-! ### Parts of a type -/

theorem occursList_iff {ts : List Ty} :
    occursList p ts = true ↔ ∃ t ∈ ts, t.occurs p = true := by
  induction ts with
  | nil => simp [occursList]
  | cons t ts ih => simp only [occursList, Bool.or_eq_true, ih, List.exists_mem_cons_iff]

theorem occursOuter_iff {outer : Option Ty} :
    occursOuter p outer = true ↔ ∃ t, outer = some t ∧ t.occurs p = true := by
  cases outer with
  | none => simp [occursOuter]
  | some o => simp [occursOuter]

theorem occurs_named_iff {head : TypeHead} {outer : Option Ty} {args : List Ty} :
    (Ty.named head outer args).occurs p = true ↔
      (∃ t, outer = some t ∧ t.occurs p = true) ∨ ∃ t ∈ args, t.occurs p = true := by
  rw [occurs, Bool.or_eq_true, occursOuter_iff, occursList_iff]

theorem mem_leavesOfList_iff {ts : List Ty} {u : Ty} :
    u ∈ leavesOfList ts ↔ ∃ t ∈ ts, u ∈ t.leaves := by
  induction ts with
  | nil => simp [leavesOfList]
  | cons t ts ih => simp only [leavesOfList, List.mem_append, ih, List.exists_mem_cons_iff]

/-! ### The types that the walk comes to -/

mutual

/-- The type and all types in its arguments, elements and targets.  Containing types are not among
them. -/
def walked : Ty → List Ty
  | .named head outer args => .named head outer args :: walkedOfList args
  | .array element rank => .array element rank :: element.walked
  | .pointer target => .pointer target :: target.walked
  | .parameter q => [.parameter q]
  | .dynamic => [.dynamic]
  | .functionPointer signature => [.functionPointer signature]

/-- The types that some types and their parts are made of. -/
def walkedOfList : List Ty → List Ty
  | [] => []
  | t :: ts => t.walked ++ walkedOfList ts

end

theorem mem_walkedOfList_iff {ts : List Ty} {u : Ty} :
    u ∈ walkedOfList ts ↔ ∃ t ∈ ts, u ∈ t.walked := by
  induction ts with
  | nil => simp [walkedOfList]
  | cons t ts ih => simp only [walkedOfList, List.mem_append, ih, List.exists_mem_cons_iff]

/-- The parameter occurs in the containing type of a type that the walk comes to. -/
def HiddenIn (p : TypeParameterRef) (t : Ty) : Prop :=
  ∃ u ∈ t.walked, ∃ outer, u.outer? = some outer ∧ outer.occurs p = true

theorem hiddenIn_named_iff {head : TypeHead} {outer : Option Ty} {args : List Ty} :
    HiddenIn p (.named head outer args) ↔
      (∃ t, outer = some t ∧ t.occurs p = true) ∨ ∃ t ∈ args, HiddenIn p t := by
  constructor
  · rintro ⟨u, hu, o, ho, hp⟩
    rw [walked, List.mem_cons, mem_walkedOfList_iff] at hu
    rcases hu with rfl | ⟨t, ht, hu⟩
    · exact Or.inl ⟨o, ho, hp⟩
    · exact Or.inr ⟨t, ht, u, hu, o, ho, hp⟩
  · rintro (⟨o, rfl, hp⟩ | ⟨t, ht, u, hu, o, ho, hp⟩)
    · exact ⟨_, List.mem_cons_self, o, rfl, hp⟩
    · exact ⟨u, List.mem_cons_of_mem _ (mem_walkedOfList_iff.mpr ⟨t, ht, hu⟩), o, ho, hp⟩

theorem hiddenIn_array_iff {element : Ty} {rank : Nat} :
    HiddenIn p (.array element rank) ↔ HiddenIn p element := by
  simp [HiddenIn, walked, outer?]

theorem hiddenIn_pointer_iff {target : Ty} :
    HiddenIn p (.pointer target) ↔ HiddenIn p target := by
  simp [HiddenIn, walked, outer?]

/-- A type without arguments, elements and targets hides nothing. -/
theorem not_hiddenIn {t : Ty} (hw : t.walked = [t]) (ho : t.outer? = none) : ¬ HiddenIn p t := by
  rintro ⟨u, hu, o, hou, -⟩
  rw [hw, List.mem_singleton] at hu
  rw [hu, ho] at hou
  cases hou

mutual

/-- **An occurrence is a leaf of the type, or it is hidden in a containing type.** -/
theorem occurs_iff_leaves_or_outer (p : TypeParameterRef) : ∀ t : Ty,
    t.occurs p = true ↔ .parameter p ∈ t.leaves ∨ HiddenIn p t
  | .named head outer args => by
    rw [occurs_named_iff, hiddenIn_named_iff, leaves, mem_leavesOfList_iff,
      ← occursList_iff, occursList_iff_leaves_or_outer p args]
    constructor
    · rintro (ho | ⟨t, ht, hl | hh⟩)
      · exact Or.inr (Or.inl ho)
      · exact Or.inl ⟨t, ht, hl⟩
      · exact Or.inr (Or.inr ⟨t, ht, hh⟩)
    · rintro (⟨t, ht, hl⟩ | ho | ⟨t, ht, hh⟩)
      · exact Or.inr ⟨t, ht, Or.inl hl⟩
      · exact Or.inl ho
      · exact Or.inr ⟨t, ht, Or.inr hh⟩
  | .array element rank => by
    rw [occurs, leaves, hiddenIn_array_iff, occurs_iff_leaves_or_outer p element]
  | .pointer target => by
    rw [occurs, leaves, hiddenIn_pointer_iff, occurs_iff_leaves_or_outer p target]
  | .parameter q => by
    have hh : ¬ HiddenIn p (.parameter q) := not_hiddenIn rfl rfl
    simp [occurs, leaves, hh]
  | .dynamic => by
    have hh : ¬ HiddenIn p .dynamic := not_hiddenIn rfl rfl
    simp [occurs, leaves, hh]
  | .functionPointer signature => by
    have hh : ¬ HiddenIn p (.functionPointer signature) := not_hiddenIn rfl rfl
    simp [occurs, leaves, hh]

theorem occursList_iff_leaves_or_outer (p : TypeParameterRef) : ∀ ts : List Ty,
    occursList p ts = true ↔ ∃ t ∈ ts, .parameter p ∈ t.leaves ∨ HiddenIn p t
  | [] => by simp [occursList]
  | t :: ts => by
    rw [occursList, Bool.or_eq_true, occurs_iff_leaves_or_outer p t,
      occursList_iff_leaves_or_outer p ts, List.exists_mem_cons_iff]

end

end Ty

end ExtensionCensus
