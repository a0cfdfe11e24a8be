import ExtensionCensus.Proofs.Extension.Occurrence

/-!
# What the receiver walk finds

The walk answers whether a leaf of the receiver is a type parameter of the method.  It steps into
arguments, elements and targets; a containing type is never stepped into, so an occurrence that is
hidden there is missed.

* `Ty.isPlain` — no part of the type is dynamic or a function pointer;
* `Ty.mentions_of_isPlain` — the walk over a plain type ends, and finds exactly the leaves;
* `SymbolTable.mentionsOwn_exact` — **what the walk answers, and when that is not whether the method
  has a type parameter that occurs in the receiver**;
* `nestedReceiver` — a receiver `Outer<T>.Inner` with such a `T`, for which the walk answers no.
-/

namespace ExtensionCensus

/-! ### Types that the walk has rules for -/

mutual

/-- No part of the type, its containing types included, is dynamic or a function pointer. -/
def Ty.isPlain : Ty → Bool
  | .named _ outer args => Ty.isPlainOuter outer && Ty.isPlainList args
  | .array element _ => element.isPlain
  | .pointer target => target.isPlain
  | .parameter _ => true
  | .dynamic => false
  | .functionPointer _ => false

/-- No part of a containing type is dynamic or a function pointer. -/
def Ty.isPlainOuter : Option Ty → Bool
  | none => true
  | some t => t.isPlain

/-- No part of some types is dynamic or a function pointer. -/
def Ty.isPlainList : List Ty → Bool
  | [] => true
  | t :: ts => t.isPlain && Ty.isPlainList ts

end

/-! ### The walk -/

mutual

/-- Over a plain type the walk ends, and it answers whether one of the parameters is a leaf. -/
theorem Ty.mentions_of_isPlain (own : List TypeParameterRef) : ∀ t : Ty, t.isPlain = true →
    ∃ b, t.mentions own = .ok b ∧ (b = true ↔ ∃ p ∈ own, .parameter p ∈ t.leaves)
  | .named head outer args, h => by
    rw [isPlain, Bool.and_eq_true] at h
    obtain ⟨b, hb, hiff⟩ := Ty.anyMentions_of_isPlain own args h.2
    exact ⟨b, hb, hiff⟩
  | .array element rank, h => by
    obtain ⟨b, hb, hiff⟩ := Ty.mentions_of_isPlain own element h
    exact ⟨b, hb, hiff⟩
  | .pointer target, h => by
    obtain ⟨b, hb, hiff⟩ := Ty.mentions_of_isPlain own target h
    exact ⟨b, hb, hiff⟩
  | .parameter q, _ => by
    refine ⟨own.contains q, rfl, ?_⟩
    rw [List.contains_iff_mem, leaves]
    constructor
    · intro hq
      exact ⟨q, hq, List.mem_singleton_self _⟩
    · rintro ⟨p, hp, hpq⟩
      rw [List.mem_singleton, Ty.parameter.injEq] at hpq
      exact hpq ▸ hp
  | .dynamic, h => by cases h
  | .functionPointer signature, h => by cases h

/-- Over plain types the walk ends, and it answers whether one of the parameters is a leaf of one
of them.  Types behind the first mention are not looked at, and need not be. -/
theorem Ty.anyMentions_of_isPlain (own : List TypeParameterRef) : ∀ ts : List Ty,
    Ty.isPlainList ts = true →
    ∃ b, Ty.anyMentions own ts = .ok b ∧
      (b = true ↔ ∃ p ∈ own, .parameter p ∈ Ty.leavesOfList ts)
  | [], _ => by
    refine ⟨false, rfl, ?_⟩
    simp [leavesOfList]
  | t :: ts, h => by
    rw [isPlainList, Bool.and_eq_true] at h
    obtain ⟨b, hb, hiff⟩ := Ty.mentions_of_isPlain own t h.1
    obtain ⟨bs, hbs, hiffs⟩ := Ty.anyMentions_of_isPlain own ts h.2
    have hsplit : (∃ p ∈ own, .parameter p ∈ Ty.leavesOfList (t :: ts)) ↔
        b = true ∨ bs = true := by
      rw [hiff, hiffs, leavesOfList]
      constructor
      · rintro ⟨p, hp, hmem⟩
        rcases List.mem_append.mp hmem with hmem | hmem
        · exact Or.inl ⟨p, hp, hmem⟩
        · exact Or.inr ⟨p, hp, hmem⟩
      · rintro (⟨p, hp, hmem⟩ | ⟨p, hp, hmem⟩)
        · exact ⟨p, hp, List.mem_append_left _ hmem⟩
        · exact ⟨p, hp, List.mem_append_right _ hmem⟩
    rw [anyMentions, hb, hsplit]
    cases b with
    | true => exact ⟨true, rfl, by simp⟩
    | false => exact ⟨bs, hbs, by simp⟩

end

namespace SymbolTable

/-- The walk with the type parameters of a method. -/
theorem mentionsOwn_of_isPlain (table : SymbolTable) (id : MethodId) {t : Ty}
    (h : t.isPlain = true) :
    ∃ b, table.mentionsOwn id t = .ok b ∧
      (b = true ↔ ∃ p ∈ table.methodTypeParameters id, .parameter p ∈ t.leaves) := by
  obtain ⟨b, hb, hiff⟩ := t.mentions_of_isPlain (table.methodTypeParameters id) h
  refine ⟨b, ?_, hiff⟩
  rw [mentionsOwn, hb]
  rfl

/-- **The receiver walk, exactly.**  Over a type without dynamic parts and function pointers it
answers whether a type parameter of the method is a leaf.  That is whether one occurs in the type,
unless every one that occurs is hidden in the containing type of a type that the walk comes to. -/
theorem mentionsOwn_exact (table : SymbolTable) (id : MethodId) (t : Ty)
    (h : t.isPlain = true) :
    ∃ b, table.mentionsOwn id t = .ok b ∧
      (b = true ↔ ∃ p ∈ table.methodTypeParameters id, .parameter p ∈ t.leaves) ∧
      ((b = true ↔ ∃ p ∈ table.methodTypeParameters id, t.occurs p = true) ↔
        ¬ ((∃ p ∈ table.methodTypeParameters id, Ty.HiddenIn p t) ∧
          ∀ p ∈ table.methodTypeParameters id, .parameter p ∉ t.leaves)) := by
  obtain ⟨b, hb, hiff⟩ := table.mentionsOwn_of_isPlain id h
  refine ⟨b, hb, hiff, ?_⟩
  rw [hiff]
  constructor
  · rintro hclaim ⟨⟨p, hp, hhidden⟩, hnone⟩
    -- the hidden occurrence would have to be seen as a leaf
    obtain ⟨q, hq, hleaf⟩ := hclaim.mpr
      ⟨p, hp, (Ty.occurs_iff_leaves_or_outer p t).mpr (Or.inr hhidden)⟩
    exact hnone q hq hleaf
  · intro hseen
    constructor
    · rintro ⟨p, hp, hleaf⟩
      exact ⟨p, hp, (Ty.occurs_iff_leaves_or_outer p t).mpr (Or.inl hleaf)⟩
    · rintro ⟨p, hp, hocc⟩
      rcases (Ty.occurs_iff_leaves_or_outer p t).mp hocc with hleaf | hhidden
      · exact ⟨p, hp, hleaf⟩
      · by_contra hnone
        refine hseen ⟨⟨p, hp, hhidden⟩, fun q hq hleaf => hnone ⟨q, hq, hleaf⟩⟩

/-- A generic type with a type nested in it, and a method with a type parameter of its own. -/
def nestedTable : SymbolTable :=
  let outer : TypeDefinition :=
    { name := "Outer", container := .namespace [], kind := .classType
      traits := { access := .publicAccess }, metadataName := "Outer"
      typeParameters := [{ name := "U" }] }
  let withOuter := SymbolTable.addDefinition {} outer
  let inner : TypeDefinition :=
    { name := "Inner", container := .type (withOuter.definitionType ⟨0⟩), kind := .classType
      traits := { access := .publicAccess }, metadataName := "Outer.Inner" }
  (withOuter.addDefinition inner).addMethod { name := "F", typeParameters := [{ name := "T" }] }

/-- The receiver `Outer<T>.Inner`, over the type parameter of the method. -/
def nestedReceiver : Ty :=
  .named (.declared ⟨1⟩)
    (some (.named (.declared ⟨0⟩) none [.parameter (.ofMethod ⟨0⟩ 0)])) []

/-- The type parameter occurs in the receiver, and the walk answers no. -/
theorem nestedReceiver_missed :
    nestedReceiver.isPlain = true ∧
      (∃ p ∈ nestedTable.methodTypeParameters ⟨0⟩, nestedReceiver.occurs p = true) ∧
      nestedTable.mentionsOwn ⟨0⟩ nestedReceiver = .ok false := by
  have hplain : nestedReceiver.isPlain = true := rfl
  obtain ⟨b, hb, hiff, -⟩ := mentionsOwn_exact nestedTable ⟨0⟩ nestedReceiver hplain
  refine ⟨hplain, ⟨.ofMethod ⟨0⟩ 0, by decide, rfl⟩, ?_⟩
  cases b with
  | false => exact hb
  | true =>
    obtain ⟨p, -, hleaf⟩ := hiff.mp rfl
    cases hleaf

end SymbolTable

end ExtensionCensus
