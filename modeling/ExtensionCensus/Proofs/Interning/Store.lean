import ExtensionCensus.Symbol.Construct

/-!
# A store of interned types

Type expressions are terms, and one type is one term.  This file holds the other reading of the
same types: **objects** on a heap, whose identity is their place, and which are found again
through intern tables.

* `Ref`, `Shape` — an object, and what an object of the heap is made of;
* `Store` — the declared types, the heap, and the tables: one for each declared type, and one
  each for unbound names, arrays, pointers and function pointers;
* `Store.intern` — the object of a shape: the one in its table, or a new one;
* `Store.construct` — an instance of a declared type, which is the declared type itself over its
  own parameters, with a containing type that is the lexical one left out;
* `Store.Canonical` — the invariant: tables and heap agree, and no object of the heap is another
  spelling of a declared type;
* `Store.Canonical.eq_of_shape?` — in a canonical store one shape is one object.

Everything about time is in the heap: nothing on it is ever changed, and a table is only added to.
-/

namespace ExtensionCensus.Interning

/-! ### Objects -/

/-- An object: a declared type, a type parameter, the dynamic type, or a place on the heap. -/
inductive Ref where
  | definition (id : TypeId)
  | parameter (p : TypeParameterRef)
  | dynamic
  | made (place : Nat)
  deriving DecidableEq, Repr

/-- What an object of the heap is made of.  An instance without a containing type lies where its
definition lies. -/
inductive Shape where
  | instanceOf (id : TypeId) (outer : Option Ref) (args : List Ref)
  | unbound (outer : Option Ref) (name : String) (args : List Ref)
  | array (element : Ref) (rank : Nat)
  | pointer (target : Ref)
  | functionPointer (signature : String)
  deriving DecidableEq, Repr

/-- The intern tables. -/
inductive TableName where
  | instances (id : TypeId)
  | unbound
  | arrays
  | pointers
  | functionPointers
  deriving DecidableEq

/-- The table that a shape is looked up in. -/
def Shape.table : Shape → TableName
  | .instanceOf id _ _ => .instances id
  | .unbound _ _ _ => .unbound
  | .array _ _ => .arrays
  | .pointer _ => .pointers
  | .functionPointer _ => .functionPointers

/-- What interning has to know of a declared type. -/
structure Declared where
  arity : Nat
  lexical : Option Ref

/-- The type parameters of a declared type, as objects. -/
def parametersOf (id : TypeId) (arity : Nat) : List Ref :=
  (List.range arity).map fun i => .parameter (.ofType id i)

/-- The declared types, the heap, and the intern tables. -/
structure Store where
  declared : List Declared := []
  heap : List Shape := []
  tables : TableName → List (Shape × Ref) := fun _ => []

namespace Store

variable {s : Store}

/-! ### Reading -/

/-- The number of type parameters of a declared type. -/
def arity (s : Store) (id : TypeId) : Nat :=
  (s.declared[id.index]?.map (·.arity)).getD 0

/-- The object that lexically contains a declared type. -/
def lexical (s : Store) (id : TypeId) : Option Ref :=
  s.declared[id.index]?.bind (·.lexical)

/-- The type parameters of a declared type. -/
def ownParameters (s : Store) (id : TypeId) : List Ref :=
  parametersOf id (s.arity id)

/-- What an object is made of, if it is a type with parts; a declared type counts as the instance
over its own type parameters. -/
def shape? (s : Store) : Ref → Option Shape
  | .definition id => some (.instanceOf id none (s.ownParameters id))
  | .made place => s.heap[place]?
  | .parameter _ => none
  | .dynamic => none

/-- The declared type that an object is an instance of. -/
def definition? (s : Store) : Ref → Option TypeId
  | .definition id => some id
  | .made place =>
    match s.heap[place]? with
    | some (.instanceOf id _ _) => some id
    | _ => none
  | .parameter _ => none
  | .dynamic => none

/-- The containing type that an object was given when it was made. -/
def givenOuter? (s : Store) : Ref → Option Ref
  | .made place =>
    match s.heap[place]? with
    | some (.instanceOf _ outer _) => outer
    | _ => none
  | _ => none

/-- The type arguments of an instance. -/
def arguments (s : Store) : Ref → List Ref
  | .definition id => s.ownParameters id
  | .made place =>
    match s.heap[place]? with
    | some (.instanceOf _ _ args) => args
    | _ => []
  | _ => []

/-- The containing type of an instance: the one given to it, else the lexical one. -/
def outer? (s : Store) (r : Ref) : Option Ref :=
  s.givenOuter? r <|> (s.definition? r).bind s.lexical

/-- The object is an instance of a declared type or an unbound name. -/
def isNamed (s : Store) : Ref → Bool
  | .definition _ => true
  | .made place =>
    match s.heap[place]? with
    | some (.instanceOf _ _ _) => true
    | some (.unbound _ _ _) => true
    | _ => false
  | .parameter _ => false
  | .dynamic => false

/-- The object is there. -/
def Valid (s : Store) : Ref → Prop
  | .definition id => id.index < s.declared.length
  | .made place => place < s.heap.length
  | .parameter _ => True
  | .dynamic => True

/-! ### Making -/

/-- The object of a shape: the one that its table has, else a new one at the end of the heap. -/
def intern (s : Store) (shape : Shape) : Store × Ref :=
  match (s.tables shape.table).lookup shape with
  | some r => (s, r)
  | none =>
    ({ s with
       heap := s.heap ++ [shape]
       tables := fun name =>
        if name = shape.table then (shape, .made s.heap.length) :: s.tables name
        else s.tables name },
     .made s.heap.length)

/-- The instance over `args` of the declared type that `r` is an instance of, in `outer` or else
in the type that `r` was given.  The lexical container is never stored. -/
def construct (s : Store) (r : Ref) (args : List Ref) (outer : Option Ref) :
    Option (Store × Ref) :=
  match s.definition? r with
  | none => none
  | some id =>
    if args.length = s.arity id then
      let asked := outer <|> s.givenOuter? r
      let stored := if asked = s.lexical id then none else asked
      if stored = none ∧ args = s.ownParameters id then some (s, .definition id)
      else some (s.intern (.instanceOf id stored args))
    else none

/-! ### The invariant -/

/-- An instance has as many arguments as its definition has type parameters, and the shape is no
other spelling of a shape that is stored in another way: no instance keeps its lexical container,
and none is the declared type itself. -/
def Normal (s : Store) : Shape → Prop
  | .instanceOf id (some outer) args => args.length = s.arity id ∧ s.lexical id ≠ some outer
  | .instanceOf id none args => args.length = s.arity id ∧ args ≠ s.ownParameters id
  | _ => True

/-- What every call keeps: a table leads to an object of the shape it is asked for, every object
is found in the table of its shape, and only normal shapes are stored. -/
structure Canonical (s : Store) : Prop where
  tabled : ∀ name shape r, (s.tables name).lookup shape = some r →
    ∃ place, r = .made place ∧ s.heap[place]? = some shape
  found : ∀ (place : Nat) (shape : Shape), s.heap[place]? = some shape →
    (s.tables shape.table).lookup shape = some (.made place)
  normal : ∀ (place : Nat) (shape : Shape), s.heap[place]? = some shape → s.Normal shape

theorem canonical_empty : Canonical {} := by
  constructor
  · intro name shape r h
    simp at h
  · intro place shape h
    simp at h
  · intro place shape h
    simp at h

theorem Canonical.ne_definition (h : s.Canonical) {place : Nat} {id : TypeId}
    (hp : s.heap[place]? = some (.instanceOf id none (s.ownParameters id))) : False :=
  (h.normal place _ hp).2 rfl

/-- **One shape, one object.**  Two objects of a canonical store that are made of the same parts
are the same object. -/
theorem Canonical.eq_of_shape? (h : s.Canonical) {a b : Ref} {shape : Shape}
    (ha : s.shape? a = some shape) (hb : s.shape? b = some shape) : a = b := by
  cases a with
  | parameter p => simp [shape?] at ha
  | dynamic => simp [shape?] at ha
  | definition id =>
    cases b with
    | parameter p => simp [shape?] at hb
    | dynamic => simp [shape?] at hb
    | definition id' =>
      have he : Shape.instanceOf id none (s.ownParameters id)
          = .instanceOf id' none (s.ownParameters id') := by
        rw [← Option.some.injEq]
        exact ha.trans hb.symm
      cases he
      rfl
    | made place =>
      have hp : s.heap[place]? = some (.instanceOf id none (s.ownParameters id)) :=
        hb.trans ha.symm
      exact (h.ne_definition hp).elim
  | made place =>
    cases b with
    | parameter p => simp [shape?] at hb
    | dynamic => simp [shape?] at hb
    | definition id =>
      have hp : s.heap[place]? = some (.instanceOf id none (s.ownParameters id)) :=
        ha.trans hb.symm
      exact (h.ne_definition hp).elim
    | made place' =>
      have hl := h.found place shape ha
      rw [h.found place' shape hb] at hl
      exact (Option.some.inj hl).symm

/-- Only type parameters and the dynamic type have no shape. -/
theorem eq_of_shape?_eq_none {r : Ref} (hv : s.Valid r) (hr : s.shape? r = none) :
    (∃ p, r = .parameter p) ∨ r = .dynamic := by
  cases r with
  | parameter p => exact Or.inl ⟨p, rfl⟩
  | dynamic => exact Or.inr rfl
  | definition id => cases hr
  | made place =>
    rw [shape?, List.getElem?_eq_getElem hv] at hr
    cases hr

/-- An instance is made of its definition, the containing type that it was given and its
arguments. -/
theorem shape?_of_definition? {r : Ref} {id : TypeId} (hd : s.definition? r = some id) :
    s.shape? r = some (.instanceOf id (s.givenOuter? r) (s.arguments r)) := by
  cases r with
  | parameter p => cases hd
  | dynamic => cases hd
  | definition id' =>
    cases hd
    rfl
  | made place =>
    cases hp : s.heap[place]? with
    | none => simp [definition?, hp] at hd
    | some shape =>
      cases shape with
      | instanceOf id' o args =>
        simp only [definition?, hp, Option.some.injEq] at hd
        subst hd
        simp only [shape?, givenOuter?, arguments, hp]
      | _ => simp [definition?, hp] at hd

/-! ### What interning does -/

/-- What is found on a heap with one more object: an old object, or the new one at the end. -/
theorem getElem?_concat_iff {heap : List Shape} {shape other : Shape} {place : Nat} :
    (heap ++ [shape])[place]? = some other ↔
      heap[place]? = some other ∨ place = heap.length ∧ shape = other := by
  by_cases hlt : place < heap.length
  · rw [List.getElem?_append_left hlt]
    refine ⟨Or.inl, fun h => h.elim id fun h => ?_⟩
    omega
  · rw [List.getElem?_append_right (by omega), List.getElem?_eq_none (by omega : heap.length ≤ place)]
    constructor
    · intro h
      have hz : place - heap.length = 0 := by
        have := (List.getElem?_eq_some_iff.mp h).1
        simp only [List.length_singleton] at this
        omega
      rw [hz] at h
      exact Or.inr ⟨by omega, Option.some.inj h⟩
    · rintro (h | ⟨rfl, rfl⟩)
      · cases h
      · rw [Nat.sub_self]
        rfl

/-- The store `t` has everything that `s` has, at the same places. -/
structure Extends (s t : Store) : Prop where
  heap : ∀ (place : Nat) (shape : Shape), s.heap[place]? = some shape → t.heap[place]? = some shape
  declared : ∀ (i : Nat) (d : Declared), s.declared[i]? = some d → t.declared[i]? = some d

theorem Extends.refl (s : Store) : Extends s s :=
  ⟨fun _ _ h => h, fun _ _ h => h⟩

theorem Extends.trans {t u : Store} (h : Extends s t) (h' : Extends t u) : Extends s u :=
  ⟨fun place shape hp => h'.heap place shape (h.heap place shape hp),
    fun i d hd => h'.declared i d (h.declared i d hd)⟩

theorem Extends.valid {t : Store} (h : Extends s t) {r : Ref} (hr : s.Valid r) : t.Valid r := by
  cases r with
  | parameter p => trivial
  | dynamic => trivial
  | definition id =>
    exact (List.getElem?_eq_some_iff.mp (h.declared _ _ (List.getElem?_eq_getElem hr))).1
  | made place =>
    exact (List.getElem?_eq_some_iff.mp (h.heap _ _ (List.getElem?_eq_getElem hr))).1

theorem Extends.arity {t : Store} (h : Extends s t) {id : TypeId}
    (hid : id.index < s.declared.length) : t.arity id = s.arity id := by
  have hd := List.getElem?_eq_getElem hid
  simp only [Store.arity, hd, h.declared _ _ hd]

theorem Extends.lexical {t : Store} (h : Extends s t) {id : TypeId}
    (hid : id.index < s.declared.length) : t.lexical id = s.lexical id := by
  have hd := List.getElem?_eq_getElem hid
  simp only [Store.lexical, hd, h.declared _ _ hd]

theorem Extends.shape? {t : Store} (h : Extends s t) {r : Ref} (hr : s.Valid r) :
    t.shape? r = s.shape? r := by
  cases r with
  | parameter p => rfl
  | dynamic => rfl
  | definition id => simp only [Store.shape?, ownParameters, h.arity hr]
  | made place =>
    have hp := List.getElem?_eq_getElem hr
    have hp' := h.heap _ _ hp
    simp only [Store.shape?, hp, hp']

/-- Interning leaves what is declared as it is. -/
@[simp]
theorem intern_declared (s : Store) (shape : Shape) :
    (s.intern shape).1.declared = s.declared := by
  unfold intern
  split <;> rfl

theorem intern_extends (s : Store) (shape : Shape) : Extends s (s.intern shape).1 := by
  unfold intern
  split
  · exact Extends.refl s
  · exact ⟨fun place old h => getElem?_concat_iff.mpr (Or.inl h), fun i d h => h⟩

/-- The object that interning answers is made of the shape that was asked for. -/
theorem intern_shape? (h : s.Canonical) (shape : Shape) :
    (s.intern shape).1.shape? (s.intern shape).2 = some shape := by
  unfold intern
  split
  · next r hr =>
    obtain ⟨place, rfl, hp⟩ := h.tabled _ _ _ hr
    exact hp
  · exact getElem?_concat_iff.mpr (Or.inr ⟨rfl, rfl⟩)

theorem normal_congr {t : Store} (h : t.declared = s.declared) {shape : Shape} :
    t.Normal shape ↔ s.Normal shape := by
  cases shape with
  | instanceOf id outer args =>
    cases outer with
    | none => simp only [Normal, ownParameters, arity, h]
    | some o => simp only [Normal, lexical, arity, h]
  | _ => exact Iff.rfl

/-- Interning a normal shape keeps the store canonical. -/
theorem Canonical.intern (h : s.Canonical) {shape : Shape} (hn : s.Normal shape) :
    (s.intern shape).1.Canonical := by
  unfold Store.intern
  split
  · exact h
  · next hnone =>
    refine ⟨fun name other r hr => ?_, fun place other hp => ?_, fun place other hp => ?_⟩
    · -- an entry of a table is an old one, or the one that was just made
      by_cases hnew : name = shape.table ∧ other = shape
      · obtain ⟨rfl, rfl⟩ := hnew
        simp only [↓reduceIte, List.lookup_cons_self, Option.some.injEq] at hr
        exact ⟨_, hr.symm, getElem?_concat_iff.mpr (Or.inr ⟨rfl, rfl⟩)⟩
      · have hold : (s.tables name).lookup other = some r := by
          by_cases hname : name = shape.table
          · have hne : (other == shape) = false := by
              simpa using fun he => hnew ⟨hname, he⟩
            simpa only [hname, ↓reduceIte, List.lookup_cons, hne] using hr
          · simpa only [hname, ↓reduceIte] using hr
        obtain ⟨place, rfl, hp⟩ := h.tabled name other r hold
        exact ⟨place, rfl, getElem?_concat_iff.mpr (Or.inl hp)⟩
    · rcases getElem?_concat_iff.mp hp with hp | ⟨rfl, rfl⟩
      · have hold := h.found place other hp
        have hne : (other == shape) = false := by
          refine beq_eq_false_iff_ne.mpr fun he => ?_
          rw [he, hnone] at hold
          cases hold
        by_cases hname : other.table = shape.table
        · simpa only [hname, ↓reduceIte, List.lookup_cons, hne] using hname ▸ hold
        · simpa only [hname, ↓reduceIte] using hold
      · simp only [↓reduceIte, List.lookup_cons_self]
    · refine (normal_congr (s := s) rfl).mpr ?_
      rcases getElem?_concat_iff.mp hp with hp | ⟨-, rfl⟩
      · exact h.normal place other hp
      · exact hn

end Store

end ExtensionCensus.Interning
