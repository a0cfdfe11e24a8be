import ExtensionCensus.Proofs.Interning.Store
import ExtensionCensus.Proofs.Symbol.Growth

/-!
# The terms that interned objects stand for

Every object of a store stands for a type expression.  The terms of the heap are kept in a list
beside it, one for each place.

* `typeOf` — the term of an object, and `Shape.type` — the term of a shape, given those of its
  parts;
* `Reads` — the invariant that ties a store to a symbol table and to the terms of its heap;
* `Reads.typeOf_injective` — in a canonical store different objects stand for different terms;
* `answered_intern`, `answered_declare` — interning adds the term of the shape, declaring adds none,
  and all old terms stay as they are.
-/

namespace ExtensionCensus.Interning

/-! ### Terms of objects -/

/-- The term of an object, where `terms` holds those of the heap. -/
def typeOf (table : SymbolTable) (terms : List Ty) : Ref → Ty
  | .definition id => table.definitionType id
  | .parameter p => .parameter p
  | .dynamic => .dynamic
  | .made place => terms[place]?.getD .dynamic

/-- The term of a shape, given the terms of its parts. -/
def Shape.type (table : SymbolTable) (f : Ref → Ty) : Shape → Ty
  | .instanceOf id none args => .named (.declared id) (table.lexicalOuter id) (args.map f)
  | .instanceOf id (some outer) args => .named (.declared id) (some (f outer)) (args.map f)
  | .unbound outer name args => .named (.unbound name) (outer.map f) (args.map f)
  | .array element rank => .array (f element) rank
  | .pointer target => .pointer (f target)
  | .functionPointer signature => .functionPointer signature

/-- The objects that a shape refers to. -/
def Shape.parts : Shape → List Ref
  | .instanceOf id outer args => .definition id :: (outer.toList ++ args)
  | .unbound outer _ args => outer.toList ++ args
  | .array element _ => [element]
  | .pointer target => [target]
  | .functionPointer _ => []

/-- The store and the symbol table declare the same types, and `terms` are the terms of the
heap. -/
structure Reads (s : Store) (table : SymbolTable) (terms : List Ty) : Prop where
  length : terms.length = s.heap.length
  size : table.definitions.size = s.declared.length
  arity : ∀ id, table.arity id = s.arity id
  lexical : ∀ id, table.lexicalOuter id = (s.lexical id).map (typeOf table terms)
  lexical_valid : ∀ id r, s.lexical id = some r → s.Valid r
  term : ∀ (place : Nat) (shape : Shape), s.heap[place]? = some shape →
    terms[place]? = some (shape.type table (typeOf table terms))
  parts : ∀ (place : Nat) (shape : Shape), s.heap[place]? = some shape →
    ∀ r ∈ shape.parts, s.Valid r

theorem reads_empty : Reads {} {} [] := by
  refine ⟨rfl, rfl, fun id => rfl, fun id => rfl, ?_, ?_, ?_⟩
  · intro id r hr
    cases hr
  · intro place shape hp
    cases hp
  · intro place shape hp
    cases hp

/-! ### One term, one object -/

/-- Lists with equal images are equal where the function is injective on their elements. -/
theorem eq_of_map_eq {α β : Type} {f : α → β} {xs ys : List α}
    (hf : ∀ x ∈ xs, ∀ y ∈ ys, f x = f y → x = y) (h : xs.map f = ys.map f) : xs = ys := by
  induction xs generalizing ys with
  | nil =>
    cases ys with
    | nil => rfl
    | cons y ys => simp at h
  | cons x xs ih =>
    cases ys with
    | nil => simp at h
    | cons y ys =>
      rw [List.map_cons, List.map_cons] at h
      injection h with hx hxs
      have he : x = y := hf x (by simp) y (by simp) hx
      have hes : xs = ys :=
        ih (fun a ha b hb => hf a (by simp [ha]) b (by simp [hb])) hxs
      rw [he, hes]

/-- The arguments of a named type are smaller than the type. -/
theorem sizeOf_argument_lt {f : Ref → Ty} {r : Ref} {args : List Ref} (h : r ∈ args)
    (head : TypeHead) (outer : Option Ty) :
    sizeOf (f r) < sizeOf (Ty.named head outer (args.map f)) := by
  have hs := List.sizeOf_lt_of_mem (List.mem_map_of_mem (f := f) h)
  simp only [Ty.named.sizeOf_spec]
  omega

/-- A containing type is smaller than the type in it. -/
theorem sizeOf_outer_lt (t : Ty) (head : TypeHead) (args : List Ty) :
    sizeOf t < sizeOf (Ty.named head (some t) args) := by
  simp only [Ty.named.sizeOf_spec, Option.some.sizeOf_spec]
  omega

namespace Reads

variable {s : Store} {table : SymbolTable} {terms : List Ty}

/-- The term of an object is the term of its shape. -/
theorem typeOf_eq (h : Reads s table terms) {r : Ref} {shape : Shape}
    (hr : s.shape? r = some shape) :
    typeOf table terms r = shape.type table (typeOf table terms) := by
  cases r with
  | parameter p => cases hr
  | dynamic => cases hr
  | definition id =>
    cases hr
    have ha : (table.definition id).typeParameters.length = s.arity id := h.arity id
    show Ty.named _ _ _ = Ty.named _ _ _
    rw [SymbolTable.typeParametersOf, ha, Store.ownParameters, parametersOf, List.map_map,
      List.map_map]
    rfl
  | made place =>
    show (terms[place]?).getD .dynamic = _
    rw [h.term place shape hr]
    rfl

theorem shape_parts_valid (h : Reads s table terms) {r : Ref} {shape : Shape}
    (hv : s.Valid r) (hr : s.shape? r = some shape) : ∀ p ∈ shape.parts, s.Valid p := by
  cases r with
  | parameter p => cases hr
  | dynamic => cases hr
  | made place => exact h.parts place shape hr
  | definition id =>
    cases hr
    intro p hp
    simp only [Shape.parts, Option.toList_none, List.nil_append, List.mem_cons] at hp
    rcases hp with rfl | hp
    · exact hv
    · obtain ⟨i, -, rfl⟩ := List.mem_map.mp hp
      trivial

/-- No object keeps the lexical container of its definition as a containing type of its own. -/
theorem lexical_ne_of_shape? (hc : s.Canonical) {r : Ref} {id : TypeId} {outer : Ref}
    {args : List Ref} (hr : s.shape? r = some (.instanceOf id (some outer) args)) :
    s.lexical id ≠ some outer := by
  cases r with
  | parameter p => cases hr
  | dynamic => cases hr
  | definition id' => cases hr
  | made place => exact (hc.normal place _ hr).2

/-- An instance without a containing type is no other instance with one: its term has the lexical
container there, and that is never stored. -/
theorem outer_ne (h : Reads s table terms) {id : TypeId} {outer : Ref}
    (hne : s.lexical id ≠ some outer)
    (hinj : ∀ r, s.Valid r → typeOf table terms r = typeOf table terms outer → r = outer) :
    table.lexicalOuter id ≠ some (typeOf table terms outer) := by
  intro he
  rw [h.lexical id] at he
  obtain ⟨r, hr, ht⟩ := Option.map_eq_some_iff.mp he
  rw [hinj r (h.lexical_valid id r hr) ht] at hr
  exact hne hr

/-- Objects with terms smaller than `bound` are told apart by them. -/
def ToldApart (s : Store) (table : SymbolTable) (terms : List Ty) (bound : Nat) : Prop :=
  ∀ a b, s.Valid a → s.Valid b → sizeOf (typeOf table terms a) < bound →
    typeOf table terms a = typeOf table terms b → a = b

/-- Arguments are told apart one by one. -/
theorem arguments_eq {head : TypeHead} {outer : Option Ty} {as bs : List Ref}
    (ih : ToldApart s table terms (sizeOf (Ty.named head outer (as.map (typeOf table terms)))))
    (has : ∀ a ∈ as, s.Valid a) (hbs : ∀ b ∈ bs, s.Valid b)
    (h : as.map (typeOf table terms) = bs.map (typeOf table terms)) : as = bs :=
  eq_of_map_eq (fun a ha b hb hab =>
    ih a b (has a ha) (hbs b hb) (sizeOf_argument_lt ha head outer) hab) h

/-- Containing types are told apart. -/
theorem outer_eq {head : TypeHead} {o o' : Option Ref} {args : List Ty}
    (ih : ToldApart s table terms (sizeOf (Ty.named head (o.map (typeOf table terms)) args)))
    (ho : ∀ a ∈ o.toList, s.Valid a) (ho' : ∀ b ∈ o'.toList, s.Valid b)
    (h : o.map (typeOf table terms) = o'.map (typeOf table terms)) : o = o' := by
  cases o with
  | none =>
    cases o' with
    | none => rfl
    | some b => cases h
  | some a =>
    cases o' with
    | none => cases h
    | some b =>
      have hab := ih a b (ho a (by simp)) (ho' b (by simp)) (sizeOf_outer_lt _ _ _)
        (Option.some.inj h)
      rw [hab]

/-- Two instances with one term are one instance. -/
theorem instance_eq (h : Reads s table terms) {id id' : TypeId} {o o' : Option Ref}
    {as bs : List Ref} (hx : ∀ p ∈ (Shape.instanceOf id o as).parts, s.Valid p)
    (hy : ∀ p ∈ (Shape.instanceOf id' o' bs).parts, s.Valid p)
    (hxo : ∀ outer, o = some outer → s.lexical id ≠ some outer)
    (hyo : ∀ outer, o' = some outer → s.lexical id' ≠ some outer)
    (ih : ToldApart s table terms
      (sizeOf ((Shape.instanceOf id o as).type table (typeOf table terms))))
    (he : (Shape.instanceOf id o as).type table (typeOf table terms)
      = (Shape.instanceOf id' o' bs).type table (typeOf table terms)) :
    Shape.instanceOf id o as = Shape.instanceOf id' o' bs := by
  have has : ∀ a ∈ as, s.Valid a := fun a ha => hx a (by simp [Shape.parts, ha])
  have hbs : ∀ b ∈ bs, s.Valid b := fun b hb => hy b (by simp [Shape.parts, hb])
  cases o with
  | none =>
    cases o' with
    | none =>
      simp only [Shape.type, Ty.named.injEq, TypeHead.declared.injEq] at he
      obtain ⟨rfl, -, hm⟩ := he
      rw [arguments_eq ih has hbs hm]
    | some b =>
      simp only [Shape.type, Ty.named.injEq, TypeHead.declared.injEq] at he
      obtain ⟨rfl, ho, -⟩ := he
      refine absurd ho (h.outer_ne (hyo b rfl) fun r hr hrb => ?_)
      refine ih r b hr (hy b (by simp [Shape.parts])) ?_ hrb
      show _ < sizeOf (Ty.named _ _ _)
      rw [ho, hrb]
      exact sizeOf_outer_lt _ _ _
  | some a =>
    cases o' with
    | none =>
      simp only [Shape.type, Ty.named.injEq, TypeHead.declared.injEq] at he
      obtain ⟨rfl, ho, -⟩ := he
      refine absurd ho.symm (h.outer_ne (hxo a rfl) fun r hr hra => ?_)
      refine ih r a hr (hx a (by simp [Shape.parts])) ?_ hra
      rw [hra]
      exact sizeOf_outer_lt _ _ _
    | some b =>
      simp only [Shape.type, Ty.named.injEq, TypeHead.declared.injEq, Option.some.injEq] at he
      obtain ⟨rfl, ho, hm⟩ := he
      have hab : a = b := ih a b (hx a (by simp [Shape.parts])) (hy b (by simp [Shape.parts]))
        (sizeOf_outer_lt _ _ _) ho
      rw [arguments_eq ih has hbs hm, hab]

/-- Two shapes with one term are one shape, if objects with smaller terms are told apart by
them. -/
theorem shape_eq (h : Reads s table terms) {x y : Shape}
    (hx : ∀ p ∈ x.parts, s.Valid p) (hy : ∀ p ∈ y.parts, s.Valid p)
    (hxo : ∀ id outer args, x = .instanceOf id (some outer) args → s.lexical id ≠ some outer)
    (hyo : ∀ id outer args, y = .instanceOf id (some outer) args → s.lexical id ≠ some outer)
    (ih : ToldApart s table terms (sizeOf (x.type table (typeOf table terms))))
    (he : x.type table (typeOf table terms) = y.type table (typeOf table terms)) : x = y := by
  cases x with
  | instanceOf id o as =>
    cases y with
    | instanceOf id' o' bs =>
      exact h.instance_eq hx hy (fun outer ho => hxo id outer as (ho ▸ rfl))
        (fun outer ho => hyo id' outer bs (ho ▸ rfl)) ih he
    | _ => cases o <;> simp [Shape.type] at he
  | unbound o name as =>
    cases y with
    | instanceOf id' o' bs => cases o' <;> simp [Shape.type] at he
    | unbound o' name' bs =>
      simp only [Shape.type, Ty.named.injEq, TypeHead.unbound.injEq] at he
      obtain ⟨rfl, ho, hm⟩ := he
      have hargs := arguments_eq ih (fun a ha => hx a (by simp [Shape.parts, ha]))
        (fun b hb => hy b (by simp [Shape.parts, hb])) hm
      have houter := outer_eq ih (fun a ha => hx a (List.mem_append_left _ ha))
        (fun b hb => hy b (List.mem_append_left _ hb)) ho
      rw [hargs, houter]
    | _ => simp [Shape.type] at he
  | array e n =>
    cases y with
    | instanceOf id' o' bs => cases o' <;> simp [Shape.type] at he
    | array e' n' =>
      simp only [Shape.type, Ty.array.injEq] at he
      have hee := ih e e' (hx e (by simp [Shape.parts])) (hy e' (by simp [Shape.parts]))
        (by simp only [Shape.type, Ty.array.sizeOf_spec]; omega) he.1
      rw [hee, he.2]
    | _ => simp [Shape.type] at he
  | pointer e =>
    cases y with
    | instanceOf id' o' bs => cases o' <;> simp [Shape.type] at he
    | pointer e' =>
      simp only [Shape.type, Ty.pointer.injEq] at he
      have hee := ih e e' (hx e (by simp [Shape.parts])) (hy e' (by simp [Shape.parts]))
        (by simp only [Shape.type, Ty.pointer.sizeOf_spec]; omega) he
      rw [hee]
    | _ => simp [Shape.type] at he
  | functionPointer t =>
    cases y with
    | instanceOf id' o' bs => cases o' <;> simp [Shape.type] at he
    | functionPointer t' =>
      simp only [Shape.type, Ty.functionPointer.injEq] at he
      rw [he]
    | _ => simp [Shape.type] at he

/-- No shape has the term of a type parameter or of the dynamic type. -/
theorem shape?_ne_none {r : Ref} (hv : s.Valid r) {shape : Shape}
    (ht : typeOf table terms r = shape.type table (typeOf table terms)) :
    ∃ own, s.shape? r = some own := by
  have hshape : (∀ p, shape.type table (typeOf table terms) ≠ .parameter p) ∧
      shape.type table (typeOf table terms) ≠ .dynamic := by
    cases shape with
    | instanceOf id o args => cases o <;> simp [Shape.type]
    | _ => simp [Shape.type]
  cases r with
  | parameter p => exact absurd ht.symm (hshape.1 p)
  | dynamic => exact absurd ht.symm hshape.2
  | definition id => exact ⟨_, rfl⟩
  | made place => exact ⟨_, List.getElem?_eq_getElem hv⟩

/-- **One term, one object.**  In a canonical store objects with equal terms are the same
object. -/
theorem typeOf_injective (h : Reads s table terms) (hc : s.Canonical) {a b : Ref}
    (ha : s.Valid a) (hb : s.Valid b) (he : typeOf table terms a = typeOf table terms b) :
    a = b := by
  -- induction on the size of the term
  suffices hn : ∀ n a b, s.Valid a → s.Valid b → sizeOf (typeOf table terms a) < n →
      typeOf table terms a = typeOf table terms b → a = b from
    hn _ a b ha hb (Nat.lt_succ_self _) he
  intro n
  induction n with
  | zero => intro a b _ _ hlt; omega
  | succ n ih =>
    intro a b ha hb hlt he
    cases hsa : s.shape? a with
    | none =>
      cases hsb : s.shape? b with
      | none =>
        rcases Store.eq_of_shape?_eq_none ha hsa with ⟨p, rfl⟩ | rfl <;>
          rcases Store.eq_of_shape?_eq_none hb hsb with ⟨q, rfl⟩ | rfl
        · injection he with hpq
          rw [hpq]
        · cases he
        · cases he
        · rfl
      | some y =>
        obtain ⟨own, hown⟩ := shape?_ne_none ha (he.trans (h.typeOf_eq hsb))
        rw [hsa] at hown
        cases hown
    | some x =>
      obtain ⟨y, hsb⟩ := shape?_ne_none hb (he.symm.trans (h.typeOf_eq hsa))
      rw [h.typeOf_eq hsa] at hlt
      have hxy : x = y := by
        refine h.shape_eq (h.shape_parts_valid ha hsa) (h.shape_parts_valid hb hsb)
          (fun id o args hx => lexical_ne_of_shape? hc (hx ▸ hsa))
          (fun id o args hy => lexical_ne_of_shape? hc (hy ▸ hsb)) ?_ ?_
        · intro p q hp hq hpx hpq
          exact ih p q hp hq (by omega) hpq
        · rw [← h.typeOf_eq hsa, ← h.typeOf_eq hsb]
          exact he
      exact hc.eq_of_shape? hsa (hxy ▸ hsb)

/-! ### What a call adds -/

/-- The terms of the parts of a shape decide its term. -/
theorem shape_type_congr {shape : Shape} {table' : SymbolTable} {f g : Ref → Ty}
    (hl : ∀ id, .definition id ∈ shape.parts → table'.lexicalOuter id = table.lexicalOuter id)
    (hfg : ∀ r ∈ shape.parts, g r = f r) : shape.type table' g = shape.type table f := by
  cases shape with
  | instanceOf id o args =>
    have ha : args.map g = args.map f :=
      List.map_inj_left.mpr fun r hr => hfg r (by simp [Shape.parts, hr])
    cases o with
    | none => simp only [Shape.type, ha, hl id (by simp [Shape.parts])]
    | some outer => simp only [Shape.type, ha, hfg outer (by simp [Shape.parts])]
  | unbound o name args =>
    have ha : args.map g = args.map f :=
      List.map_inj_left.mpr fun r hr => hfg r (by simp [Shape.parts, hr])
    cases o with
    | none => simp only [Shape.type, ha, Option.map_none]
    | some outer => simp only [Shape.type, ha, Option.map_some, hfg outer (by simp [Shape.parts])]
  | array e n => simp only [Shape.type, hfg e (by simp [Shape.parts])]
  | pointer e => simp only [Shape.type, hfg e (by simp [Shape.parts])]
  | functionPointer t => rfl

/-- Objects that were there before keep their terms when a term is added. -/
theorem typeOf_concat (h : Reads s table terms) (t : Ty) {r : Ref} (hr : s.Valid r) :
    typeOf table (terms ++ [t]) r = typeOf table terms r := by
  cases r with
  | made place =>
    have hlt : place < terms.length := h.length ▸ hr
    simp only [typeOf, List.getElem?_append_left hlt]
  | _ => rfl

end Reads

/-- What a step leaves behind when it answers `r`: canonical and tied to the terms as before, with
the old objects and their terms untouched. -/
structure Answered (s : Store) (table : SymbolTable) (terms : List Ty) (t : Store)
    (table' : SymbolTable) (terms' : List Ty) (r : Ref) : Prop where
  canonical : t.Canonical
  reads : Reads t table' terms'
  grows : Store.Extends s t
  stable : ∀ p, s.Valid p → typeOf table' terms' p = typeOf table terms p
  valid : t.Valid r

section

variable {s : Store} {table : SymbolTable} {terms : List Ty}

theorem answered_same (hc : s.Canonical) (h : Reads s table terms) {r : Ref} (hr : s.Valid r) :
    Answered s table terms s table terms r :=
  ⟨hc, h, Store.Extends.refl s, fun _ _ => rfl, hr⟩

/-- Adding the term of a shape whose parts are there. -/
theorem Reads.concat (h : Reads s table terms) {t : Store} {shape : Shape}
    (hheap : t.heap = s.heap ++ [shape]) (hdeclared : t.declared = s.declared)
    (hp : ∀ p ∈ shape.parts, s.Valid p) :
    Reads t table (terms ++ [shape.type table (typeOf table terms)]) := by
  have hg : Store.Extends s t := by
    refine ⟨fun place old ho => ?_, fun i d hd => ?_⟩
    · rw [hheap]
      exact Store.getElem?_concat_iff.mpr (Or.inl ho)
    · rw [hdeclared]
      exact hd
  have hstable : ∀ p, s.Valid p → typeOf table (terms ++ [shape.type table (typeOf table terms)]) p
      = typeOf table terms p := fun p hp => h.typeOf_concat _ hp
  have hlexical : ∀ id, t.lexical id = s.lexical id := fun id => by
    rw [Store.lexical, Store.lexical, hdeclared]
  refine ⟨?_, ?_, fun id => ?_, fun id => ?_, fun id r hr => ?_, fun place old ho => ?_,
    fun place old ho p hpo => ?_⟩
  · rw [hheap, List.length_append, List.length_append, h.length]
    rfl
  · rw [hdeclared]
    exact h.size
  · rw [h.arity id, Store.arity, Store.arity, hdeclared]
  · rw [hlexical, h.lexical id]
    exact (Option.map_congr fun r hr => hstable r (h.lexical_valid id r hr)).symm
  · rw [hlexical] at hr
    exact hg.valid (h.lexical_valid id r hr)
  · rw [hheap] at ho
    rcases Store.getElem?_concat_iff.mp ho with ho | ⟨rfl, rfl⟩
    · have hlt : place < terms.length := (List.getElem?_eq_some_iff.mp (h.term place old ho)).1
      rw [List.getElem?_append_left hlt, h.term place old ho]
      refine congrArg some (Reads.shape_type_congr (fun _ _ => rfl) fun p hpo => ?_).symm
      exact hstable p (h.parts place old ho p hpo)
    · rw [← h.length, List.getElem?_append_right (Nat.le_refl _), Nat.sub_self]
      refine congrArg some (Reads.shape_type_congr (fun _ _ => rfl) fun p hpo => ?_).symm
      exact hstable p (hp p hpo)
  · rw [hheap] at ho
    refine hg.valid ?_
    rcases Store.getElem?_concat_iff.mp ho with ho | ⟨-, rfl⟩
    · exact h.parts place old ho p hpo
    · exact hp p hpo

/-- Interning a normal shape whose parts are there. -/
theorem answered_intern (hc : s.Canonical) (h : Reads s table terms) {shape : Shape}
    (hn : s.Normal shape) (hp : ∀ p ∈ shape.parts, s.Valid p) :
    ∃ terms', Answered s table terms (s.intern shape).1 table terms' (s.intern shape).2 := by
  cases hl : (s.tables shape.table).lookup shape with
  | some r =>
    obtain ⟨place, rfl, hplace⟩ := hc.tabled _ _ _ hl
    have hi : s.intern shape = (s, .made place) := by rw [Store.intern, hl]
    rw [hi]
    exact ⟨terms, answered_same hc h (List.getElem?_eq_some_iff.mp hplace).1⟩
  | none =>
    have hheap : (s.intern shape).1.heap = s.heap ++ [shape] := by rw [Store.intern, hl]
    have hi : (s.intern shape).2 = .made s.heap.length := by rw [Store.intern, hl]
    refine ⟨terms ++ [shape.type table (typeOf table terms)], hc.intern hn,
      h.concat hheap (Store.intern_declared s shape) hp, Store.intern_extends s shape,
      fun p hp => h.typeOf_concat _ hp, ?_⟩
    rw [hi]
    show s.heap.length < (s.intern shape).1.heap.length
    rw [hheap, List.length_append]
    exact Nat.lt_succ_self _

/-! ### Declaring a type -/

/-- The store with one more declared type. -/
def Store.withDeclared (s : Store) (d : Declared) : Store :=
  { s with declared := s.declared ++ [d] }

theorem Store.extends_withDeclared (s : Store) (d : Declared) :
    Store.Extends s (s.withDeclared d) := by
  refine ⟨fun _ _ hp => hp, fun i e he => ?_⟩
  rw [withDeclared, List.getElem?_append_left (List.getElem?_eq_some_iff.mp he).1]
  exact he

/-- What is declared at a place is old, new, or not there. -/
theorem Store.declared_cases (s : Store) (d : Declared) (id : TypeId) :
    id.index < s.declared.length ∨
      (id.index = s.declared.length ∧ (s.withDeclared d).declared[id.index]? = some d) ∨
      (s.declared.length < id.index ∧ (s.withDeclared d).declared[id.index]? = none) := by
  rcases Nat.lt_trichotomy id.index s.declared.length with hlt | heq | hgt
  · exact Or.inl hlt
  · refine Or.inr (Or.inl ⟨heq, ?_⟩)
    rw [withDeclared, heq, List.getElem?_append_right (Nat.le_refl _), Nat.sub_self]
    rfl
  · refine Or.inr (Or.inr ⟨hgt, List.getElem?_eq_none ?_⟩)
    rw [withDeclared, List.length_append]
    exact hgt

@[simp]
theorem Store.arity_withDeclared (s : Store) (d : Declared) :
    (s.withDeclared d).arity ⟨s.declared.length⟩ = d.arity := by
  simp only [Store.arity, withDeclared, List.getElem?_append_right (Nat.le_refl _), Nat.sub_self,
    List.getElem?_cons_zero, Option.map_some, Option.getD_some]

/-- What is normal stays so. -/
theorem canonical_withDeclared (hc : s.Canonical) (h : Reads s table terms) (d : Declared) :
    (s.withDeclared d).Canonical := by
  have hg := s.extends_withDeclared d
  refine ⟨hc.tabled, hc.found, fun place shape hp => ?_⟩
  have hparts := h.parts place shape hp
  have hold := hc.normal place shape hp
  cases shape with
  | instanceOf id o args =>
    have hid : s.Valid (.definition id) := hparts _ (by simp [Shape.parts])
    cases o with
    | none =>
      show args.length = _ ∧ args ≠ parametersOf id _
      rw [hg.arity hid]
      exact hold
    | some o =>
      show args.length = _ ∧ _ ≠ some o
      rw [hg.arity hid, hg.lexical hid]
      exact hold
  | _ => trivial

/-- A definition that is past the last one is the default of both sides. -/
theorem Reads.past (h : Reads s table terms) (d : TypeDefinition) {id : TypeId}
    (hgt : s.declared.length < id.index) : (table.addDefinition d).definition id = default := by
  refine SymbolTable.definition_of_size_le ?_
  rw [SymbolTable.size_addDefinition, h.size]
  exact hgt

theorem Reads.eq_nextType (h : Reads s table terms) {id : TypeId}
    (heq : id.index = s.declared.length) : id = table.nextType :=
  SymbolTable.eq_nextType_iff.mpr (heq.trans h.size.symm)

/-- Old objects keep their terms when a type is declared. -/
theorem Reads.typeOf_addDefinition (h : Reads s table terms) (d : TypeDefinition) {p : Ref}
    (hp : s.Valid p) : typeOf (table.addDefinition d) terms p = typeOf table terms p := by
  have hk : SymbolTable.Keeps table (table.addDefinition d) := SymbolTable.keeps_addDefinition d
  cases p with
  | definition id => exact hk.definitionType (h.size ▸ hp)
  | _ => rfl

/-- The containing types of old and new definitions are told by the terms. -/
theorem Reads.lexical_addDefinition (h : Reads s table terms) {d : TypeDefinition}
    {outer : Option Ref} (hv : ∀ r ∈ outer.toList, s.Valid r)
    (hd : (match d.container with
      | .type t => some t
      | _ => none) = outer.map (typeOf table terms)) (id : TypeId) :
    (table.addDefinition d).lexicalOuter id
      = ((s.withDeclared ⟨d.typeParameters.length, outer⟩).lexical id).map
        (typeOf (table.addDefinition d) terms) := by
  have hg := s.extends_withDeclared ⟨d.typeParameters.length, outer⟩
  have hk : SymbolTable.Keeps table (table.addDefinition d) := SymbolTable.keeps_addDefinition d
  rcases s.declared_cases ⟨d.typeParameters.length, outer⟩ id with hlt | ⟨heq, hnew⟩ | ⟨hgt, hpast⟩
  · rw [hk.lexicalOuter (h.size ▸ hlt), hg.lexical hlt, h.lexical id]
    exact (Option.map_congr fun r hr =>
      h.typeOf_addDefinition d (h.lexical_valid id r hr)).symm
  · rw [SymbolTable.lexicalOuter, h.eq_nextType heq, SymbolTable.definition_addDefinition_nextType,
      ← h.eq_nextType heq]
    simp only [Store.lexical, hnew, Option.bind_some]
    refine hd.trans (Option.map_congr fun r hr => ?_).symm
    exact h.typeOf_addDefinition d (hv r (by rw [hr]; simp))
  · rw [SymbolTable.lexicalOuter, h.past d hgt]
    simp only [Store.lexical, hpast, Option.bind_none, Option.map_none]
    rfl

/-- Declaring one more type, in a container that is there. -/
theorem answered_declare (hc : s.Canonical) (h : Reads s table terms) {d : TypeDefinition}
    {outer : Option Ref} (hv : ∀ r ∈ outer.toList, s.Valid r)
    (hd : (match d.container with
      | .type t => some t
      | _ => none) = outer.map (typeOf table terms)) :
    Answered s table terms (s.withDeclared ⟨d.typeParameters.length, outer⟩)
      (table.addDefinition d) terms (.definition ⟨s.declared.length⟩) := by
  have hg := s.extends_withDeclared ⟨d.typeParameters.length, outer⟩
  have hk : SymbolTable.Keeps table (table.addDefinition d) := SymbolTable.keeps_addDefinition d
  have hcases := s.declared_cases ⟨d.typeParameters.length, outer⟩
  refine ⟨canonical_withDeclared hc h _,
    ⟨h.length, ?_, fun id => ?_, h.lexical_addDefinition hv hd, fun id r hr => ?_,
      fun place old ho => ?_, fun place old ho p hpo => hg.valid (h.parts place old ho p hpo)⟩,
    hg, fun p hp => h.typeOf_addDefinition d hp, ?_⟩
  · rw [SymbolTable.size_addDefinition, h.size, Store.withDeclared, List.length_append]
    rfl
  · rcases hcases id with hlt | ⟨heq, hnew⟩ | ⟨hgt, hpast⟩
    · rw [hk.arity (h.size ▸ hlt), hg.arity hlt]
      exact h.arity id
    · rw [SymbolTable.arity, h.eq_nextType heq, SymbolTable.definition_addDefinition_nextType,
        ← h.eq_nextType heq]
      simp only [Store.arity, hnew, Option.map_some, Option.getD_some]
    · rw [SymbolTable.arity, h.past d hgt]
      simp only [Store.arity, hpast, Option.map_none, Option.getD_none]
      rfl
  · rcases hcases id with hlt | ⟨-, hnew⟩ | ⟨-, hpast⟩
    · rw [hg.lexical hlt] at hr
      exact hg.valid (h.lexical_valid id r hr)
    · simp only [Store.lexical, hnew, Option.bind_some] at hr
      exact hg.valid (hv r (by rw [hr]; simp))
    · simp only [Store.lexical, hpast, Option.bind_none] at hr
      cases hr
  · rw [h.term place old ho]
    refine congrArg some (Reads.shape_type_congr (fun id hid => ?_) fun p hp => ?_).symm
    · exact hk.lexicalOuter (h.size ▸ h.parts place old ho _ hid)
    · exact h.typeOf_addDefinition d (h.parts place old ho p hp)
  · show s.declared.length < (s.declared ++ [_]).length
    rw [List.length_append]
    exact Nat.lt_succ_self _

end

end ExtensionCensus.Interning
