import ExtensionCensus.Binding.Resolve
import ExtensionCensus.Proofs.Symbol.Scope

/-!
# What resolution makes

Whatever a written type denotes at a place is made of what can be named there: of definitions with as
many arguments as they have type parameters, of the type parameters in sight and of unbound names.  A
property that passes from such parts to what is made of them holds of every resolved type, and so only
type parameters that can be named at a place occur in what is written there.  The proof follows the
resolver, route by route.

* `Outline.Lookups` — what the resolver relies on: a name leads to a type of the number of type
  parameters that was asked for, and a nested type lies in the type that lists it;
* `Outline.Hereditary` — a property of types that passes from parts to wholes;
* `Outline.Sees` — what can be named at a place without arguments has the property;
* `Outline.HeadHas` — a name that was found, before its arguments are put in;
* `has_descend`, `lookupSimple_headHas`, `has_lookupQualified`, `has_bindName` — the routes of a
  name;
* `Outline.has_resolveWith`, `Outline.has_resolveOptional` — **all written types**;
* `Outline.within_resolveOptional`, `Outline.resolveAlias_closed` — a written type stays in scope, and
  a name that a using directive gives stands for a type without type parameters.
-/

namespace ExtensionCensus.Binding

open Source (TypeForm NamePart)

/-- An answer that a function was applied to comes from an answer. -/
theorem ok_of_map {ε α β : Type} {x : Except ε α} {f : α → β} {b : β} (h : x.map f = .ok b) :
    ∃ a, x = .ok a ∧ f a = b := by
  cases x with
  | error e => cases h
  | ok a => exact ⟨a, rfl, Except.ok.inj h⟩

theorem ok_of_mapError {ε δ α : Type} {x : Except ε α} {f : ε → δ} {a : α}
    (h : x.mapError f = .ok a) : x = .ok a := by
  cases x with
  | error e => cases h
  | ok b => exact congrArg _ (Except.ok.inj h)

namespace Outline

/-! ### What the resolver relies on -/

/-- Names lead to types with as many type parameters as were asked for, those found in a namespace
lie in no type, and a nested type lies in the type that lists it. -/
structure Lookups (o : Outline) : Prop where
  library : ∀ (spaceName : String) (key : TypeKey) (id : TypeId),
    Library.lookupType? spaceName key = some id →
      id.index < o.table.definitions.size ∧ o.table.lexicalOuter id = none ∧
        o.table.arity id = key.arity
  declared : ∀ (spaceName : String) (key : TypeKey) (id : TypeId),
    o.root.lookupType? spaceName key = some id →
      id.index < o.table.definitions.size ∧ o.table.lexicalOuter id = none ∧
        o.table.arity id = key.arity
  keyword : ∀ (word : String) (t : Ty), Library.specialType? word = some t →
    ∃ id : TypeId, t = .named (.declared id) none [] ∧ id.index < o.table.definitions.size ∧
      o.table.lexicalOuter id = none ∧ o.table.arity id = 0
  nested : ∀ outer id : TypeId, id ∈ o.table.nestedTypes outer →
    id.index < o.table.definitions.size ∧
      o.table.lexicalOuter id = some (o.table.definitionType outer)

/-- A property of types that passes from parts to what is made of them: to unbound names, to wrapped
types, and to instances of definitions over as many arguments as these have type parameters, in an
instance of the type that they lie in. -/
structure Hereditary (o : Outline) (P : Ty → Prop) : Prop where
  unbound : ∀ (name : String) (outer : Option Ty) (args : List Ty),
    (∀ t, outer = some t → P t) → (∀ a ∈ args, P a) → P (.named (.unbound name) outer args)
  declared : ∀ (id : TypeId) (outer : Option Ty) (args : List Ty),
    id.index < o.table.definitions.size → args.length = o.table.arity id →
    outer.map Ty.declaration? = (o.table.lexicalOuter id).map Ty.declaration? →
    (∀ t, outer = some t → P t) → (∀ a ∈ args, P a) → P (.named (.declared id) outer args)
  array : ∀ (element : Ty) (rank : Nat), P element → P (.array element rank)
  pointer : ∀ target : Ty, P target → P (.pointer target)
  functionPointer : ∀ signature : String, P (.functionPointer signature)
  dynamic : P .dynamic

/-- What can be named at a place without arguments has the property. -/
structure Sees (o : Outline) (ctx : Context) (P : Ty → Prop) : Prop where
  parameters : ∀ p ∈ o.visibleParameters ctx, P (.parameter p)
  enclosing : ∀ id ∈ ctx.enclosing, P (o.table.definitionType id)

/-- A name leads to a type with the property, once as many arguments as it asks for are put in. -/
def HeadHas (o : Outline) (P : Ty → Prop) (arity : Nat) (t : Ty) : Prop :=
  (arity = 0 → P t) ∧
  (arity ≠ 0 → ∃ id, t = o.table.definitionType id ∧ id.index < o.table.definitions.size ∧
    o.table.arity id = arity ∧ ∀ outer, o.table.lexicalOuter id = some outer → P outer)

section

variable {o : Outline} {P : Ty → Prop}

/-- A definition of the arity that was asked for, in a container with the property. -/
theorem headHas_definitionType (hp : o.Hereditary P) {id : TypeId} {arity : Nat}
    (hid : id.index < o.table.definitions.size) (ha : o.table.arity id = arity)
    (ho : ∀ outer, o.table.lexicalOuter id = some outer → P outer) :
    o.HeadHas P arity (o.table.definitionType id) := by
  refine ⟨fun hzero => ?_, fun _ => ⟨id, rfl, hid, ha, ho⟩⟩
  have hnone : o.table.typeParametersOf id = [] := by
    rw [SymbolTable.arity] at ha
    rw [SymbolTable.typeParametersOf, ha, hzero]
    rfl
  rw [SymbolTable.definitionType, hnone]
  exact hp.declared id _ [] hid (ha.trans hzero).symm rfl ho fun t ht => by cases ht

theorem Sees.without_method {ctx : Context} (h : o.Sees ctx P) :
    o.Sees { ctx with method := none } P := by
  refine ⟨fun p hp => h.parameters p ?_, h.enclosing⟩
  exact List.mem_append_right _ hp

/-! ### Types made from a definition -/

/-- Putting arguments in. -/
theorem has_apply (hp : o.Hereditary P) {t u : Ty} {args : List Ty}
    (ht : o.HeadHas P args.length t) (hargs : ∀ a ∈ args, P a) (h : o.apply t args = .ok u) :
    P u := by
  cases args with
  | nil =>
    cases h
    exact ht.1 rfl
  | cons a rest =>
    obtain ⟨id, rfl, hid, harity, houter⟩ := ht.2 (by simp)
    simp only [apply, List.isEmpty_cons, Bool.false_eq_true, ↓reduceIte,
      SymbolTable.definitionType, SymbolTable.construct] at h
    split at h
    · cases h
      exact hp.declared id _ _ hid harity.symm rfl houter hargs
    · cases h

/-- An instance of a definition that lies in no type. -/
theorem has_construct_top (hp : o.Hereditary P) {id : TypeId} {args : List Ty} {u : Ty}
    (hid : id.index < o.table.definitions.size) (ho : o.table.lexicalOuter id = none)
    (hargs : ∀ a ∈ args, P a)
    (h : o.table.construct (o.table.definitionType id) args none = .ok u) : P u := by
  simp only [SymbolTable.definitionType, SymbolTable.construct, ho] at h
  split at h
  · next harity =>
    cases h
    refine hp.declared id _ _ hid harity ?_ (fun t ht => (by cases ht)) hargs
    rw [ho]
    rfl
  · cases h

/-- Going down from a type with the property stays among such types. -/
theorem has_descend (hl : o.Lookups) (hp : o.Hereditary P) {current : Ty} {parts : List BoundPart}
    (hc : P current) (hargs : ∀ part ∈ parts, ∀ a ∈ part.2, P a) {u : Ty}
    (h : o.descend current parts = .ok (some u)) : P u := by
  induction parts generalizing current with
  | nil =>
    cases h
    exact hc
  | cons part rest ih =>
    obtain ⟨name, args⟩ := part
    simp only [descend] at h
    split at h
    · cases h
    · next id hid =>
      split at h
      · cases h
      · next t ht =>
        refine ih ?_ (fun part hp => hargs part (List.mem_cons_of_mem _ hp)) h
        obtain ⟨outer, hcurrent, hnested⟩ := Option.bind_eq_some_iff.mp hid
        obtain ⟨hlt, hlies⟩ := hl.nested outer id (List.mem_of_find?_eq_some hnested)
        -- the new type lies in the one before, which is an instance of what its definition lies in
        simp only [SymbolTable.definitionType, SymbolTable.construct] at ht
        split at ht
        · next harity =>
          cases ht
          refine hp.declared id _ _ hlt harity ?_ (fun t ht => ?_) (hargs _ List.mem_cons_self)
          · rw [hlies, Option.map_some]
            exact congrArg some hcurrent
          · cases ht
            exact hc
        · cases ht

/-! ### Simple names -/

theorem typeIn?_spec (hl : o.Lookups) {spaceName : String} {key : TypeKey} {id : TypeId}
    (h : o.typeIn? spaceName key = some id) :
    id.index < o.table.definitions.size ∧ o.table.lexicalOuter id = none ∧
      o.table.arity id = key.arity := by
  rcases Option.or_eq_some_iff.mp h with h | ⟨-, h⟩
  · exact hl.declared spaceName key id h
  · exact hl.library spaceName key id h

theorem headHas_typeIn? (hl : o.Lookups) (hp : o.Hereditary P) {spaceName name : String}
    {arity : Nat} {id : TypeId} (h : o.typeIn? spaceName ⟨name, arity⟩ = some id) :
    o.HeadHas P arity (o.table.definitionType id) := by
  obtain ⟨hlt, ho, ha⟩ := typeIn?_spec hl h
  refine headHas_definitionType hp hlt ha fun outer houter => ?_
  rw [ho] at houter
  cases houter

/-- A nested type of a type around the place. -/
theorem headHas_nested (hl : o.Lookups) (hp : o.Hereditary P) {ctx : Context} (hs : o.Sees ctx P)
    {name : String} {arity : Nat} {id : TypeId}
    (h : ctx.enclosing.findSome? (o.table.nestedType? · ⟨name, arity⟩) = some id) :
    o.HeadHas P arity (o.table.definitionType id) := by
  obtain ⟨outer, houter, hfind⟩ := List.exists_of_findSome?_eq_some h
  have hkey := List.find?_some hfind
  have harity : o.table.arity id = arity := by
    simp only [decide_eq_true_eq] at hkey
    exact congrArg TypeKey.arity hkey
  obtain ⟨hlt, hlies⟩ := hl.nested outer id (List.mem_of_find?_eq_some hfind)
  refine headHas_definitionType hp hlt harity fun t ht => ?_
  rw [hlies] at ht
  cases ht
  exact hs.enclosing outer houter

theorem headHas_lookupInScopes (hl : o.Lookups) (hp : o.Hereditary P) {meaning : AliasMeaning}
    (hm : ∀ a t, meaning a = .ok (some t) → P t) {name : String} {arity : Nat}
    {chain : ScopeChain} {t : Ty} (h : o.lookupInScopes meaning name arity chain = .ok (some t)) :
    o.HeadHas P arity t := by
  induction chain with
  | nil => cases h
  | cons id outer ih =>
    rw [lookupInScopes] at h
    split at h
    · next found hfound =>
      cases h
      exact headHas_typeIn? hl hp hfound
    · simp only at h
      split at h
      · cases h
      · next u hnamed =>
        cases h
        -- only a name without arguments is looked for among using directives
        by_cases harity : arity = 0
        · refine ⟨fun _ => ?_, fun hne => absurd harity hne⟩
          rw [if_pos harity] at hnamed
          split at hnamed
          · next target _ => exact hm target t hnamed
          · cases hnamed
        · rw [if_neg harity] at hnamed
          cases hnamed
      · split at h
        · next found hfound =>
          cases h
          obtain ⟨space, -, hfound⟩ := List.exists_of_findSome?_eq_some hfound
          exact headHas_typeIn? hl hp hfound
        · exact ih h

/-- A type that has a keyword is a definition without type parameters. -/
theorem has_specialType? (hl : o.Lookups) (hp : o.Hereditary P) {keyword : String} {t : Ty}
    (h : Library.specialType? keyword = some t) : P t := by
  obtain ⟨id, rfl, hlt, houter, harity⟩ := hl.keyword keyword t h
  refine hp.declared id none [] hlt harity.symm ?_ (fun t ht => (by cases ht))
    fun t ht => (by cases ht)
  rw [houter]

theorem lookupSimple_headHas (hl : o.Lookups) (hp : o.Hereditary P) {meaning : AliasMeaning}
    (hm : ∀ a t, meaning a = .ok (some t) → P t) {ctx : Context} (hs : o.Sees ctx P)
    {name : String} {arity : Nat} {t : Ty}
    (h : o.lookupSimple meaning ctx name arity = .ok (some t)) : o.HeadHas P arity t := by
  rw [lookupSimple] at h
  split at h
  · next p hfound =>
    cases h
    by_cases harity : arity = 0
    · rw [if_pos harity] at hfound
      refine ⟨fun _ => ?_, fun hne => absurd harity hne⟩
      exact hs.parameters p (List.mem_of_find?_eq_some hfound)
    · rw [if_neg harity] at hfound
      cases hfound
  · split at h
    · next id hid =>
      cases h
      exact headHas_nested hl hp hs hid
    · split at h
      · cases h
      · next u hu =>
        cases h
        exact headHas_lookupInScopes hl hp hm hu
      · rw [Except.ok.injEq] at h
        by_cases harity : arity = 0
        · rw [if_pos harity, nativeInteger?] at h
          refine ⟨fun _ => ?_, fun hne => absurd harity hne⟩
          split at h
          · exact has_specialType? hl hp h
          · cases h
        · rw [if_neg harity] at h
          cases h

/-! ### Qualified names -/

theorem has_firstFound {α : Type} {f : α → Except BindError (Option Ty)} {as : List α} {t : Ty}
    (hf : ∀ a ∈ as, ∀ t, f a = .ok (some t) → P t) (h : firstFound f as = .ok (some t)) : P t := by
  induction as with
  | nil => cases h
  | cons a rest ih =>
    rw [firstFound] at h
    split at h
    · exact ih (fun b hb => hf b (List.mem_cons_of_mem _ hb)) h
    · exact hf a List.mem_cons_self t h

/-- The parts that a split speaks of are parts of the name. -/
theorem mem_of_splits {parts : List BoundPart}
    {split : List BoundPart × BoundPart × List BoundPart} (h : split ∈ splits parts) :
    split.2.1 ∈ parts ∧ ∀ part ∈ split.2.2, part ∈ parts := by
  obtain ⟨i, -, hi⟩ := List.mem_filterMap.mp h
  obtain ⟨head, hhead, rfl⟩ := Option.map_eq_some_iff.mp hi
  exact ⟨List.mem_of_getElem? hhead, fun part hp => List.mem_of_mem_drop hp⟩

theorem has_lookupSplit (hl : o.Lookups) (hp : o.Hereditary P) {rooted : Bool} {top : String}
    {split : List BoundPart × BoundPart × List BoundPart}
    (hhead : ∀ a ∈ split.2.1.2, P a)
    (hrest : ∀ part ∈ split.2.2, ∀ a ∈ part.2, P a) {t : Ty}
    (h : o.lookupSplit rooted top split = .ok (some t)) : P t := by
  obtain ⟨front, ⟨name, args⟩, rest⟩ := split
  rw [lookupSplit] at h
  split at h
  · cases h
  · generalize ".".intercalate ((if top = "" then [] else [top]) ++ front.map (·.1)) = spaceName
      at h
    simp only at h
    split at h
    · cases h
    · split at h
      · cases h
      · next id hid =>
        split at h
        · cases h
        · next head happly =>
          have hstart := has_apply hp (headHas_typeIn? hl hp hid) hhead happly
          exact has_descend hl hp hstart hrest h

theorem has_lookupPath (hl : o.Lookups) (hp : o.Hereditary P) {rooted : Bool} {tops : List String}
    {parts : List BoundPart} (hargs : ∀ part ∈ parts, ∀ a ∈ part.2, P a) {t : Ty}
    (h : o.lookupPath rooted tops parts = .ok (some t)) : P t := by
  refine has_firstFound (fun top _ u hu => ?_) h
  refine has_firstFound (fun split hsplit v hv => ?_) hu
  obtain ⟨hhead, hrest⟩ := mem_of_splits hsplit
  exact has_lookupSplit hl hp (hargs _ hhead) (fun part hp => hargs part (hrest part hp)) hv

theorem has_lookupQualified (hl : o.Lookups) (hp : o.Hereditary P) {meaning : AliasMeaning}
    (hm : ∀ a t, meaning a = .ok (some t) → P t) {ctx : Context} (hs : o.Sees ctx P)
    {first : BoundPart} {rest : List BoundPart} (hfirst : ∀ a ∈ first.2, P a)
    (hrest : ∀ part ∈ rest, ∀ a ∈ part.2, P a) {t : Ty}
    (h : o.lookupQualified meaning ctx first rest = .ok (some t)) : P t := by
  obtain ⟨name, args⟩ := first
  rw [lookupQualified] at h
  split at h
  · split at h
    · exact has_lookupPath hl hp hrest h
    · cases h
  · split at h
    · cases h
    · next found hfound =>
      split at h
      · next head hhead =>
        split at h
        · cases h
        · next applied happly =>
          have hsome : found = some head := (Option.filter_eq_some_iff.mp hhead).1
          rw [hsome] at hfound
          have hheads := lookupSimple_headHas hl hp hm hs.without_method hfound
          exact has_descend hl hp (has_apply hp hheads hfirst happly) hrest h
      · split at h
        · exact has_lookupPath hl hp hrest h
        · cases h

/-! ### Unbound names and keywords -/

theorem has_unboundWord (hp : o.Hereditary P) (word : String) : P (unboundType word [] none) :=
  hp.unbound word none [] (fun t ht => (by cases ht)) fun a ha => (by cases ha)

theorem has_unboundFrom (hp : o.Hereditary P) {outer : Option Ty} {pending : List String}
    {parts : List BoundPart} (ho : ∀ t, outer = some t → P t)
    (hargs : ∀ part ∈ parts, ∀ a ∈ part.2, P a) : P (unboundFrom outer pending parts) := by
  induction parts generalizing outer pending with
  | nil =>
    have hrest : P (unboundType (writtenName pending) [] outer) :=
      hp.unbound _ outer [] ho fun a ha => (by cases ha)
    cases pending with
    | nil =>
      cases outer with
      | none => exact hrest
      | some t => exact ho t rfl
    | cons name names => cases outer <;> exact hrest
  | cons part rest ih =>
    obtain ⟨name, args⟩ := part
    have hrest : ∀ part ∈ rest, ∀ a ∈ part.2, P a :=
      fun part hp => hargs part (List.mem_cons_of_mem _ hp)
    rw [unboundFrom]
    split
    · exact ih ho hrest
    · refine ih (fun t ht => ?_) hrest
      cases ht
      exact hp.unbound _ outer args ho (hargs _ List.mem_cons_self)

theorem has_unboundName (hp : o.Hereditary P) {parts : List BoundPart}
    (hargs : ∀ part ∈ parts, ∀ a ∈ part.2, P a) : P (unboundName parts) :=
  has_unboundFrom hp (fun t ht => (by cases ht)) hargs

theorem has_keywordType (hl : o.Lookups) (hp : o.Hereditary P) (word : String) :
    P (keywordType word) := by
  rw [keywordType]
  split
  · exact hp.dynamic
  · cases h : Library.specialType? word with
    | some t => exact has_specialType? hl hp h
    | none => exact has_unboundWord hp word

/-! ### Types -/

theorem has_bindName (hl : o.Lookups) (hp : o.Hereditary P) {meaning : AliasMeaning}
    (hm : ∀ a t, meaning a = .ok (some t) → P t) {ctx : Context} (hs : o.Sees ctx P)
    {parts : List BoundPart} (hargs : ∀ part ∈ parts, ∀ a ∈ part.2, P a) {t : Ty}
    (h : o.bindName meaning ctx parts = .ok t) : P t := by
  unfold bindName at h
  simp only at h
  split at h
  · cases h
  · next u hfound =>
    cases h
    split at hfound
    · cases hfound
    · next name args =>
      have hargs' : ∀ a ∈ args, P a := hargs _ List.mem_cons_self
      split at hfound
      · next head hhead =>
        have hheads := lookupSimple_headHas hl hp hm hs hhead
        split at hfound
        · obtain ⟨v, hv, hvt⟩ := ok_of_map hfound
          cases hvt
          exact has_apply hp hheads hargs' hv
        · next hdecl =>
          cases hfound
          -- only a name without arguments stands for what is no instance of a definition
          by_cases harity : args.length = 0
          · exact hheads.1 harity
          · obtain ⟨id, rfl, -⟩ := hheads.2 harity
            exact absurd rfl hdecl
      · next hother => exact absurd hfound (hother _)
    · next first rest =>
      exact has_lookupQualified hl hp hm hs (hargs _ List.mem_cons_self)
        (fun part hp => hargs part (List.mem_cons_of_mem _ hp)) hfound
  · split at h
    · cases h
      exact hp.dynamic
    · cases h
      exact has_unboundName hp hargs

theorem has_nullableOf (hl : o.Lookups) (hp : o.Hereditary P) {t u : Ty} (ht : P t)
    (h : o.nullableOf t = .ok u) : P u := by
  rw [nullableOf] at h
  split at h
  · split at h
    · next id hid =>
      rw [Library.nullable?] at hid
      obtain ⟨hlt, houter, -⟩ := hl.library _ _ _ hid
      refine has_construct_top hp hlt houter (fun a ha => ?_) (ok_of_mapError h)
      rw [List.mem_singleton.mp ha]
      exact ht
    · cases h
      exact ht
  · cases h
    exact ht

theorem tupleOf_eq (o : Outline) (elements : List Ty) (written : String) :
    o.tupleOf elements written =
      match Library.valueTuple? elements.length with
      | some id =>
        if elements.length > 7 then .ok (unboundType written [] none)
        else (o.table.construct (o.table.definitionType id) elements none).mapError .construct
      | none => .ok (unboundType written [] none) := by
  unfold tupleOf
  -- the number of elements is not known, so the struct must not be looked up
  generalize Library.valueTuple? elements.length = id?
  rfl

theorem has_tupleOf (hl : o.Lookups) (hp : o.Hereditary P) {elements : List Ty} {written : String}
    {u : Ty} (helements : ∀ a ∈ elements, P a) (h : o.tupleOf elements written = .ok u) : P u := by
  rw [tupleOf_eq] at h
  cases hid : Library.valueTuple? elements.length with
  | none =>
    rw [hid] at h
    cases h
    exact has_unboundWord hp written
  | some id =>
    rw [hid] at h
    simp only at h
    by_cases hmany : elements.length > 7
    · rw [if_pos hmany] at h
      cases h
      exact has_unboundWord hp written
    · rw [if_neg hmany] at h
      obtain ⟨hlt, houter, -⟩ := hl.library "System" ⟨"ValueTuple", elements.length⟩ id hid
      exact has_construct_top hp hlt houter helements (ok_of_mapError h)

theorem has_ranks (hp : o.Hereditary P) {t : Ty} (ht : P t) (ranks : List Nat) :
    P (ranks.foldl Ty.array t) := by
  induction ranks generalizing t with
  | nil => exact ht
  | cons rank rest ih => exact ih (hp.array t rank ht)

mutual

/-- **A property that passes from parts to wholes holds of what is written at a place, if it holds of
what can be named there.** -/
theorem has_resolveWith (hl : o.Lookups) (hp : o.Hereditary P) {meaning : AliasMeaning}
    (hm : ∀ a t, meaning a = .ok (some t) → P t) {ctx : Context} (hs : o.Sees ctx P) :
    ∀ (form : TypeForm) (t : Ty), o.resolveWith meaning ctx form = .ok t → P t
  | .missing, t, h => by
    rw [resolveWith] at h
    cases h
  | .predefined word, t, h => by
    rw [resolveWith] at h
    cases h
    exact has_keywordType hl hp word
  | .name parts, t, h => by
    rw [resolveWith] at h
    split at h
    · cases h
    · next bound hbound =>
      exact has_bindName hl hp hm hs (has_resolveParts hl hp hm hs parts bound hbound) h
  | .nullable underlying, t, h => by
    rw [resolveWith] at h
    split at h
    · cases h
    · next u hu => exact has_nullableOf hl hp (has_resolveWith hl hp hm hs underlying u hu) h
  | .array element ranks, t, h => by
    rw [resolveWith] at h
    split at h
    · cases h
    · next u hu =>
      cases h
      exact has_ranks hp (has_resolveWith hl hp hm hs element u hu) ranks
  | .pointer target, t, h => by
    rw [resolveWith] at h
    obtain ⟨u, hu, rfl⟩ := ok_of_map h
    exact hp.pointer u (has_resolveWith hl hp hm hs target u hu)
  | .functionPointer signature, t, h => by
    rw [resolveWith] at h
    cases h
    exact hp.functionPointer _
  | .tuple elements written, t, h => by
    rw [resolveWith] at h
    split at h
    · cases h
    · next ts hts => exact has_tupleOf hl hp (has_resolveList hl hp hm hs elements ts hts) h
  | .wrapped inner, t, h => by
    rw [resolveWith] at h
    exact has_resolveWith hl hp hm hs inner t h
  | .inferred, t, h => by
    rw [resolveWith] at h
    cases h
    exact has_unboundWord hp _
  | .other kind text, t, h => by
    rw [resolveWith] at h
    cases h
    exact has_unboundWord hp _

theorem has_resolveList (hl : o.Lookups) (hp : o.Hereditary P) {meaning : AliasMeaning}
    (hm : ∀ a t, meaning a = .ok (some t) → P t) {ctx : Context} (hs : o.Sees ctx P) :
    ∀ (forms : List TypeForm) (ts : List Ty),
      o.resolveList meaning ctx forms = .ok ts → ∀ t ∈ ts, P t
  | [], ts, h => by
    rw [resolveList] at h
    cases h
    intro t ht
    cases ht
  | form :: rest, ts, h => by
    rw [resolveList] at h
    split at h
    · cases h
    · next t ht =>
      obtain ⟨us, hus, rfl⟩ := ok_of_map h
      intro u hu
      rcases List.mem_cons.mp hu with rfl | hu
      · exact has_resolveWith hl hp hm hs form u ht
      · exact has_resolveList hl hp hm hs rest us hus u hu

theorem has_resolvePart (hl : o.Lookups) (hp : o.Hereditary P) {meaning : AliasMeaning}
    (hm : ∀ a t, meaning a = .ok (some t) → P t) {ctx : Context} (hs : o.Sees ctx P) :
    ∀ (part : NamePart) (bound : BoundPart),
      o.resolvePart meaning ctx part = .ok bound → ∀ a ∈ bound.2, P a
  | .mk name args, bound, h => by
    rw [resolvePart] at h
    obtain ⟨ts, hts, rfl⟩ := ok_of_map h
    exact has_resolveList hl hp hm hs args ts hts

theorem has_resolveParts (hl : o.Lookups) (hp : o.Hereditary P) {meaning : AliasMeaning}
    (hm : ∀ a t, meaning a = .ok (some t) → P t) {ctx : Context} (hs : o.Sees ctx P) :
    ∀ (parts : List NamePart) (bound : List BoundPart),
      o.resolveParts meaning ctx parts = .ok bound → ∀ part ∈ bound, ∀ a ∈ part.2, P a
  | [], bound, h => by
    rw [resolveParts] at h
    cases h
    intro part hpart
    cases hpart
  | part :: rest, bound, h => by
    rw [resolveParts] at h
    split at h
    · cases h
    · next first hfirst =>
      obtain ⟨others, hothers, rfl⟩ := ok_of_map h
      intro other hother
      rcases List.mem_cons.mp hother with rfl | hother
      · exact has_resolvePart hl hp hm hs part other hfirst
      · exact has_resolveParts hl hp hm hs rest others hothers other hother

end

/-- What a using directive gives a name to is made of definitions only. -/
theorem has_resolveAlias (hl : o.Lookups) (hp : o.Hereditary P) {a : Alias} {t : Ty}
    (h : o.resolveAlias a = .ok (some t)) : P t := by
  rw [resolveAlias] at h
  split at h
  · cases h
  · next u hu =>
    have hs : o.Sees { scopes := a.scopes } P := by
      refine ⟨fun p hp => ?_, fun id hid => ?_⟩
      · simp [visibleParameters] at hp
      · cases hid
    have hm : ∀ a t, noAliases a = .ok (some t) → P t := by
      intro a t h
      cases h
    have hhas := has_resolveWith hl hp hm hs a.target u hu
    split at h
    · cases h
    · cases h
      exact hhas

/-- The type that stands for no type. -/
theorem has_voidType (hl : o.Lookups) (hp : o.Hereditary P) : P Library.voidType := by
  cases hv : Library.specialType? "void" with
  | none =>
    rw [Library.voidType, hv]
    exact hp.dynamic
  | some v =>
    rw [Library.voidType, hv]
    exact has_specialType? hl hp hv

/-- **A type that is written at a place, or the one that stands for no type.** -/
theorem has_resolveOptional (hl : o.Lookups) (hp : o.Hereditary P) {ctx : Context}
    (hs : o.Sees ctx P) {form : Option TypeForm} {t : Ty}
    (h : o.resolveOptional ctx form = .ok t) : P t := by
  cases form with
  | none =>
    cases h
    exact has_voidType hl hp
  | some form => exact has_resolveWith hl hp (fun a u hu => has_resolveAlias hl hp hu) hs form t h

/-! ### Scopes -/

/-- That only allowed type parameters occur passes from parts to wholes. -/
theorem hereditary_within (allowed : TypeParameterRef → Prop) :
    o.Hereditary (Ty.Within allowed) where
  unbound _ _ _ ho hargs := Ty.within_named_iff.mpr ⟨ho, hargs⟩
  declared _ _ _ _ _ _ ho hargs := Ty.within_named_iff.mpr ⟨ho, hargs⟩
  array _ _ h := Ty.within_array h
  pointer _ h := Ty.within_pointer h
  functionPointer := Ty.within_functionPointer
  dynamic := Ty.within_dynamic

/-- **Only type parameters that can be named at a place occur in what is written there.** -/
theorem within_resolveOptional (hl : o.Lookups) {allowed : TypeParameterRef → Prop} {ctx : Context}
    (hs : o.Sees ctx (Ty.Within allowed)) {form : Option TypeForm} {t : Ty}
    (h : o.resolveOptional ctx form = .ok t) : t.Within allowed :=
  has_resolveOptional hl (hereditary_within allowed) hs h

/-- **No type parameter occurs in what a using directive gives a name to.** -/
theorem resolveAlias_closed (hl : o.Lookups) {a : Alias} {t : Ty}
    (h : o.resolveAlias a = .ok (some t)) : t.Within fun _ => False :=
  has_resolveAlias hl (hereditary_within _) h

end

end Outline

end ExtensionCensus.Binding
