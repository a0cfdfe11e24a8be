import ExtensionCensus.Proofs.Binding.Outlining
import ExtensionCensus.Proofs.Binding.Resolution
import ExtensionCensus.Proofs.Symbol.Places

/-!
# Well-formed outlines

* `Outline.WellFormed` — the invariant of both passes: the library stays declared, the namespace
  tree and the table agree, a nested type lies in the type that lists it, and every part lies in the
  types that it was declared in;
* `Outline.Outlined` — in addition nothing is bound yet;
* `Outlined.mergePart`, `Outlined.addDefinition`, `Outlined.addNested` — what the steps of the first
  pass are made of;
* `outlined_addPart`, `Reaches.outlined` — the first pass keeps the invariant;
* `WellFormed.lookups`, `WellFormed.sameShape` — names are looked up as the resolver relies on, and a
  change of the table that keeps its shape keeps the invariant.
-/

namespace ExtensionCensus

namespace SymbolTable

variable {table : SymbolTable}

/-! ### Nested types -/

/-- A new definition without members lists no type, and the lists of all others stay. -/
theorem nestedTypes_addDefinition {d : TypeDefinition} (hd : d.members = []) (id : TypeId) :
    (table.addDefinition d).nestedTypes id = table.nestedTypes id := by
  rw [nestedTypes_eq, nestedTypes_eq, definition_addDefinition]
  split
  · next h =>
    rw [hd, definition_of_size_le (by rw [h]; exact Nat.le_refl _)]
    rfl
  · rfl

theorem lt_of_mem_nestedTypes {outer id : TypeId} (h : id ∈ table.nestedTypes outer) :
    outer.index < table.definitions.size := by
  by_contra hge
  rw [nestedTypes_eq, definition_of_size_le (Nat.le_of_not_lt hge)] at h
  cases h

/-- A type that is listed as a member joins the nested types of the type that lists it. -/
theorem mem_nestedTypes_addMember {outer id t other : TypeId}
    (h : other ∈ (table.addMember outer (.type t)).nestedTypes id) :
    other ∈ table.nestedTypes id ∨ id = outer ∧ other = t := by
  rw [nestedTypes_eq, addMember, definition_updateDefinition] at h
  split at h
  · next he =>
    rw [typesAmong_concat] at h
    rcases List.mem_append.mp h with h | h
    · rw [nestedTypes_eq, he.1]
      exact Or.inl h
    · exact Or.inr ⟨he.1, List.mem_singleton.mp h⟩
  · exact Or.inl h

end SymbolTable

namespace Binding.Outline

open SymbolTable (Keeps SameShape Chain Places Bare)

/-- The invariant of an outline in both passes. -/
structure WellFormed (o : Outline) : Prop where
  library : Keeps Library.table o.table
  places : Places o.table o.root
  nested_lt : ∀ outer id : TypeId, id ∈ o.table.nestedTypes outer →
    id.index < o.table.definitions.size
  nested : ∀ outer id : TypeId, id ∈ o.table.nestedTypes outer →
    o.table.lexicalOuter id = some (o.table.definitionType outer)
  parts : ∀ part ∈ o.parts, Chain o.table (part.type :: part.enclosing)

/-- The invariant of an outline in the first pass. -/
structure Outlined (o : Outline) : Prop extends WellFormed o where
  bare : Bare o.table

section

variable {o : Outline}

/-- The outline of no files. -/
theorem outlined_empty (implicitUsings : Bool) : Outlined { implicitUsings } := by
  refine ⟨⟨Keeps.refl _, SymbolTable.places_empty, fun outer id hid => ?_, fun outer id hid => ?_,
    fun part hp => ?_⟩, Library.bare⟩
  · rw [Library.nestedTypes_eq_nil] at hid
    cases hid
  · rw [Library.nestedTypes_eq_nil] at hid
    cases hid
  · cases hp

theorem WellFormed.chain_of_around (h : WellFormed o) {enclosing : List TypeId}
    (ha : o.Around enclosing) : Chain o.table enclosing := by
  rcases ha with rfl | ⟨part, hp, rfl⟩
  · exact .nil
  · exact h.parts part hp

/-- A table of the same shape, with the same namespaces and parts. -/
theorem WellFormed.sameShape (h : WellFormed o) {o' : Outline} (hs : SameShape o.table o'.table)
    (hr : o'.root = o.root) (hp : o'.parts = o.parts) : WellFormed o' := by
  refine ⟨h.library.trans hs.keeps, ?_, fun outer id hid => ?_, fun outer id hid => ?_,
    fun part hpart => ?_⟩
  · rw [hr]
    exact h.places.keeps hs.keeps
  · rw [hs.nested] at hid
    rw [hs.size]
    exact h.nested_lt outer id hid
  · rw [hs.nested] at hid
    rw [hs.lexicalOuter, hs.definitionType]
    exact h.nested outer id hid
  · rw [hp] at hpart
    exact (h.parts part hpart).keeps hs.keeps

/-- Names are looked up as the resolver relies on. -/
theorem WellFormed.lookups (h : WellFormed o) : o.Lookups := by
  have hspace : ∀ {table : SymbolTable} {root : Namespace}, Places table root →
      ∀ (spaceName : String) (key : TypeKey) (id : TypeId),
        root.lookupType? spaceName key = some id →
        id.index < table.definitions.size ∧ table.lexicalOuter id = none ∧
          table.arity id = key.arity := by
    intro table root hplaces spaceName key id hid
    obtain ⟨hlt, hc, hk⟩ := hplaces.of_find? hid
    refine ⟨hlt, ?_, congrArg TypeKey.arity hk⟩
    rw [SymbolTable.lexicalOuter, hc]
  -- what the library declares is found where and as it was
  have hkept : ∀ {id : TypeId}, id.index < Library.table.definitions.size → ∀ {n : Nat},
      Library.table.lexicalOuter id = none ∧ Library.table.arity id = n →
        id.index < o.table.definitions.size ∧ o.table.lexicalOuter id = none ∧
          o.table.arity id = n := by
    intro id hlt n hid
    rw [h.library.lexicalOuter hlt, h.library.arity hlt]
    exact ⟨Nat.lt_of_lt_of_le hlt h.library.size_le, hid⟩
  refine ⟨fun spaceName key id hid => ?_, hspace h.places,
    fun word t ht => ?_, fun outer id hid => ⟨h.nested_lt outer id hid, h.nested outer id hid⟩⟩
  · obtain ⟨hlt, hid⟩ := hspace Library.places spaceName key id hid
    exact hkept hlt hid
  · obtain ⟨id, rfl, hlt, hid⟩ := Library.specialType?_spec ht
    exact ⟨id, rfl, hkept hlt hid⟩

/-! ### The first pass -/

theorem sameShape_mergePart (table : SymbolTable) (id : TypeId) (d : Source.TypeDeclaration) :
    SameShape table (mergePart table id d) :=
  SymbolTable.sameShape_updateDefinition id ⟨rfl, rfl, rfl, rfl⟩ rfl

/-- The definition that a first part makes lists its type parameters, without constraints yet. -/
theorem isBegun_firstDefinition {table : SymbolTable} {d : Source.TypeDeclaration}
    {container : Container} {access : Accessibility} :
    (firstDefinition table d container access).IsBegun table.nextType := by
  refine isBegun_of_listed rfl fun p hp => ?_
  obtain ⟨form, -, rfl⟩ := List.mem_map.mp hp
  rfl

/-- One more part of a type that is there. -/
theorem Outlined.mergePart (h : Outlined o) {root : Namespace} (hroot : Places o.table root)
    (id : TypeId) (d : Source.TypeDeclaration) :
    Outlined { o with root, table := Outline.mergePart o.table id d } := by
  have hs := sameShape_mergePart o.table id d
  refine ⟨⟨h.library.trans hs.keeps, hroot.keeps hs.keeps, fun outer inner hmem => ?_,
    fun outer inner hmem => ?_, fun part hp => (h.parts part hp).keeps hs.keeps⟩,
    h.bare.updateDefinition rfl fun m hm => Or.inl hm⟩
  · rw [hs.nested] at hmem
    rw [hs.size]
    exact h.nested_lt outer inner hmem
  · rw [hs.nested] at hmem
    rw [hs.lexicalOuter, hs.definitionType]
    exact h.nested outer inner hmem

/-- A new type without members, whose type parameters have no constraints. -/
theorem Outlined.addDefinition (h : Outlined o) {root : Namespace} {t : TypeDefinition}
    (hroot : Places (o.table.addDefinition t) root) (hmembers : t.members = [])
    (hbegun : t.IsBegun o.table.nextType) :
    Outlined { o with root, table := o.table.addDefinition t } := by
  have hk : Keeps o.table (o.table.addDefinition t) := SymbolTable.keeps_addDefinition t
  refine ⟨⟨h.library.trans hk, hroot, fun outer inner hmem => ?_, fun outer inner hmem => ?_,
    fun part hp => (h.parts part hp).keeps hk⟩, h.bare.addDefinition hbegun hmembers⟩
  · rw [SymbolTable.nestedTypes_addDefinition hmembers] at hmem
    exact Nat.lt_of_lt_of_le (h.nested_lt outer inner hmem) hk.size_le
  · rw [SymbolTable.nestedTypes_addDefinition hmembers] at hmem
    rw [hk.lexicalOuter (h.nested_lt outer inner hmem),
      hk.definitionType (SymbolTable.lt_of_mem_nestedTypes hmem)]
    exact h.nested outer inner hmem

/-- A type that is listed by the one that it lies in. -/
theorem Outlined.addNested (h : Outlined o) {outer id : TypeId}
    (houter : outer.index < o.table.definitions.size) (hlt : id.index < o.table.definitions.size)
    (ho : o.table.lexicalOuter id = some (o.table.definitionType outer)) :
    Outlined { o with table := o.table.addMember outer (.type id) } ∧
      Keeps o.table (o.table.addMember outer (.type id)) := by
  have hk : Keeps o.table (o.table.addMember outer (.type id)) :=
    SymbolTable.keeps_updateDefinition outer ⟨rfl, rfl, rfl, rfl⟩
  refine ⟨⟨⟨h.library.trans hk, h.places.keeps hk, fun other inner hmem => ?_,
    fun other inner hmem => ?_, fun part hp => (h.parts part hp).keeps hk⟩,
    h.bare.updateDefinition rfl ?_⟩, hk⟩
  · rcases SymbolTable.mem_nestedTypes_addMember hmem with hmem | ⟨-, rfl⟩
    · exact Nat.lt_of_lt_of_le (h.nested_lt other inner hmem) hk.size_le
    · exact Nat.lt_of_lt_of_le hlt hk.size_le
  · rcases SymbolTable.mem_nestedTypes_addMember hmem with hmem | ⟨rfl, rfl⟩
    · rw [hk.lexicalOuter (h.nested_lt other inner hmem),
        hk.definitionType (SymbolTable.lt_of_mem_nestedTypes hmem)]
      exact h.nested other inner hmem
    · rw [hk.lexicalOuter hlt, hk.definitionType houter]
      exact ho
  · intro m hm
    rcases List.mem_append.mp hm with hm | hm
    · exact Or.inl hm
    · exact Or.inr ⟨id, List.mem_singleton.mp hm⟩

theorem nextType_lt_addDefinition (table : SymbolTable) (t : TypeDefinition) :
    table.nextType.index < (table.addDefinition t).definitions.size := by
  rw [SymbolTable.size_addDefinition]
  exact Nat.lt_succ_self _

/-- What declaring a part keeps, and how the type that it belongs to lies. -/
theorem outlined_declarePart (h : Outlined o) (chain : ScopeChain) {enclosing : List TypeId}
    (hc : Chain o.table enclosing) (d : Source.TypeDeclaration) :
    Outlined (o.declarePart chain enclosing d).1 ∧
      Chain (o.declarePart chain enclosing d).1.table
        ((o.declarePart chain enclosing d).2 :: enclosing) := by
  have hdeclares := declarePart_declares o chain enclosing d
  generalize o.declarePart chain enclosing d = r at hdeclares ⊢
  cases hdeclares with
  | @againInside outer rest id hid =>
    have hs := sameShape_mergePart o.table id d
    have hmem := List.mem_of_find?_eq_some hid
    refine ⟨h.mergePart h.places id d, .nested ?_ ?_ (hc.keeps hs.keeps)⟩
    · rw [hs.size]
      exact h.nested_lt outer id hmem
    · rw [hs.lexicalOuter, hs.definitionType]
      exact h.nested outer id hmem
  | @firstInside outer rest hnone =>
    generalize hdef : innerDefinition o.table outer d = inner
    have hadd : Keeps o.table (o.table.addDefinition inner) := SymbolTable.keeps_addDefinition inner
    have hnew := h.addDefinition (h.places.keeps hadd) (hdef ▸ rfl)
      (hdef ▸ isBegun_firstDefinition)
    have hlt := nextType_lt_addDefinition o.table inner
    -- the new type lies in the one that it is declared in
    have hlies : (o.table.addDefinition inner).lexicalOuter o.table.nextType
        = some ((o.table.addDefinition inner).definitionType outer) := by
      rw [hadd.definitionType hc.head_lt, SymbolTable.lexicalOuter,
        SymbolTable.definition_addDefinition_nextType, ← hdef]
      rfl
    have houter := Nat.lt_of_lt_of_le hc.head_lt hadd.size_le
    obtain ⟨houtlined, hk⟩ := hnew.addNested houter hlt hlies
    refine ⟨houtlined, .nested (Nat.lt_of_lt_of_le hlt hk.size_le) ?_ (hc.keeps (hadd.trans hk))⟩
    rw [hk.lexicalOuter hlt, hk.definitionType houter]
    exact hlies
  | @againInSpace id hid =>
    have hs := sameShape_mergePart o.table id d
    have hplaces := h.places.openAt [] (o.spaceName chain)
    obtain ⟨hlt, hcontainer, -⟩ := hplaces.of_find? hid
    refine ⟨h.mergePart hplaces id d, .top (hs.size.symm ▸ hlt) ?_⟩
    rw [hs.lexicalOuter, SymbolTable.lexicalOuter, hcontainer]
  | firstInSpace hnone =>
    generalize hdef : firstDefinition o.table d (.namespace (o.pathOf chain)) .internalAccess = top
    have hplaces : Places (o.table.addDefinition top)
        ((o.openedRoot chain).update (·.addType (keyOf d) o.table.nextType) (o.pathOf chain)) := by
      refine (h.places.openAt [] (o.spaceName chain)).add (hdef ▸ rfl) ?_
      rw [← hdef]
      simp only [keyOf, firstDefinition, length_listed, List.length_map]
    refine ⟨h.addDefinition hplaces (hdef ▸ rfl) (hdef ▸ isBegun_firstDefinition),
      .top (nextType_lt_addDefinition o.table top) ?_⟩
    rw [SymbolTable.lexicalOuter, SymbolTable.definition_addDefinition_nextType, ← hdef]
    rfl

theorem outlined_addPart (h : Outlined o) (chain : ScopeChain) {enclosing : List TypeId}
    (hc : Chain o.table enclosing) (d : Source.TypeDeclaration) :
    Outlined (o.addPart chain enclosing d) := by
  obtain ⟨hdeclared, hchain⟩ := outlined_declarePart h chain hc d
  refine ⟨⟨hdeclared.library, hdeclared.places, hdeclared.nested_lt, hdeclared.nested,
    fun part hp => ?_⟩, hdeclared.bare⟩
  rcases List.mem_append.mp hp with hp | hp
  · exact hdeclared.parts part hp
  · rw [List.mem_singleton.mp hp]
    exact hchain

/-- **The first pass keeps the invariant.** -/
theorem Reaches.outlined {a b : Outline} (hr : Reaches a b) (h : Outlined a) : Outlined b := by
  induction hr with
  | start => exact h
  | rescoped _ hc ih =>
    refine ⟨ih.toWellFormed.sameShape ?_ hc.root hc.parts, ?_⟩
    · rw [hc.table]
      exact SameShape.refl _
    · rw [hc.table]
      exact ih.bare
  | opened _ name ih =>
    exact ⟨⟨ih.library, ih.places.openAt [] name, ih.nested_lt, ih.nested, ih.parts⟩, ih.bare⟩
  | part _ chain henclosing d ih =>
    exact outlined_addPart ih chain (ih.toWellFormed.chain_of_around henclosing) d

end

end Binding.Outline

/-- What the files of a compilation declare before anything is bound. -/
theorem Binding.Compilation.outlined_addFiles {identity : AssemblyIdentity}
    {implicitUsings : Bool} {files : List (Text.Bytes × Source.Node)} {c : Binding.Compilation}
    (hfiles : (empty identity implicitUsings).addFiles files = .ok c) :
    c.outline.Outlined ∧ c.isBound = false := by
  obtain ⟨hreach, hbound⟩ := reaches_addFiles hfiles
  exact ⟨hreach.outlined (Outline.outlined_empty implicitUsings), hbound⟩

end ExtensionCensus
