import ExtensionCensus.Proofs.Binding.Beside
import ExtensionCensus.Proofs.Binding.Linking
import ExtensionCensus.Proofs.Binding.Reordered

/-!
# Counterparts say the same

In another order of files the counterpart of a type says what the type says, and names lead from one to
the other.

* `Reordered.typeIn?_eq`, `Reordered.nestedType?_eq` — **names lead to counterparts**;
* `Reordered.container`, `Reordered.definitionType` — counterparts lie in counterparts;
* `Reordered.kind`, `Reordered.metadataName`, `Reordered.isStatic`, `Reordered.access` — **they are of
  the same kind, with the same full name, modifier and accessibility**;
* `Reordered.sameChain`, `Reordered.globalAliases` — the using directives around a part are the same.
-/

namespace ExtensionCensus

/-- A type that lies in another one is contained in it. -/
theorem SymbolTable.container_of_lexicalOuter {table : SymbolTable} {id : TypeId} {t : Ty}
    (h : table.lexicalOuter id = some t) : (table.definition id).container = .type t := by
  rw [lexicalOuter] at h
  split at h
  · next hcontainer =>
    cases h
    exact hcontainer
  · cases h

namespace Binding.Outline

section

variable {o o' : Outline} {id : TypeId}

/-! ### Names -/

/-- A name leads to the type that lies in the namespace under it. -/
theorem Findable.lookupType?_eq_some_iff (h : Findable o) {space : String} {key : TypeKey} :
    o.root.lookupType? space key = some id ↔
      ⟨Namespace.parts space, key, id⟩ ∈ o.root.placed [] :=
  ⟨fun hid => Namespace.mem_placed_of_find? h.places.tabled (Namespace.parts space) [] hid,
    fun hx => Namespace.find?_of_placed h.places.tabled h.unique hx⟩

/-- A name leads from a type to the one that it lists under it. -/
theorem Findable.nestedType?_eq_some_iff (h : Findable o) {outer : TypeId} {key : TypeKey} :
    o.table.nestedType? outer key = some id ↔
      id ∈ o.table.nestedTypes outer ∧ o.table.key id = key := by
  refine ⟨fun hid => ⟨List.mem_of_find?_eq_some hid, by simpa using List.find?_some hid⟩, ?_⟩
  rintro ⟨hid, rfl⟩
  exact h.nestedType?_of_mem hid

/-- The first key of an address is that of the type. -/
theorem Located.address_eq (h : o.Located id) (hw : WellFormed o) :
    ∃ path keys, o.table.address id = (path, o.table.key id :: keys) := by
  cases h with
  | placed hx => exact ⟨_, _, by rw [hw.address_placed hx, hw.places.key _ hx]⟩
  | nested _ hid => exact ⟨_, _, hw.address_nested hid⟩

end

namespace Reordered

variable {o o' : Outline} {move : TypeId → TypeId} {id : TypeId}

/-- Types that are not declared say nothing. -/
theorem definition_beyond (h : Reordered move o o') (hid : o.table.definitions.size ≤ id.index) :
    o'.table.definition (move id) = default ∧ o.table.definition id = default := by
  refine ⟨SymbolTable.definition_of_size_le ?_, SymbolTable.definition_of_size_le hid⟩
  rw [h.beyond id hid]
  exact Nat.le_add_left _ _

/-- Types of the library are what they were in both outlines. -/
theorem agrees_library (h : Reordered move o o')
    (hid : id.index < Library.table.definitions.size) :
    (Library.table.definition id).Agrees (o.table.definition id) ∧
      (Library.table.definition id).Agrees (o'.table.definition (move id)) := by
  rw [h.library id hid]
  exact ⟨h.left.library.agrees id hid, h.right.library.agrees id hid⟩

/-- **Counterparts have the same key.** -/
theorem key (h : Reordered move o o') (id : TypeId) :
    o'.table.key (move id) = o.table.key id := by
  rcases h.left.cases id with hlib | hl | hbeyond
  · rw [h.library id hlib, h.right.library.key hlib, h.left.library.key hlib]
  · obtain ⟨hl', haddress⟩ := h.located id hl
    obtain ⟨path, keys, hid⟩ := hl.address_eq h.left.toWellFormed
    obtain ⟨path', keys', hid'⟩ := hl'.address_eq h.right.toWellFormed
    rw [hid, hid', Prod.mk.injEq, List.cons.injEq] at haddress
    exact haddress.2.1
  · obtain ⟨hdef', hdef⟩ := h.definition_beyond hbeyond
    rw [SymbolTable.key, SymbolTable.key, SymbolTable.arity, SymbolTable.arity, hdef', hdef]

theorem arity (h : Reordered move o o') (id : TypeId) :
    o'.table.arity (move id) = o.table.arity id :=
  congrArg TypeKey.arity (h.key id)

theorem name (h : Reordered move o o') (id : TypeId) :
    (o'.table.definition (move id)).name = (o.table.definition id).name :=
  congrArg TypeKey.name (h.key id)

/-- Types that list others are located. -/
theorem located_of_nestedTypes (h : Reordered move o o') {other : TypeId}
    (hother : other ∈ o'.table.nestedTypes (move id)) : o.Located id := by
  rcases h.left.cases id with hlib | hl | hbeyond
  · have hle := (h.right.described.nested_le (move id) other hother).1
    rw [h.library id hlib] at hle
    exact absurd hlib (Nat.not_lt_of_le hle)
  · exact hl
  · have hlt := h.lt_of_lt (SymbolTable.lt_of_mem_nestedTypes hother)
    exact absurd hlt (Nat.not_lt_of_le hbeyond)

/-- **A name leads from counterparts to counterparts.** -/
theorem nestedType?_eq (h : Reordered move o o') (outer : TypeId) (key : TypeKey) :
    o'.table.nestedType? (move outer) key = (o.table.nestedType? outer key).map move := by
  refine Option.ext fun other => ?_
  rw [Option.map_eq_some_iff, h.right.toFindable.nestedType?_eq_some_iff]
  constructor
  · rintro ⟨hother, rfl⟩
    obtain ⟨id, hid, rfl⟩ := h.exists_nested hother (h.located_of_nestedTypes hother)
    exact ⟨id, h.left.toFindable.nestedType?_eq_some_iff.mpr ⟨hid, (h.key id).symm⟩, rfl⟩
  · rintro ⟨id, hid, rfl⟩
    obtain ⟨hmem, rfl⟩ := h.left.toFindable.nestedType?_eq_some_iff.mp hid
    exact ⟨h.mem_nestedTypes hmem, h.key id⟩

theorem lookupType?_eq (h : Reordered move o o') (space : String) (key : TypeKey) :
    o'.root.lookupType? space key = (o.root.lookupType? space key).map move := by
  refine Option.ext fun other => ?_
  rw [Option.map_eq_some_iff, h.right.toFindable.lookupType?_eq_some_iff]
  constructor
  · intro hother
    obtain ⟨x, hx, hpath, hkey, hmove⟩ := h.exists_placed hother
    refine ⟨x.id, h.left.toFindable.lookupType?_eq_some_iff.mpr ?_, hmove⟩
    rwa [← show x.path = Namespace.parts space from hpath, ← show x.key = key from hkey]
  · rintro ⟨id, hid, rfl⟩
    exact h.mem_placed (h.left.toFindable.lookupType?_eq_some_iff.mp hid)

/-- **A name leads to counterparts in both outlines.** -/
theorem typeIn?_eq (h : Reordered move o o') (space : String) (key : TypeKey) :
    o'.typeIn? space key = (o.typeIn? space key).map move := by
  have hlibrary : (Library.lookupType? space key).map move = Library.lookupType? space key := by
    cases hid : Library.lookupType? space key with
    | none => rfl
    | some id => rw [Option.map_some, h.library id (Library.places.of_find? hid).1]
  rw [typeIn?, typeIn?, h.lookupType?_eq, Option.map_or, hlibrary]

/-! ### What counterparts say -/

/-- **Counterparts lie in counterparts.** -/
theorem container (h : Reordered move o o') (methods : MethodId → MethodId) (id : TypeId) :
    (o'.table.definition (move id)).container
      = (o.table.definition id).container.rename ⟨move, methods⟩ := by
  rcases h.left.cases id with hlib | hl | hbeyond
  · obtain ⟨hagrees, hagrees'⟩ := h.agrees_library hlib
    rw [hagrees.container, hagrees'.container]
    rcases Library.nests id hlib with ⟨path, hpath⟩ | ⟨outer, hlt, houter⟩
    · rw [hpath]
      rfl
    · have hfixed := @SymbolTable.Nests.rename_definitionType _ Library.nests ⟨move, methods⟩
        h.library outer (Nat.lt_trans hlt hlib)
      rw [houter, Container.rename, hfixed]
  · induction hl with
    | @placed x hx =>
      rw [h.left.places.container x hx, h.right.places.container _ (h.mem_placed hx)]
      rfl
    | @nested outer id _ hid ih =>
      have hlength := h.arity outer
      rw [SymbolTable.arity, SymbolTable.arity] at hlength
      have houter : o'.table.definitionType (move outer)
          = (o.table.definitionType outer).rename ⟨move, methods⟩ :=
        @SymbolTable.definitionType_rename ⟨move, methods⟩ _ _ outer ih hlength
      rw [SymbolTable.container_of_lexicalOuter (h.left.nested outer id hid),
        SymbolTable.container_of_lexicalOuter (h.right.nested _ _ (h.mem_nestedTypes hid)), houter]
      rfl
  · obtain ⟨hdef', hdef⟩ := h.definition_beyond hbeyond
    rw [hdef', hdef]
    rfl

theorem definitionType (h : Reordered move o o') (methods : MethodId → MethodId) (id : TypeId) :
    o'.table.definitionType (move id) = (o.table.definitionType id).rename ⟨move, methods⟩ := by
  have hlength := h.arity id
  rw [SymbolTable.arity, SymbolTable.arity] at hlength
  exact @SymbolTable.definitionType_rename ⟨move, methods⟩ _ _ id (h.container methods id) hlength

theorem keyword (h : Reordered move o o') (id : TypeId) :
    (o'.table.definition (move id)).keyword = (o.table.definition id).keyword := by
  rcases Nat.lt_or_ge id.index Library.table.definitions.size with hlib | hle
  · rw [h.library id hlib, (h.right.described.known id hlib).1, (h.left.described.known id hlib).1]
  · have hle' : Library.table.definitions.size ≤ (move id).index :=
      Nat.le_of_not_lt fun hlt => Nat.not_lt_of_le hle (h.library_of_lt hlt)
    rw [h.right.described.keyword _ hle', h.left.described.keyword id hle]

/-- A type has the full name that its counterpart has, if so do the types around it. -/
theorem metadataName_of_outer (h : Reordered move o o') (hl : o.Located id)
    (houter : ∀ outer t args,
      (o.table.definition id).container = .type (.named (.declared outer) t args) →
      (o'.table.definition (move outer)).metadataName = (o.table.definition outer).metadataName) :
    (o'.table.definition (move id)).metadataName = (o.table.definition id).metadataName := by
  have hl' := (h.located id hl).1
  have hd := h.left.described
  have hd' := h.right.described
  rw [hd'.metadataName _ (hd'.le_of_located hl') (h.right.located_lt hl'),
    hd.metadataName id (hd.le_of_located hl) (h.left.located_lt hl),
    h.container (fun m => m) id, h.name]
  exact SymbolTable.metadataNameIn_rename _ houter

/-- **Counterparts have the same full name.** -/
theorem metadataName (h : Reordered move o o') (id : TypeId) :
    (o'.table.definition (move id)).metadataName = (o.table.definition id).metadataName := by
  rcases h.left.cases id with hlib | hl | hbeyond
  · rw [h.library id hlib, (h.right.described.known id hlib).2, (h.left.described.known id hlib).2]
  · induction hl with
    | @placed x hx =>
      refine h.metadataName_of_outer (.placed hx) fun outer t args hcontainer => ?_
      rw [h.left.places.container x hx] at hcontainer
      cases hcontainer
    | @nested around id hl hid ih =>
      refine h.metadataName_of_outer (hl.nested hid) fun outer t args hcontainer => ?_
      rw [SymbolTable.container_of_lexicalOuter (h.left.nested around id hid)] at hcontainer
      cases hcontainer
      exact ih
  · obtain ⟨hdef', hdef⟩ := h.definition_beyond hbeyond
    rw [hdef', hdef]

/-- A type is of the kind that any of its parts says. -/
theorem kind_of_part (hs : Settled o) {part : DeclaredPart} (hp : part ∈ o.parts) :
    (o.table.definition part.type).kind = part.form.kind := by
  have hl := hs.described.located part hp
  have hkind := hs.described.kind _ (hs.described.le_of_located hl) (hs.located_lt hl)
  obtain ⟨first, hfirst, hsame⟩ := Option.map_eq_some_iff.mp hkind
  obtain ⟨hmem, htype⟩ := List.mem_filter.mp (List.mem_of_head? hfirst)
  rw [← hsame, (hs.consistent first hmem part hp (of_decide_eq_true htype)).1]

/-- **Counterparts are of the same kind.** -/
theorem kind (h : Reordered move o o') (id : TypeId) :
    (o'.table.definition (move id)).kind = (o.table.definition id).kind := by
  rcases h.left.cases id with hlib | hl | hbeyond
  · obtain ⟨hagrees, hagrees'⟩ := h.agrees_library hlib
    rw [hagrees.kind, hagrees'.kind]
  · obtain ⟨part, hp, rfl⟩ :=
      h.left.described.exists_part (h.left.described.le_of_located hl) (h.left.located_lt hl)
    have hmem : part ∈ o.partsOf part.type := List.mem_filter.mpr ⟨hp, decide_eq_true rfl⟩
    obtain ⟨q, hq, hform⟩ := List.mem_map.mp
      ((h.perm_forms hl).mem_iff.mp (List.mem_map_of_mem hmem))
    obtain ⟨hq, htype⟩ := List.mem_filter.mp hq
    rw [kind_of_part h.left hp, ← hform, ← kind_of_part h.right hq, of_decide_eq_true htype]
  · obtain ⟨hdef', hdef⟩ := h.definition_beyond hbeyond
    rw [hdef', hdef]

/-- **A type in a namespace is static if its counterpart is.** -/
theorem isStatic (h : Reordered move o o') {x : Place} (hx : x ∈ o.root.placed []) :
    (o'.table.definition (move x.id)).traits.isStatic
      = (o.table.definition x.id).traits.isStatic := by
  have hperm := h.perm_forms (.placed hx)
  have hany : ∀ parts : List DeclaredPart, parts.any (·.form.modifiers.isStatic)
      = (parts.map (·.form)).any (·.modifiers.isStatic) := fun parts => by
    rw [List.any_map]
    rfl
  rw [h.right.tallied.isStatic _ (h.mem_placed hx), h.left.tallied.isStatic x hx, hany, hany]
  exact hperm.symm.any_eq

/-- **A type in a namespace is as accessible as its counterpart.** -/
theorem access (h : Reordered move o o') {x : Place} (hx : x ∈ o.root.placed []) :
    (o'.table.definition (move x.id)).traits.access
      = (o.table.definition x.id).traits.access := by
  have hstated : ∀ parts : List DeclaredPart, parts.filterMap (·.form.modifiers.access)
      = (parts.map (·.form)).filterMap (·.modifiers.access) := fun parts => by
    rw [List.filterMap_map]
    rfl
  have hsame : ∀ y ∈ (o.partsOf x.id).filterMap (·.form.modifiers.access),
      ∀ z ∈ (o.partsOf x.id).filterMap (·.form.modifiers.access), y = z := by
    intro y hy z hz
    obtain ⟨p, hp, hpy⟩ := List.mem_filterMap.mp hy
    obtain ⟨q, hq, hqz⟩ := List.mem_filterMap.mp hz
    obtain ⟨hp, htype⟩ := List.mem_filter.mp hp
    obtain ⟨hq, htype'⟩ := List.mem_filter.mp hq
    exact (h.left.consistent p hp q hq
      ((of_decide_eq_true htype).trans (of_decide_eq_true htype').symm)).2 y hpy z hqz
  have hperm := (h.perm_forms (.placed hx)).filterMap (·.modifiers.access)
  rw [← hstated, ← hstated] at hperm
  rw [h.right.described.access _ (h.mem_placed hx), h.left.described.access x hx, statedAccess,
    statedAccess, getLast?_eq_of_perm hperm hsame]

/-! ### Using directives -/

/-- **Around parts that were entered alike stand the same using directives.** -/
theorem sameChain (h : Reordered move o o') {p q : DeclaredPart} (hp : p ∈ o.parts)
    (hq : q ∈ o'.parts) (hentry : o'.entryOf q = o.entryOf p) :
    SameChain (fun _ => True) o o' p.scopes q.scopes := by
  obtain ⟨around, hlinked⟩ := h.left.linked
  obtain ⟨around', hlinked'⟩ := h.right.linked
  exact sameChain_of_viewOf hlinked hlinked' h.left.takes (hlinked.parts p hp).follows
    (hlinked'.parts q hq).follows (congrArg Entry.view hentry)

/-- The using directives that are in effect everywhere give the same names. -/
theorem globalAliases (h : Reordered move o o') :
    List.Forall₂ (fun x y => y.1 = x.1 ∧ SameAlias (fun _ => True) o o' x.2 y.2)
      o.globalAliases o'.globalAliases := by
  obtain ⟨around, hlinked⟩ := h.left.linked
  obtain ⟨around', hlinked'⟩ := h.right.linked
  refine forall₂_of_map_eq h.entries.globalEntries.symm fun x hx y hy hxy => ?_
  simp only [Prod.mk.injEq] at hxy
  obtain ⟨hname, htarget, hwritten, hview⟩ := hxy
  refine ⟨hname.symm, htarget.symm, hwritten.symm, h.left.takes.inAll x hx, ?_⟩
  exact sameChain_of_viewOf hlinked hlinked' h.left.takes (hlinked.globals x hx).follows
    (hlinked'.globals y hy).follows hview.symm

end Reordered

end Binding.Outline

end ExtensionCensus
