import ExtensionCensus.Proofs.Binding.Tally
import ExtensionCensus.Proofs.Binding.WellScoped
import ExtensionCensus.Proofs.Symbol.Segmented

/-!
# Types are found where they are declared

A lookup by name comes back with the type that was declared under the name, and with no other one.

* `Outline.Findable` — the invariant: the well-known types aside, a type in a namespace is alone
  under its path and key, and a nested one under its key in the type that lists it;
* `Reaches.findable`, `Findable.grows` — both passes keep it;
* `Findable.typeIn?_of_placed`, `WellFormed.typeIn?_of_library`, `Findable.nestedType?_of_mem` —
  **whatever is declared is what its name finds**.
-/

namespace ExtensionCensus

/-! ### The library -/

namespace Library

/-- No well-known type lies in the global namespace. -/
theorem path_spec : ∀ x ∈ root.placed [], x.path ≠ [] ∧ Namespace.Segmented x.path := by
  decide +kernel

/-- At a path and a key lies one well-known type only. -/
theorem unique : ((root.placed []).map fun x => (x.path, x.key)).Nodup := by
  decide +kernel

end Library

/-! ### Nested types -/

namespace SymbolTable

/-- The keys of the types nested in a declared type. -/
def nestedKeys (table : SymbolTable) (id : TypeId) : List TypeKey :=
  (table.nestedTypes id).map table.key

variable {table a b : SymbolTable}

theorem SameShape.nestedKeys (h : SameShape a b) (id : TypeId) :
    b.nestedKeys id = a.nestedKeys id := by
  rw [SymbolTable.nestedKeys, SymbolTable.nestedKeys, h.nested]
  exact List.map_congr_left fun t _ => h.key t

theorem nestedType?_eq_none_iff {id : TypeId} {key : TypeKey} :
    table.nestedType? id key = none ↔ key ∉ table.nestedKeys id := by
  simp [nestedType?, SymbolTable.nestedKeys, List.find?_eq_none]

/-- A nested type is the one that its key finds, if keys are told apart. -/
theorem nestedType?_of_mem {outer id : TypeId} (hkeys : (table.nestedKeys outer).Nodup)
    (hid : id ∈ table.nestedTypes outer) : table.nestedType? outer (table.key id) = some id := by
  cases hfound : table.nestedType? outer (table.key id) with
  | none =>
    exact absurd (List.mem_map_of_mem hid) (nestedType?_eq_none_iff.mp hfound)
  | some other =>
    have hkey : table.key other = table.key id := by simpa using List.find?_some hfound
    rw [List.inj_on_of_nodup_map hkeys (List.mem_of_find?_eq_some hfound) hid hkey]

theorem nestedKeys_addDefinition {d : TypeDefinition} (hd : d.members = []) {id : TypeId}
    (hlt : ∀ t ∈ table.nestedTypes id, t.index < table.definitions.size) :
    (table.addDefinition d).nestedKeys id = table.nestedKeys id := by
  rw [SymbolTable.nestedKeys, SymbolTable.nestedKeys, nestedTypes_addDefinition hd]
  exact List.map_congr_left fun t ht => (keeps_addDefinition d).key (hlt t ht)

theorem agrees_addMember (outer : TypeId) (m : Member) (id : TypeId) :
    (table.definition id).Agrees ((table.addMember outer m).definition id) := by
  rw [addMember, definition_updateDefinition]
  split
  · next h =>
    rw [h.1]
    exact ⟨rfl, rfl, rfl, rfl⟩
  · exact TypeDefinition.Agrees.refl _

/-- A type that is listed as a member brings its key with it. -/
theorem nestedKeys_addMember (outer t id : TypeId) :
    (table.addMember outer (.type t)).nestedKeys id = table.nestedKeys id ∨
      id = outer ∧
        (table.addMember outer (.type t)).nestedKeys id = table.nestedKeys id ++ [table.key t] := by
  have hkeys : (table.addMember outer (.type t)).nestedKeys id
      = ((table.addMember outer (.type t)).nestedTypes id).map table.key :=
    List.map_congr_left fun other _ => key_of_agrees (agrees_addMember outer _ other)
  rw [hkeys, nestedTypes_eq, addMember, definition_updateDefinition]
  split
  · next h =>
    refine Or.inr ⟨h.1, ?_⟩
    rw [typesAmong_concat, List.map_append, h.1]
    rfl
  · exact Or.inl rfl

end SymbolTable

namespace Binding.Outline

open SymbolTable (SameShape)

/-- What tells declared types apart: path and key in namespaces, and the key among the types that
one type lists. -/
structure Findable (o : Outline) : Prop extends WellFormed o where
  unique : ((o.root.placed []).map fun x => (x.path, x.key)).Nodup
  segmented : ∀ x ∈ o.root.placed [], Namespace.Segmented x.path
  nestedKeys : ∀ id, (o.table.nestedKeys id).Nodup

section

variable {a b o : Outline} {chain : ScopeChain} {enclosing : List TypeId}
  {d : Source.TypeDeclaration}

/-! ### The first pass -/

theorem segmented_addPart (h : Outlined o)
    (hs : ∀ x ∈ o.root.placed [], Namespace.Segmented x.path) :
    ∀ x ∈ (o.addPart chain enclosing d).root.placed [], Namespace.Segmented x.path := by
  cases enclosing with
  | cons outer rest =>
    rw [root_addPart_inside]
    exact hs
  | nil =>
    have hdeclares := declarePart_declares o chain [] d
    rw [addPart]
    generalize o.declarePart chain [] d = r at hdeclares ⊢
    cases hdeclares with
    | againInSpace _ =>
      rw [placed_openedRoot h]
      exact hs
    | firstInSpace _ =>
      have hperm := Namespace.perm_placed_addType (o.pathOf chain) [] (keyOf d) o.table.nextType
        (h.tabled_openedRoot chain)
      intro x hx
      rcases List.mem_cons.mp (hperm.mem_iff.mp hx) with rfl | hx
      · exact Namespace.segmented_trimmedParts _
      · rw [← placed_openedRoot h chain] at hs
        exact hs x hx

theorem nestedKeys_addPart (h : Outlined o) (hk : ∀ id, (o.table.nestedKeys id).Nodup)
    (id : TypeId) : ((o.addPart chain enclosing d).table.nestedKeys id).Nodup := by
  have hdeclares := declarePart_declares o chain enclosing d
  rw [addPart]
  generalize o.declarePart chain enclosing d = r at hdeclares ⊢
  cases hdeclares with
  | @againInside _ _ other _ =>
    rw [(sameShape_mergePart o.table other d).nestedKeys]
    exact hk id
  | @firstInside outer rest hnone =>
    generalize hdef : innerDefinition o.table outer d = inner
    have hold : (o.table.addDefinition inner).nestedKeys id = o.table.nestedKeys id :=
      SymbolTable.nestedKeys_addDefinition (hdef ▸ rfl) fun t ht => h.nested_lt id t ht
    have hnew : (o.table.addDefinition inner).key o.table.nextType = keyOf d := by
      rw [SymbolTable.key, SymbolTable.arity, SymbolTable.definition_addDefinition_nextType, ← hdef]
      simp only [innerDefinition, firstDefinition, keyOf, length_listed, List.length_map]
    have hlisted := @SymbolTable.nestedKeys_addMember (o.table.addDefinition inner) outer
      o.table.nextType id
    rw [hold, hnew] at hlisted
    rcases hlisted with he | ⟨rfl, he⟩
    · exact he ▸ hk id
    · rw [he]
      exact List.nodup_append_comm.mp (List.nodup_cons.mpr
        ⟨SymbolTable.nestedType?_eq_none_iff.mp hnone, hk id⟩)
  | @againInSpace other _ =>
    rw [(sameShape_mergePart o.table other d).nestedKeys]
    exact hk id
  | firstInSpace _ =>
    rw [SymbolTable.nestedKeys_addDefinition rfl fun t ht => h.nested_lt id t ht]
    exact hk id

theorem findable_empty (implicitUsings : Bool) : Findable { implicitUsings } := by
  refine ⟨(outlined_empty implicitUsings).toWellFormed, List.nodup_nil, fun x hx => ?_,
    fun id => ?_⟩
  · cases hx
  · rw [SymbolTable.nestedKeys, Library.nestedTypes_eq_nil]
    exact List.nodup_nil

/-- **The first pass keeps what tells types apart.** -/
theorem Reaches.findable (hr : Reaches a b) (h : Outlined a) (ht : Tallied a) (hf : Findable a) :
    Findable b := by
  suffices hrest : (∀ x ∈ b.root.placed [], Namespace.Segmented x.path) ∧
      ∀ id, (b.table.nestedKeys id).Nodup from
    ⟨(hr.outlined h).toWellFormed, (hr.tallied h ht).unique, hrest.1, hrest.2⟩
  induction hr with
  | start => exact ⟨hf.segmented, hf.nestedKeys⟩
  | rescoped _ hc ih =>
    rw [hc.root, hc.table]
    exact ih
  | @opened b hb name ih =>
    have hplaced := Namespace.placed_update_id (Namespace.trimmedParts name) []
      (hb.outlined h).places.tabled
    refine ⟨fun x hx => ih.1 x ?_, ih.2⟩
    rw [← hplaced]
    exact hx
  | part hb _ _ _ ih =>
    exact ⟨segmented_addPart (hb.outlined h) ih.1, nestedKeys_addPart (hb.outlined h) ih.2⟩

/-! ### The second pass -/

/-- **The second pass keeps it too.** -/
theorem Findable.grows (h : Findable a) (hg : Grows a b) : Findable b := by
  refine ⟨h.toWellFormed.grows hg, ?_, ?_, fun id => ?_⟩
  · rw [hg.root]
    exact h.unique
  · rw [hg.root]
    exact h.segmented
  · rw [hg.shape.nestedKeys]
    exact h.nestedKeys id

/-! ### Lookups -/

/-- What a namespace tree finds under a path and a key where only one type lies. -/
theorem lookupType?_of_placed {table : SymbolTable} {root : Namespace}
    (hplaces : table.Places root)
    (hunique : ((root.placed []).map fun x => (x.path, x.key)).Nodup) {x : Place}
    (hx : x ∈ root.placed []) (hs : Namespace.Segmented x.path) :
    root.lookupType? (Namespace.qualifiedName x.path) x.key = some x.id := by
  rw [Namespace.lookupType?, Namespace.parts_qualifiedName hs,
    Namespace.find?_of_placed hplaces.tabled hunique hx]

/-- **A type in a namespace is what its dotted name finds.** -/
theorem Findable.typeIn?_of_placed (h : Findable o) {x : Place} (hx : x ∈ o.root.placed []) :
    o.typeIn? (Namespace.qualifiedName x.path) x.key = some x.id := by
  rw [typeIn?, lookupType?_of_placed h.places h.unique hx (h.segmented x hx)]
  rfl

/-- **So is a well-known type, if nothing is declared under its path and key.** -/
theorem WellFormed.typeIn?_of_library (h : WellFormed o) {x : Place}
    (hx : x ∈ Library.root.placed [])
    (hfree : ∀ y ∈ o.root.placed [], y.path = x.path → y.key ≠ x.key) :
    o.typeIn? (Namespace.qualifiedName x.path) x.key = some x.id := by
  have hs := (Library.path_spec x hx).2
  have hnone : o.root.lookupType? (Namespace.qualifiedName x.path) x.key = none := by
    rw [Namespace.lookupType?, Namespace.parts_qualifiedName hs]
    refine Option.eq_none_iff_forall_ne_some.mpr fun id hid => ?_
    exact hfree _ (Namespace.mem_placed_of_find? h.places.tabled x.path [] hid) rfl rfl
  have hfound := lookupType?_of_placed Library.places Library.unique hx hs
  rw [typeIn?, hnone, Option.none_or, Library.lookupType?]
  exact hfound

/-- **A nested type is what its key finds in the type that lists it.** -/
theorem Findable.nestedType?_of_mem (h : Findable o) {outer id : TypeId}
    (hid : id ∈ o.table.nestedTypes outer) :
    o.table.nestedType? outer (o.table.key id) = some id :=
  SymbolTable.nestedType?_of_mem (h.nestedKeys outer) hid

end

end Binding.Outline

/-- What the files of a compilation declare can be found. -/
theorem Binding.Compilation.findable_addFiles {identity : AssemblyIdentity}
    {implicitUsings : Bool} {files : List (Text.Bytes × Source.Node)} {c : Binding.Compilation}
    (hfiles : (empty identity implicitUsings).addFiles files = .ok c) : c.outline.Findable :=
  (reaches_addFiles hfiles).1.findable (Outline.outlined_empty implicitUsings)
    (Outline.tallied_empty implicitUsings) (Outline.findable_empty implicitUsings)

end ExtensionCensus
