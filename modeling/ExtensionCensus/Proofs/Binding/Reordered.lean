import ExtensionCensus.Proofs.Binding.Entries

/-!
# Files in another order

In another order the same files enter the same parts, and every type has its counterpart at the same
address.

* `SameEntries` — two outlines entered the same, in whatever order;
* `sameEntries_ofFiles` — **so do files in another order, if at most one of them has a using directive
  that is in effect everywhere**;
* `Consistent` — the parts of a type agree about its kind and its accessibility;
* `Settled` — what holds of the outline of files whose parts agree;
* `Reordered` — a map that takes every type to its counterpart, and `exists_reordered`: there is one;
* `Reordered.injective`, `Reordered.mem_placed`, `Reordered.mem_nestedTypes` — **the map tells types
  apart, and counterparts lie where they lay**;
* `Reordered.perm_partsOf` — a type has the parts that its counterpart has.
-/

namespace ExtensionCensus.Binding

open Source (Node TypeForm UsingForm readItems usingsOfItems)

/-! ### Files -/

/-- The file has a using directive that is in effect in every file. -/
def hasGlobalUsings (file : Text.Bytes × Node) : Bool :=
  (usingsOfItems (readItems file.1 file.2)).any UsingForm.isGlobal

namespace Outline

/-- The outlines entered the same, parts in whatever order. -/
structure SameEntries (o o' : Outline) : Prop where
  entries : o.entries.Perm o'.entries
  implicitUsings : o'.implicitUsings = o.implicitUsings
  globalUsings : o'.globalUsings = o.globalUsings
  globalEntries : o'.globalEntries = o.globalEntries

theorem SameEntries.symm {o o' : Outline} (h : SameEntries o o') : SameEntries o' o :=
  ⟨h.entries.symm, h.implicitUsings.symm, h.globalUsings.symm, h.globalEntries.symm⟩

/-- Without such a directive a file puts none into effect elsewhere. -/
theorem globals_ofFile {file : Text.Bytes × Node} (h : hasGlobalUsings file = false) :
    (ofFile file).globalUsings = [] ∧ (ofFile file).globalEntries = [] := by
  have hlocal : ∀ form ∈ usingsOfItems (readItems file.1 file.2), form.isGlobal = false :=
    fun form hform => Bool.eq_false_iff.mpr (List.any_eq_false.mp h form hform)
  obtain ⟨chains, hadds⟩ := @adds_addFile (fun form => form.isGlobal = false) (fun _ _ => True)
    { implicitUsings := false } (readItems file.1 file.2) hlocal fun _ _ => trivial
  obtain ⟨husings, haliases, -⟩ := hadds.globals fun form hform => hform
  refine ⟨husings, ?_⟩
  have hnone : (ofFile file).globalAliases = [] := haliases
  rw [globalEntries, hnone, List.map_nil]

/-- **Files in another order enter the same.** -/
theorem sameEntries_ofFiles (implicitUsings : Bool) {files files' : List (Text.Bytes × Node)}
    (h : files.Perm files') (hone : (files.filter hasGlobalUsings).length ≤ 1) :
    SameEntries (ofFiles implicitUsings files) (ofFiles implicitUsings files') where
  entries := by
    rw [entries_ofFiles, entries_ofFiles]
    exact h.flatMap_right _
  implicitUsings := by rw [implicitUsings_ofFiles, implicitUsings_ofFiles]
  globalUsings := by
    rw [globalUsings_ofFiles, globalUsings_ofFiles]
    exact (flatMap_eq_of_perm (fun file hfile => (globals_ofFile hfile).1) h hone).symm
  globalEntries := by
    have hreverse : files.reverse.Perm files'.reverse :=
      (List.reverse_perm files).trans (h.trans (List.reverse_perm files').symm)
    rw [globalEntries_ofFiles, globalEntries_ofFiles]
    refine (flatMap_eq_of_perm (fun file hfile => (globals_ofFile hfile).2) hreverse ?_).symm
    rw [List.filter_reverse, List.length_reverse]
    exact hone

/-! ### Parts that agree -/

/-- The parts of a type say that it is of one kind, and no two of them state different
accessibilities. -/
def Consistent (o : Outline) : Prop :=
  ∀ p ∈ o.parts, ∀ q ∈ o.parts, p.type = q.type → p.form.kind = q.form.kind ∧
    ∀ x ∈ p.form.modifiers.access, ∀ y ∈ q.form.modifiers.access, x = y

instance (o : Outline) : Decidable (Consistent o) :=
  inferInstanceAs (Decidable (∀ p ∈ o.parts, ∀ q ∈ o.parts, p.type = q.type →
    p.form.kind = q.form.kind ∧
      ∀ x ∈ p.form.modifiers.access, ∀ y ∈ q.form.modifiers.access, x = y))

/-- What holds of the outline of files whose parts agree. -/
structure Settled (o : Outline) : Prop extends Grounded o, Findable o where
  tallied : Tallied o
  described : Described o
  linked : ∃ around, o.Linked around
  takes : o.Takes (TypeForm.Known fun _ => True)
  consistent : Consistent o

section

variable {o o' : Outline} {id other : TypeId}

theorem settled_ofFiles {implicitUsings : Bool} {files : List (Text.Bytes × Node)}
    (h : Consistent (ofFiles implicitUsings files)) : Settled (ofFiles implicitUsings files) where
  toGrounded := grounded_ofFiles implicitUsings files
  unique := findable_ofFiles.unique
  segmented := findable_ofFiles.segmented
  nestedKeys := findable_ofFiles.nestedKeys
  tallied := tallied_ofFiles
  described := described_ofFiles implicitUsings files
  linked := linked_ofFiles implicitUsings files
  takes := takes_ofFiles fun _ _ => Source.names_readItems fun _ _ => trivial
  consistent := h

theorem mem_entries {part : DeclaredPart} (h : part ∈ o.parts) : o.entryOf part ∈ o.entries :=
  List.mem_map_of_mem h

theorem exists_part_of_mem_entries {e : Entry} (h : e ∈ o.entries) :
    ∃ part ∈ o.parts, o.entryOf part = e :=
  List.mem_map.mp h

/-- Parts at one address are parts of one type. -/
theorem type_eq_of_address (hf : Findable o) (hd : Described o) {p q : DeclaredPart}
    (hp : p ∈ o.parts) (hq : q ∈ o.parts)
    (h : o.table.address p.type = o.table.address q.type) : p.type = q.type :=
  (hd.located p hp).eq_of_address hf (hd.located q hq) h

/-- Where the same was entered, parts agree that agreed. -/
theorem SameEntries.consistent (h : SameEntries o o') (hf : Findable o) (hd : Described o)
    (hc : Consistent o) : Consistent o' := by
  intro p hp q hq htype
  obtain ⟨p', hp', hsame⟩ := exists_part_of_mem_entries (h.entries.mem_iff.mpr (mem_entries hp))
  obtain ⟨q', hq', hsame'⟩ := exists_part_of_mem_entries (h.entries.mem_iff.mpr (mem_entries hq))
  simp only [entryOf, Entry.mk.injEq] at hsame hsame'
  have haddress : o.table.address p'.type = o.table.address q'.type := by
    rw [hsame.2.2, hsame'.2.2, htype]
  have hagree := hc p' hp' q' hq' (type_eq_of_address hf hd hp' hq' haddress)
  rwa [hsame.1, hsame'.1] at hagree

/-- A type is one of the library, or it is located, or it is not declared. -/
theorem Settled.cases (h : Settled o) (id : TypeId) :
    id.index < Library.table.definitions.size ∨ o.Located id ∨
      o.table.definitions.size ≤ id.index := by
  rcases Nat.lt_or_ge id.index Library.table.definitions.size with hlib | hle
  · exact Or.inl hlib
  · rcases Nat.lt_or_ge id.index o.table.definitions.size with hlt | hbeyond
    · exact Or.inr (Or.inl (h.described.located_of_le hle hlt))
    · exact Or.inr (Or.inr hbeyond)

theorem Settled.located_lt (h : Settled o) (hl : o.Located id) :
    id.index < o.table.definitions.size :=
  hl.lt h.toWellFormed

/-! ### Counterparts -/

/-- The map takes every type that is located to the type at the same address, and leaves those of the
library where they are. -/
structure Reordered (move : TypeId → TypeId) (o o' : Outline) : Prop where
  left : Settled o
  right : Settled o'
  entries : SameEntries o o'
  library : ∀ id, id.index < Library.table.definitions.size → move id = id
  located : ∀ id, o.Located id →
    o'.Located (move id) ∧ o'.table.address (move id) = o.table.address id
  beyond : ∀ id, o.table.definitions.size ≤ id.index →
    move id = ⟨id.index + o'.table.definitions.size⟩

/-- Where the same was entered, a type lies at every address at which one lay. -/
theorem SameEntries.exists_located (h : SameEntries o o') (hs : Settled o) (hs' : Settled o')
    (hl : o.Located id) : ∃ id', o'.Located id' ∧ o'.table.address id' = o.table.address id := by
  obtain ⟨part, hp, rfl⟩ :=
    hs.described.exists_part (hs.described.le_of_located hl) (hs.located_lt hl)
  obtain ⟨q, hq, hsame⟩ := exists_part_of_mem_entries (h.entries.mem_iff.mp (mem_entries hp))
  rw [entryOf, entryOf, Entry.mk.injEq] at hsame
  exact ⟨q.type, hs'.described.located q hq, hsame.2.2⟩

/-- **Where the same was entered, every type has a counterpart.** -/
theorem exists_reordered (hs : Settled o) (hs' : Settled o') (h : SameEntries o o') :
    ∃ move, Reordered move o o' := by
  have hcounterpart : ∀ id, ∃ id' : TypeId,
      (id.index < Library.table.definitions.size → id' = id) ∧
      (o.Located id → o'.Located id' ∧ o'.table.address id' = o.table.address id) ∧
      (o.table.definitions.size ≤ id.index → id' = ⟨id.index + o'.table.definitions.size⟩) := by
    intro id
    have hsize := hs.library.size_le
    rcases hs.cases id with hlib | hl | hbeyond
    · refine ⟨id, fun _ => rfl, fun hl => ?_, fun hle => ?_⟩
      · exact absurd hlib (Nat.not_lt_of_le (hs.described.le_of_located hl))
      · exact absurd (Nat.lt_of_lt_of_le hlib hsize) (Nat.not_lt_of_le hle)
    · obtain ⟨id', hl', haddress⟩ := h.exists_located hs hs' hl
      refine ⟨id', fun hlib => ?_, fun _ => ⟨hl', haddress⟩, fun hle => ?_⟩
      · exact absurd hlib (Nat.not_lt_of_le (hs.described.le_of_located hl))
      · exact absurd (hs.located_lt hl) (Nat.not_lt_of_le hle)
    · refine ⟨⟨id.index + o'.table.definitions.size⟩, fun hlib => ?_, fun hl => ?_, fun _ => rfl⟩
      · exact absurd (Nat.lt_of_lt_of_le hlib hsize) (Nat.not_lt_of_le hbeyond)
      · exact absurd (hs.located_lt hl) (Nat.not_lt_of_le hbeyond)
  choose move hmove using hcounterpart
  exact ⟨move, hs, hs', h, fun id => (hmove id).1, fun id => (hmove id).2.1,
    fun id => (hmove id).2.2⟩

namespace Reordered

variable {move : TypeId → TypeId}

/-- The counterpart is the type at the same address. -/
theorem eq_of_address (h : Reordered move o o') (hl : o.Located id) (hl' : o'.Located other)
    (haddress : o'.table.address other = o.table.address id) : move id = other :=
  (h.located id hl).1.eq_of_address h.right.toFindable hl'
    ((h.located id hl).2.trans haddress.symm)

/-- Every type that is located is a counterpart. -/
theorem exists_source (h : Reordered move o o') (hl' : o'.Located other) :
    ∃ id, o.Located id ∧ move id = other := by
  obtain ⟨id, hl, haddress⟩ := h.entries.symm.exists_located h.right h.left hl'
  exact ⟨id, hl, h.eq_of_address hl hl' haddress.symm⟩

theorem lt (h : Reordered move o o') (hid : id.index < o.table.definitions.size) :
    (move id).index < o'.table.definitions.size := by
  rcases h.left.cases id with hlib | hl | hbeyond
  · rw [h.library id hlib]
    exact Nat.lt_of_lt_of_le hlib h.right.library.size_le
  · exact h.right.located_lt (h.located id hl).1
  · exact absurd hid (Nat.not_lt_of_le hbeyond)

theorem library_of_lt (h : Reordered move o o')
    (hid : (move id).index < Library.table.definitions.size) :
    id.index < Library.table.definitions.size := by
  rcases h.left.cases id with hlib | hl | hbeyond
  · exact hlib
  · exact absurd hid (Nat.not_lt_of_le (h.right.described.le_of_located (h.located id hl).1))
  · rw [h.beyond id hbeyond] at hid
    have hsize := h.right.library.size_le
    have hle : o'.table.definitions.size ≤ id.index + o'.table.definitions.size :=
      Nat.le_add_left _ _
    exact absurd hid (Nat.not_lt_of_le (Nat.le_trans hsize hle))

theorem lt_of_lt (h : Reordered move o o')
    (hid : (move id).index < o'.table.definitions.size) : id.index < o.table.definitions.size := by
  rcases Nat.lt_or_ge id.index o.table.definitions.size with hlt | hbeyond
  · exact hlt
  · rw [h.beyond id hbeyond] at hid
    exact absurd hid (Nat.not_lt_of_le (Nat.le_add_left _ _))

/-- **The map tells types apart.** -/
theorem injective (h : Reordered move o o') : Function.Injective move := by
  intro id other hsame
  rcases h.left.cases id with hlib | hl | hbeyond
  · have hlib' : other.index < Library.table.definitions.size := by
      refine h.library_of_lt ?_
      rw [← hsame, h.library id hlib]
      exact hlib
    rwa [h.library id hlib, h.library other hlib'] at hsame
  · rcases h.left.cases other with hlib | hl' | hbeyond
    · have hlib' : id.index < Library.table.definitions.size := by
        refine h.library_of_lt ?_
        rw [hsame, h.library other hlib]
        exact hlib
      exact absurd hlib' (Nat.not_lt_of_le (h.left.described.le_of_located hl))
    · refine hl.eq_of_address h.left.toFindable hl' ?_
      rw [← (h.located id hl).2, hsame, (h.located other hl').2]
    · have hlt := h.lt_of_lt (hsame ▸ h.lt (h.left.located_lt hl))
      exact absurd hlt (Nat.not_lt_of_le hbeyond)
  · have hbeyond' : o.table.definitions.size ≤ other.index := by
      refine Nat.le_of_not_lt fun hlt => ?_
      exact Nat.not_lt_of_le hbeyond (h.lt_of_lt (hsame ▸ h.lt hlt))
    rw [h.beyond id hbeyond, h.beyond other hbeyond', TypeId.mk.injEq] at hsame
    have hindex := Nat.add_right_cancel hsame
    cases id
    cases other
    exact congrArg TypeId.mk hindex

/-! ### Where counterparts lie -/

/-- **A type in a namespace has its counterpart there, under the same key.** -/
theorem mem_placed (h : Reordered move o o') {x : Place} (hx : x ∈ o.root.placed []) :
    ⟨x.path, x.key, move x.id⟩ ∈ o'.root.placed [] := by
  obtain ⟨hl', haddress⟩ := h.located x.id (.placed hx)
  rw [h.left.toWellFormed.address_placed hx] at haddress
  exact hl'.exists_place h.right.toWellFormed haddress

theorem exists_placed (h : Reordered move o o') {y : Place} (hy : y ∈ o'.root.placed []) :
    ∃ x ∈ o.root.placed [], x.path = y.path ∧ x.key = y.key ∧ move x.id = y.id := by
  obtain ⟨id, hl, hmove⟩ := h.exists_source (.placed hy)
  have haddress := (h.located id hl).2
  rw [hmove, h.right.toWellFormed.address_placed hy] at haddress
  exact ⟨_, hl.exists_place h.left.toWellFormed haddress.symm, rfl, rfl, hmove⟩

theorem located_of_nested (h : Reordered move o o') {outer : TypeId}
    (hid : id ∈ o.table.nestedTypes outer) : o.Located outer :=
  h.left.described.located_of_le (h.left.described.nested_le outer id hid).1
    (SymbolTable.lt_of_mem_nestedTypes hid)

/-- **A type in another one has its counterpart in the counterpart of that one.** -/
theorem mem_nestedTypes (h : Reordered move o o') {outer : TypeId}
    (hid : id ∈ o.table.nestedTypes outer) : move id ∈ o'.table.nestedTypes (move outer) := by
  have houter := h.located_of_nested hid
  have hkeys := houter.keys_ne_nil h.left.toWellFormed
  obtain ⟨hl', haddress⟩ := h.located id (houter.nested hid)
  rw [h.left.toWellFormed.address_nested hid] at haddress
  obtain ⟨outer', hl'', hmem, -, haddress'⟩ :=
    hl'.exists_outer h.right.toWellFormed hkeys haddress
  rwa [h.eq_of_address houter hl'' haddress']

theorem exists_nested (h : Reordered move o o') {outer : TypeId}
    (hother : other ∈ o'.table.nestedTypes (move outer)) (houter : o.Located outer) :
    ∃ id ∈ o.table.nestedTypes outer, move id = other := by
  have hl' := (h.located outer houter).1
  obtain ⟨id, hl, rfl⟩ := h.exists_source (hl'.nested hother)
  have haddress := (h.located id hl).2
  rw [h.right.toWellFormed.address_nested hother, (h.located outer houter).2] at haddress
  obtain ⟨outer', hl'', hmem, -, haddress'⟩ := hl.exists_outer h.left.toWellFormed
    (houter.keys_ne_nil h.left.toWellFormed) haddress.symm
  have hsame : outer' = outer := hl''.eq_of_address h.left.toFindable houter haddress'
  exact ⟨id, hsame ▸ hmem, rfl⟩

/-! ### Parts -/

/-- The parts of a type that is located are those that were entered at its address. -/
theorem entries_at (hs : Settled o) (hl : o.Located id) : (o.partsOf id).map o.entryOf
    = o.entries.filter fun e => e.address = o.table.address id := by
  rw [Outline.entries, List.filter_map, partsOf]
  refine congrArg _ (List.filter_congr fun part hp => ?_)
  rw [Function.comp_apply, decide_eq_decide]
  refine ⟨fun he => congrArg o.table.address he, fun he => ?_⟩
  exact (hs.described.located part hp).eq_of_address hs.toFindable hl he

/-- **A type has the parts that its counterpart has.** -/
theorem perm_partsOf (h : Reordered move o o') (hl : o.Located id) :
    ((o.partsOf id).map o.entryOf).Perm ((o'.partsOf (move id)).map o'.entryOf) := by
  obtain ⟨hl', haddress⟩ := h.located id hl
  rw [entries_at h.left hl, entries_at h.right hl', haddress]
  exact h.entries.entries.filter _

theorem perm_forms (h : Reordered move o o') (hl : o.Located id) :
    ((o.partsOf id).map (·.form)).Perm ((o'.partsOf (move id)).map (·.form)) := by
  have hperm := (h.perm_partsOf hl).map Entry.form
  rwa [List.map_map, List.map_map] at hperm

end Reordered

end

end Outline

end ExtensionCensus.Binding
