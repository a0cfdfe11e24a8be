import ExtensionCensus.Proofs.Binding.Nesting
import ExtensionCensus.Proofs.Binding.Placing

/-!
# Addresses of types

A declared type has an address: its namespace, and its key with those of the types around it.  Where a
table has the type says nothing of this.

* `SymbolTable.address` — the address, with `address_of_namespace`, `address_of_lexicalOuter` and
  `Keeps.address`;
* `Outline.Located` — the type lies in a namespace or in a type that is located;
* `Located.eq_of_address` — **at one address lies one type only**;
* `address_addPart`, `Reaches.located` — where the type of a part lies, and that types stay there.
-/

namespace ExtensionCensus

/-- The namespace that a type lies in, and the keys of the type and of those around it, from the inside
out. -/
abbrev Address := NamespacePath × List TypeKey

namespace SymbolTable

/-! ### Addresses -/

/-- The namespace that a declared type lies directly in. -/
def spaceOf (table : SymbolTable) (id : TypeId) : NamespacePath :=
  match (table.definition id).container with
  | .namespace path => path
  | _ => []

/-- The address of the declared type that stands at the head of a type. -/
def addressOf (table : SymbolTable) : Ty → Address
  | .named (.declared id) none _ => (table.spaceOf id, [table.key id])
  | .named (.declared id) (some outer) _ =>
    ((table.addressOf outer).1, table.key id :: (table.addressOf outer).2)
  | _ => ([], [])

/-- The address of a declared type. -/
def address (table : SymbolTable) (id : TypeId) : Address :=
  table.addressOf (table.definitionType id)

section

variable {table a b : SymbolTable} {id outer : TypeId}

theorem address_of_namespace {path : NamespacePath}
    (h : (table.definition id).container = .namespace path) :
    table.address id = (path, [table.key id]) := by
  rw [address, definitionType, lexicalOuter, h, addressOf, spaceOf, h]

theorem address_of_lexicalOuter (h : table.lexicalOuter id = some (table.definitionType outer)) :
    table.address id = ((table.address outer).1, table.key id :: (table.address outer).2) := by
  rw [address, definitionType, h, addressOf]
  rfl

/-- A type keeps its address when others are declared. -/
theorem Keeps.address (h : Keeps a b) (hn : Nests a) (id : TypeId)
    (hid : id.index < a.definitions.size) : b.address id = a.address id := by
  have hagrees := h.agrees id hid
  rcases hn id hid with ⟨path, hpath⟩ | ⟨outer, hlt, houter⟩
  · rw [address_of_namespace hpath, address_of_namespace (hagrees.container.trans hpath),
      h.key hid]
  · have hout := Nat.lt_trans hlt hid
    have hlies : a.lexicalOuter id = some (a.definitionType outer) := by
      rw [SymbolTable.lexicalOuter, houter]
    have hlies' : b.lexicalOuter id = some (b.definitionType outer) := by
      rw [h.lexicalOuter hid, h.definitionType hout, hlies]
    rw [address_of_lexicalOuter hlies, address_of_lexicalOuter hlies', h.key hid,
      h.address hn outer hout]
termination_by id.index

end

end SymbolTable

namespace Binding.Outline

open Source (TypeDeclaration)

/-! ### Types that are located -/

/-- The type lies in a namespace, or in a type that does. -/
inductive Located (o : Outline) : TypeId → Prop where
  | placed {x : Place} (hx : x ∈ o.root.placed []) : Located o x.id
  | nested {outer id : TypeId} (h : Located o outer) (hid : id ∈ o.table.nestedTypes outer) :
      Located o id

section

variable {o a b : Outline} {id other : TypeId}

theorem Located.lt (h : o.Located id) (hw : WellFormed o) :
    id.index < o.table.definitions.size := by
  cases h with
  | placed hx => exact hw.places.index_lt _ hx
  | nested _ hid => exact hw.nested_lt _ _ hid

theorem WellFormed.address_placed (hw : WellFormed o) {x : Place} (hx : x ∈ o.root.placed []) :
    o.table.address x.id = (x.path, [x.key]) := by
  rw [SymbolTable.address_of_namespace (hw.places.container x hx), hw.places.key x hx]

theorem WellFormed.address_nested (hw : WellFormed o) {outer : TypeId}
    (hid : id ∈ o.table.nestedTypes outer) : o.table.address id
      = ((o.table.address outer).1, o.table.key id :: (o.table.address outer).2) :=
  SymbolTable.address_of_lexicalOuter (hw.nested outer id hid)

theorem Located.keys_ne_nil (h : o.Located id) (hw : WellFormed o) :
    (o.table.address id).2 ≠ [] := by
  cases h with
  | placed hx =>
    rw [hw.address_placed hx]
    exact List.cons_ne_nil _ _
  | nested _ hid =>
    rw [hw.address_nested hid]
    exact List.cons_ne_nil _ _

/-- A type in a namespace and one in a type differ in how many keys their addresses have. -/
theorem Located.ne_of_nested (h : o.Located other) (hw : WellFormed o) {x : Place}
    (hx : x ∈ o.root.placed []) (hid : id ∈ o.table.nestedTypes other) :
    o.table.address x.id ≠ o.table.address id := by
  intro hsame
  rw [hw.address_placed hx, hw.address_nested hid, Prod.mk.injEq, List.cons.injEq] at hsame
  exact h.keys_ne_nil hw hsame.2.2.symm

/-- **At one address lies one type only.** -/
theorem Located.eq_of_address (hf : Findable o) (h : o.Located id) (h' : o.Located other)
    (hsame : o.table.address id = o.table.address other) : id = other := by
  have hw := hf.toWellFormed
  induction h generalizing other with
  | @placed x hx =>
    cases h' with
    | @placed y hy =>
      rw [hw.address_placed hx, hw.address_placed hy, Prod.mk.injEq, List.cons.injEq] at hsame
      exact congrArg Place.id
        (List.inj_on_of_nodup_map hf.unique hx hy (Prod.ext hsame.1 hsame.2.1))
    | nested houter hid => exact absurd hsame (houter.ne_of_nested hw hx hid)
  | @nested outer id houter hid ih =>
    cases h' with
    | placed hy => exact absurd hsame.symm (houter.ne_of_nested hw hy hid)
    | @nested outer' other houter' hother =>
      rw [hw.address_nested hid, hw.address_nested hother, Prod.mk.injEq, List.cons.injEq] at hsame
      obtain ⟨hpath, hkey, hkeys⟩ := hsame
      have hout : outer = outer' := ih houter' (Prod.ext hpath hkeys)
      subst hout
      have hfound := hf.nestedType?_of_mem hid
      rw [hkey, hf.nestedType?_of_mem hother] at hfound
      exact (Option.some.inj hfound).symm

/-- A type whose address has one key lies in the namespace of the address. -/
theorem Located.exists_place (h : o.Located id) (hw : WellFormed o) {path : NamespacePath}
    {key : TypeKey} (haddress : o.table.address id = (path, [key])) :
    ⟨path, key, id⟩ ∈ o.root.placed [] := by
  cases h with
  | @placed x hx =>
    rw [hw.address_placed hx, Prod.mk.injEq, List.cons.injEq] at haddress
    obtain ⟨rfl, rfl, -⟩ := haddress
    exact hx
  | nested houter hid =>
    rw [hw.address_nested hid, Prod.mk.injEq, List.cons.injEq] at haddress
    exact absurd haddress.2.2 (houter.keys_ne_nil hw)

/-- A type whose address has more keys lies in the type with the others of them. -/
theorem Located.exists_outer (h : o.Located id) (hw : WellFormed o) {path : NamespacePath}
    {key : TypeKey} {keys : List TypeKey} (hkeys : keys ≠ [])
    (haddress : o.table.address id = (path, key :: keys)) :
    ∃ outer, o.Located outer ∧ id ∈ o.table.nestedTypes outer ∧ o.table.key id = key ∧
      o.table.address outer = (path, keys) := by
  cases h with
  | placed hx =>
    rw [hw.address_placed hx, Prod.mk.injEq, List.cons.injEq] at haddress
    exact absurd haddress.2.2.symm hkeys
  | @nested outer id houter hid =>
    rw [hw.address_nested hid, Prod.mk.injEq, List.cons.injEq] at haddress
    exact ⟨outer, houter, hid, haddress.2.1, Prod.ext haddress.1 haddress.2.2⟩

end

/-! ### The first pass -/

section

variable {o a b : Outline} {chain : ScopeChain} {enclosing : List TypeId} {d : TypeDeclaration}
  {id outer : TypeId}

theorem keeps_addPart (o : Outline) (chain : ScopeChain) (enclosing : List TypeId)
    (d : TypeDeclaration) : SymbolTable.Keeps o.table (o.addPart chain enclosing d).table := by
  have hdeclares := declarePart_declares o chain enclosing d
  rw [addPart]
  generalize o.declarePart chain enclosing d = r at hdeclares ⊢
  cases hdeclares with
  | againInside _ => exact (sameShape_mergePart _ _ d).keeps
  | @firstInside outer _ _ =>
    exact (SymbolTable.keeps_addDefinition _).trans
      (SymbolTable.keeps_updateDefinition outer ⟨rfl, rfl, rfl, rfl⟩)
  | againInSpace _ => exact (sameShape_mergePart _ _ d).keeps
  | firstInSpace _ => exact SymbolTable.keeps_addDefinition _

/-- Types stay declared as they are. -/
theorem Reaches.keeps (hr : Reaches a b) : SymbolTable.Keeps a.table b.table := by
  induction hr with
  | start => exact .refl _
  | rescoped _ hc ih =>
    rw [hc.table]
    exact ih
  | opened _ _ ih => exact ih
  | part _ chain _ d ih => exact ih.trans (keeps_addPart _ chain _ d)

/-- A type that is listed by another one stays so. -/
theorem mem_nestedTypes_addPart (hid : id ∈ o.table.nestedTypes outer) :
    id ∈ (o.addPart chain enclosing d).table.nestedTypes outer := by
  have hdeclares := declarePart_declares o chain enclosing d
  rw [addPart]
  generalize o.declarePart chain enclosing d = r at hdeclares ⊢
  cases hdeclares with
  | againInside _ =>
    rw [(sameShape_mergePart _ _ d).nested]
    exact hid
  | @firstInside outer' _ _ =>
    generalize hdef : innerDefinition o.table outer' d = inner
    have hold : (o.table.addDefinition inner).nestedTypes outer = o.table.nestedTypes outer :=
      SymbolTable.nestedTypes_addDefinition (hdef ▸ rfl) outer
    rw [← hold, SymbolTable.nestedTypes_eq] at hid
    rw [SymbolTable.nestedTypes_eq, SymbolTable.addMember,
      SymbolTable.definition_updateDefinition]
    split
    · next he =>
      rw [SymbolTable.typesAmong_concat, ← he.1]
      exact List.mem_append_left _ hid
    · exact hid
  | againInSpace _ =>
    rw [(sameShape_mergePart _ _ d).nested]
    exact hid
  | firstInSpace _ =>
    rw [SymbolTable.nestedTypes_addDefinition rfl]
    exact hid

/-- The type of a part inside another type is listed by that one, under its key. -/
theorem nested_addPart (hlt : outer.index < o.table.definitions.size) (rest : List TypeId) :
    (o.declarePart chain (outer :: rest) d).2
        ∈ (o.addPart chain (outer :: rest) d).table.nestedTypes outer ∧
      (o.addPart chain (outer :: rest) d).table.key (o.declarePart chain (outer :: rest) d).2
        = keyOf d := by
  have hdeclares := declarePart_declares o chain (outer :: rest) d
  rw [addPart]
  generalize o.declarePart chain (outer :: rest) d = r at hdeclares ⊢
  cases hdeclares with
  | @againInside _ _ id hid =>
    have hshape := sameShape_mergePart o.table id d
    refine ⟨?_, ?_⟩
    · rw [hshape.nested]
      exact List.mem_of_find?_eq_some hid
    · rw [hshape.key]
      simpa using List.find?_some hid
  | firstInside _ =>
    generalize hdef : innerDefinition o.table outer d = inner
    have hout : outer.index < (o.table.addDefinition inner).definitions.size := by
      rw [SymbolTable.size_addDefinition]
      exact Nat.lt_succ_of_lt hlt
    refine ⟨?_, ?_⟩
    · rw [SymbolTable.nestedTypes_eq, SymbolTable.addMember,
        SymbolTable.definition_updateDefinition, if_pos ⟨rfl, hout⟩, SymbolTable.typesAmong_concat]
      exact List.mem_append_right _ List.mem_cons_self
    · rw [SymbolTable.key_of_agrees (SymbolTable.agrees_addMember outer _ _), SymbolTable.key,
        SymbolTable.arity, SymbolTable.definition_addDefinition_nextType, ← hdef]
      simp only [innerDefinition, firstDefinition, keyOf, length_listed, List.length_map]

/-- The address of a type that is declared at a place: in the namespace there, or in the type
there. -/
def addressIn (o : Outline) (chain : ScopeChain) (enclosing : List TypeId) (key : TypeKey) :
    Address :=
  match enclosing with
  | [] => (o.pathOf chain, [key])
  | outer :: _ => ((o.table.address outer).1, key :: (o.table.address outer).2)

/-- **The type of a part lies where the part is declared.** -/
theorem address_addPart (h : Outlined o) (hn : o.table.Nests) (ha : o.Around enclosing) :
    (o.addPart chain enclosing d).table.address (o.declarePart chain enclosing d).2
      = o.addressIn chain enclosing (keyOf d) := by
  have hw := (outlined_addPart h chain (h.toWellFormed.chain_of_around ha) d).toWellFormed
  cases enclosing with
  | nil => exact hw.address_placed (placed_addPart h).2
  | cons outer rest =>
    have hlt := (h.toWellFormed.chain_of_around ha).head_lt
    obtain ⟨hmem, hkey⟩ := @nested_addPart o chain d outer hlt rest
    rw [hw.address_nested hmem, hkey, (keeps_addPart o chain _ d).address hn outer hlt]
    rfl

theorem Reaches.mem_nestedTypes (hr : Reaches a b) (hid : id ∈ a.table.nestedTypes outer) :
    id ∈ b.table.nestedTypes outer := by
  induction hr with
  | start => exact hid
  | rescoped _ hc ih =>
    rw [hc.table]
    exact ih
  | opened _ _ ih => exact ih
  | part _ _ _ _ ih => exact mem_nestedTypes_addPart ih

/-- **A type that is located stays so.** -/
theorem Reaches.located (hr : Reaches a b) (h : Outlined a) (hl : a.Located id) :
    b.Located id := by
  induction hl with
  | placed hx => exact .placed (hr.mem_placed h hx)
  | nested _ hid ih => exact .nested ih (hr.mem_nestedTypes hid)

end

end Binding.Outline

end ExtensionCensus
