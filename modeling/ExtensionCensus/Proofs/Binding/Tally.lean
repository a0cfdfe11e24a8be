import ExtensionCensus.Proofs.Binding.TopLevel
import Mathlib.Data.List.Nodup

/-!
# What the parts of a type add up to

A type may be declared in any number of parts.  In the first pass its first part decides what kind
of type it is, and it is static as soon as any part says so.

* `Outline.partsOf` — the parts of a type, in order;
* `Outline.Tallied` — the invariant: types in namespaces differ in path or key, their first parts
  give their kinds, and they are static if any part is;
* `Reaches.tallied` — the first pass keeps it;
* `Tallied.forms_partsOf` — **the parts of a type in a namespace are those that were declared under
  its path and key**.
-/

namespace ExtensionCensus.Binding.Outline

open SymbolTable (Chain)
open Source (TypeDeclaration TopPart)

/-- The parts of a type, in the order in which they were declared. -/
def partsOf (o : Outline) (id : TypeId) : List DeclaredPart :=
  o.parts.filter (·.type = id)

/-- The types in namespaces are told apart by path and key, and each is what its parts add up to. -/
structure Tallied (o : Outline) : Prop where
  unique : ((o.root.placed []).map fun x => (x.path, x.key)).Nodup
  kind : ∀ x ∈ o.root.placed [],
    (o.partsOf x.id).head?.map (·.form.kind) = some (o.table.definition x.id).kind
  isStatic : ∀ x ∈ o.root.placed [],
    (o.table.definition x.id).traits.isStatic
      = (o.partsOf x.id).any (·.form.modifiers.isStatic)

section

variable {a b o : Outline} {chain : ScopeChain} {enclosing : List TypeId} {d : TypeDeclaration}

theorem tallied_empty (implicitUsings : Bool) : Tallied { implicitUsings } :=
  ⟨List.nodup_nil, fun x hx => (by cases hx), fun x hx => (by cases hx)⟩

/-- A step that leaves the places, and of each type that lies there the parts, the kind and whether
it is static. -/
theorem Tallied.congr (h : Tallied a) (hplaced : b.root.placed [] = a.root.placed [])
    (hdef : ∀ x ∈ a.root.placed [],
      (b.table.definition x.id).kind = (a.table.definition x.id).kind ∧
        (b.table.definition x.id).traits.isStatic = (a.table.definition x.id).traits.isStatic)
    (hparts : ∀ x ∈ a.root.placed [], b.partsOf x.id = a.partsOf x.id) : Tallied b := by
  refine ⟨hplaced ▸ h.unique, fun x hx => ?_, fun x hx => ?_⟩
  · rw [hplaced] at hx
    rw [hparts x hx, (hdef x hx).1]
    exact h.kind x hx
  · rw [hplaced] at hx
    rw [hparts x hx, (hdef x hx).2]
    exact h.isStatic x hx

/-! ### Types in namespaces and types in types -/

theorem WellFormed.lexicalOuter_placed (h : WellFormed o) {x : Place}
    (hx : x ∈ o.root.placed []) : o.table.lexicalOuter x.id = none := by
  rw [SymbolTable.lexicalOuter, h.places.container x hx]

/-- A type that another one lists lies in no namespace. -/
theorem WellFormed.ne_of_nested (h : WellFormed o) {x : Place} (hx : x ∈ o.root.placed [])
    {outer id : TypeId} (hid : id ∈ o.table.nestedTypes outer) : id ≠ x.id := by
  intro he
  have hsome := h.nested outer id hid
  rw [he, h.lexicalOuter_placed hx] at hsome
  cases hsome

/-- A definition that is made next lies nowhere yet. -/
theorem WellFormed.ne_nextType (h : WellFormed o) {x : Place} (hx : x ∈ o.root.placed []) :
    x.id ≠ o.table.nextType := fun he =>
  Nat.ne_of_lt (h.places.index_lt x hx) (SymbolTable.eq_nextType_iff.mp he)

/-- The parts of a type that lies in no other type lie in none either. -/
theorem WellFormed.enclosing_eq_nil (h : WellFormed o) {part : DeclaredPart} (hp : part ∈ o.parts)
    (houter : o.table.lexicalOuter part.type = none) : part.enclosing = [] := by
  have hchain := h.parts part hp
  cases he : part.enclosing with
  | nil => rfl
  | cons outer rest =>
    rw [he] at hchain
    cases hchain with
    | nested _ ho _ =>
      rw [houter] at ho
      cases ho

theorem WellFormed.partsOf_nextType (h : WellFormed o) : o.partsOf o.table.nextType = [] := by
  refine List.filter_eq_nil_iff.mpr fun part hp he => ?_
  have hlt := (h.parts part hp).head_lt
  rw [of_decide_eq_true he] at hlt
  exact Nat.lt_irrefl _ hlt

/-! ### The steps of the first pass -/

theorem partsOf_addPart (id : TypeId) : (o.addPart chain enclosing d).partsOf id
    = o.partsOf id ++ if (o.declarePart chain enclosing d).2 = id then
        [⟨(o.declarePart chain enclosing d).2, d, chain, enclosing⟩] else [] := by
  rw [partsOf, addPart_parts, List.filter_append, partsOf]
  by_cases h : (o.declarePart chain enclosing d).2 = id
  · rw [if_pos h, List.filter_cons_of_pos (by simpa using h), List.filter_nil]
  · rw [if_neg h, List.filter_cons_of_neg (by simpa using h), List.filter_nil]

/-- A part inside another type. -/
theorem tallied_addPart_inside (h : Outlined o) (ht : Tallied o) {outer : TypeId}
    {rest : List TypeId} : Tallied (o.addPart chain (outer :: rest) d) := by
  have hw := h.toWellFormed
  refine ht.congr (by rw [root_addPart_inside]) (fun x hx => ?_) fun x hx => ?_
  · have hdeclares := declarePart_declares o chain (outer :: rest) d
    rw [addPart]
    generalize o.declarePart chain (outer :: rest) d = r at hdeclares ⊢
    cases hdeclares with
    | @againInside _ _ id hid =>
      have hne := hw.ne_of_nested hx (List.mem_of_find?_eq_some hid)
      show ((mergePart o.table id d).definition x.id).kind = _ ∧
        ((mergePart o.table id d).definition x.id).traits.isStatic = _
      rw [mergePart, SymbolTable.definition_updateDefinition, if_neg fun he => hne he.1.symm]
      exact ⟨rfl, rfl⟩
    | firstInside _ =>
      generalize hdef : innerDefinition o.table outer d = inner
      show ((SymbolTable.addMember _ outer _).definition x.id).kind = _ ∧
        ((SymbolTable.addMember _ outer _).definition x.id).traits.isStatic = _
      have hold : (o.table.addDefinition inner).definition x.id = o.table.definition x.id := by
        rw [SymbolTable.definition_addDefinition, if_neg (hw.ne_nextType hx)]
      refine ⟨?_, ?_⟩
      · rw [← hold, SymbolTable.addMember, SymbolTable.definition_updateDefinition]
        split
        · next he => rw [he.1]
        · rfl
      · rw [SymbolTable.traits_addMember, hold]
  · rw [partsOf_addPart]
    have hne : (o.declarePart chain (outer :: rest) d).2 ≠ x.id := by
      have hdeclares := declarePart_declares o chain (outer :: rest) d
      generalize o.declarePart chain (outer :: rest) d = r at hdeclares ⊢
      cases hdeclares with
      | againInside hid => exact hw.ne_of_nested hx (List.mem_of_find?_eq_some hid)
      | firstInside _ => exact (hw.ne_nextType hx).symm
    rw [if_neg hne, List.append_nil]

/-- Another part of a type that lies in a namespace. -/
theorem tallied_addPart_again (h : Outlined o) (ht : Tallied o) {id : TypeId}
    (hid : ((o.openedRoot chain).find? (o.pathOf chain)).bind (·.type? (keyOf d)) = some id)
    (he : o.declarePart chain [] d
      = ({ o with root := o.openedRoot chain, table := mergePart o.table id d }, id)) :
    Tallied (o.addPart chain [] d) := by
  have hroot : (o.addPart chain [] d).root.placed [] = o.root.placed [] := by
    rw [addPart, he, placed_openedRoot h]
  have hparts : ∀ other, (o.addPart chain [] d).partsOf other
      = o.partsOf other ++ if id = other then [⟨id, d, chain, []⟩] else [] := by
    intro other
    rw [partsOf_addPart, he]
  have htable : (o.addPart chain [] d).table = mergePart o.table id d := by rw [addPart, he]
  have hlies := Namespace.mem_placed_of_find? (h.tabled_openedRoot chain) (o.pathOf chain) [] hid
  rw [placed_openedRoot h] at hlies
  have hlt := h.places.index_lt _ hlies
  refine ⟨hroot ▸ ht.unique, fun x hx => ?_, fun x hx => ?_⟩
  · rw [hroot] at hx
    have hkind := ht.kind x hx
    have hdef : ((mergePart o.table id d).definition x.id).kind
        = (o.table.definition x.id).kind := by
      rw [mergePart, SymbolTable.definition_updateDefinition]
      split
      · next hx => rw [hx.1]
      · rfl
    rw [hparts, htable, hdef, ← hkind]
    -- the first part is an old one
    cases hold : o.partsOf x.id with
    | nil =>
      rw [hold] at hkind
      cases hkind
    | cons first rest => rfl
  · rw [hroot] at hx
    rw [hparts, htable, mergePart, SymbolTable.definition_updateDefinition, List.any_append]
    by_cases hsame : id = x.id
    · rw [if_pos ⟨hsame.symm, hlt⟩, if_pos hsame, List.any_cons, List.any_nil, Bool.or_false]
      show ((o.table.definition id).traits.isStatic || d.modifiers.isStatic) = _
      rw [hsame, ht.isStatic x hx]
    · rw [if_neg fun hx => hsame hx.1.symm, if_neg hsame, List.any_nil, Bool.or_false]
      exact ht.isStatic x hx

/-- The first part of a type in a namespace. -/
theorem tallied_addPart_first (h : Outlined o) (ht : Tallied o)
    (hnone : ((o.openedRoot chain).find? (o.pathOf chain)).bind (·.type? (keyOf d)) = none)
    (he : o.declarePart chain [] d
      = ({ o with
           root := (o.openedRoot chain).update (·.addType (keyOf d) o.table.nextType)
             (o.pathOf chain)
           table := o.table.addDefinition
             (firstDefinition o.table d (.namespace (o.pathOf chain)) .internalAccess) },
         o.table.nextType)) :
    Tallied (o.addPart chain [] d) := by
  have hw := h.toWellFormed
  have hopened := h.tabled_openedRoot chain
  have hperm : ((o.addPart chain [] d).root.placed []).Perm
      (⟨o.pathOf chain, keyOf d, o.table.nextType⟩ :: o.root.placed []) := by
    rw [addPart, he, ← placed_openedRoot h chain]
    exact Namespace.perm_placed_addType (o.pathOf chain) [] (keyOf d) o.table.nextType hopened
  have hparts : ∀ other, (o.addPart chain [] d).partsOf other = o.partsOf other ++
      if o.table.nextType = other then [⟨o.table.nextType, d, chain, []⟩] else [] := by
    intro other
    rw [partsOf_addPart, he]
  have htable : (o.addPart chain [] d).table = o.table.addDefinition
      (firstDefinition o.table d (.namespace (o.pathOf chain)) .internalAccess) := by
    rw [addPart, he]
  refine ⟨?_, fun x hx => ?_, fun x hx => ?_⟩
  · refine ((hperm.map _).nodup_iff).mpr (List.nodup_cons.mpr ⟨fun hmem => ?_, ht.unique⟩)
    obtain ⟨x, hx, hkey⟩ := List.mem_map.mp hmem
    rw [Prod.mk.injEq] at hkey
    rw [← placed_openedRoot h chain] at hx
    obtain ⟨path, hpath, id, hid⟩ := Namespace.exists_find?_of_mem_placed [] _ hopened x hx
    rw [List.nil_append] at hpath
    rw [← hpath, hkey.1, hkey.2, hnone] at hid
    cases hid
  · rw [hparts, htable]
    rcases List.mem_cons.mp (hperm.mem_iff.mp hx) with rfl | hx
    · rw [hw.partsOf_nextType, SymbolTable.definition_addDefinition_nextType, if_pos rfl]
      rfl
    · rw [if_neg (hw.ne_nextType hx).symm, List.append_nil, SymbolTable.definition_addDefinition,
        if_neg (hw.ne_nextType hx)]
      exact ht.kind x hx
  · rw [hparts, htable]
    rcases List.mem_cons.mp (hperm.mem_iff.mp hx) with rfl | hx
    · rw [hw.partsOf_nextType, SymbolTable.definition_addDefinition_nextType, if_pos rfl]
      exact (Bool.or_false _).symm
    · rw [if_neg (hw.ne_nextType hx).symm, List.append_nil, SymbolTable.definition_addDefinition,
        if_neg (hw.ne_nextType hx)]
      exact ht.isStatic x hx

theorem tallied_addPart (h : Outlined o) (ht : Tallied o) :
    Tallied (o.addPart chain enclosing d) := by
  cases enclosing with
  | cons outer rest => exact tallied_addPart_inside h ht
  | nil =>
    have hdeclares := declarePart_declares o chain [] d
    generalize hr : o.declarePart chain [] d = r at hdeclares
    cases hdeclares with
    | againInSpace hid => exact tallied_addPart_again h ht hid hr
    | firstInSpace hnone => exact tallied_addPart_first h ht hnone hr

/-- **The first pass keeps the tally.** -/
theorem Reaches.tallied (hr : Reaches a b) (h : Outlined a) (ht : Tallied a) : Tallied b := by
  induction hr with
  | start => exact ht
  | rescoped _ hc ih =>
    refine ih.congr (by rw [hc.root]) (fun x _ => ?_) fun x _ => ?_
    · rw [hc.table]
      exact ⟨rfl, rfl⟩
    · rw [partsOf, hc.parts, partsOf]
  | @opened b hb name ih =>
    exact ih.congr (Namespace.placed_update_id _ [] (hb.outlined h).places.tabled)
      (fun x _ => ⟨rfl, rfl⟩) fun x _ => rfl
  | part hb _ _ _ ih => exact tallied_addPart (hb.outlined h) ih

/-! ### Parts by path and key -/

/-- The parts among some that are declared under a path and a key. -/
def partsAt (ts : List TopPart) (path : NamespacePath) (key : TypeKey) : List TopPart :=
  ts.filter fun t => t.path = path ∧ keyOf t.form = key

/-- A type lies at one place only. -/
theorem WellFormed.place_of_id (h : WellFormed o) {x y : Place} (hx : x ∈ o.root.placed [])
    (hy : y ∈ o.root.placed []) (hid : x.id = y.id) : x = y := by
  have hpath := h.places.container x hx
  have hkey := h.places.key x hx
  rw [hid, h.places.container y hy, Container.namespace.injEq] at hpath
  rw [hid, h.places.key y hy] at hkey
  cases x
  cases y
  simp_all

/-- At a path and a key lies one type only. -/
theorem Tallied.place_of_key (ht : Tallied o) {x y : Place} (hx : x ∈ o.root.placed [])
    (hy : y ∈ o.root.placed []) (hpath : x.path = y.path) (hkey : x.key = y.key) : x = y :=
  List.inj_on_of_nodup_map ht.unique hx hy (Prod.ext hpath hkey)

theorem WellFormed.partsOf_eq_tops (h : WellFormed o) {x : Place} (hx : x ∈ o.root.placed []) :
    o.partsOf x.id = o.tops.filter (·.type = x.id) := by
  rw [partsOf, tops, List.filter_filter]
  refine List.filter_congr fun part hp => ?_
  by_cases htype : part.type = x.id
  · have hnil := h.enclosing_eq_nil hp (htype ▸ h.lexicalOuter_placed hx)
    simp [htype, hnil]
  · simp [htype]

/-- **The parts of a type in a namespace are those declared under its path and key, in order.** -/
theorem Tallied.forms_partsOf (ht : Tallied o) (h : WellFormed o) {ts : List TopPart}
    (hts : List.Forall₂ (LiesAt o.root) o.tops ts) {x : Place} (hx : x ∈ o.root.placed []) :
    (o.partsOf x.id).map (·.form) = (partsAt ts x.path x.key).map (·.form) := by
  rw [h.partsOf_eq_tops hx, partsAt]
  generalize o.tops = parts at hts ⊢
  induction hts with
  | nil => rfl
  | @cons part t parts ts hl _ ih =>
    have hsame : part.type = x.id ↔ t.path = x.path ∧ keyOf t.form = x.key := by
      constructor
      · intro htype
        have hplace := h.place_of_id hl.placed hx htype
        exact ⟨congrArg Place.path hplace, congrArg Place.key hplace⟩
      · rintro ⟨hpath, hkey⟩
        exact congrArg Place.id (ht.place_of_key hl.placed hx hpath hkey)
    by_cases htype : part.type = x.id
    · rw [List.filter_cons_of_pos (by simpa using htype),
        List.filter_cons_of_pos (by simpa using hsame.mp htype), List.map_cons, List.map_cons, ih,
        hl.form]
    · rw [List.filter_cons_of_neg (by simpa using htype),
        List.filter_cons_of_neg (by simpa using fun hpath hkey => htype (hsame.mpr ⟨hpath, hkey⟩)),
        ih]

/-- Types lie exactly where parts are declared. -/
theorem Tallied.placed_iff (ht : Tallied o) (h : WellFormed o) {ts : List TopPart}
    (hts : List.Forall₂ (LiesAt o.root) o.tops ts) (path : NamespacePath) (key : TypeKey) :
    (∃ x ∈ o.root.placed [], x.path = path ∧ x.key = key) ↔ partsAt ts path key ≠ [] := by
  constructor
  · rintro ⟨x, hx, rfl, rfl⟩ hnone
    have hforms := ht.forms_partsOf h hts hx
    rw [hnone, List.map_nil, List.map_eq_nil_iff] at hforms
    have hkind := ht.kind x hx
    rw [hforms] at hkind
    cases hkind
  · intro hne
    obtain ⟨t, ht⟩ := List.exists_mem_of_ne_nil _ hne
    obtain ⟨hmem, hat⟩ := List.mem_filter.mp ht
    obtain ⟨part, -, hl⟩ := exists_of_mem_right hts hmem
    obtain ⟨hpath, hkey⟩ := of_decide_eq_true hat
    exact ⟨_, hl.placed, hpath, hkey⟩

end

end ExtensionCensus.Binding.Outline
