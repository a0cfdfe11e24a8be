import ExtensionCensus.Proofs.Binding.Paired
import ExtensionCensus.Proofs.Extension.Classifying
import ExtensionCensus.Proofs.Extension.Containers

/-!
# Extension methods of containers in another order

In another order of files the extension methods of a container are made in another order, and each has
its partner among those of the counterpart.

* `Reordered.faces`, `Reordered.display` — counterparts are shown alike;
* `Reordered.perm_partMembers`, `Reordered.exists_made` — **counterparts declare the same members**, so
  the same members are made of them;
* `Reordered.hasOtherMembers` — they have other members alike;
* `Reordered.exists_methods` — **every extension method has its partner, which is the same up to where
  types and methods are**;
* `Reordered.classifyMethod` — **partners are classified alike**.
-/

namespace ExtensionCensus.Binding.Outline

open SymbolTable (SameFaces)
open Source (MethodForm)

section

variable {o o' a b : Outline} {move : TypeId → TypeId} {r : Renaming} {made made' : List Made}
  {id : TypeId} {k k' : MethodId}

/-- Counterparts are shown alike on the way through the second pass. -/
theorem Reordered.faces (h : Reordered move o o') (hr : r.type = move) (ha : Ahead o a)
    (hb : Ahead o' b) : SameFaces r a.table b.table := by
  subst hr
  constructor
  case name =>
    intro id
    rw [(hb.shape.agrees _).name, (ha.shape.agrees id).name, h.name]
  case container =>
    intro id
    rw [(hb.shape.agrees _).container, (ha.shape.agrees id).container, h.container r.method]
  case kind =>
    intro id
    rw [(hb.shape.agrees _).kind, (ha.shape.agrees id).kind, h.kind]
  case keyword =>
    intro id
    rw [(hb.sameLabel _).keyword, (ha.sameLabel id).keyword, h.keyword]
  case metadataName =>
    intro id
    rw [(hb.sameLabel _).metadataName, (ha.sameLabel id).metadataName, h.metadataName]

theorem Reordered.definitionType_ahead (h : Reordered move o o') (hr : r.type = move) (ha : Ahead o a)
    (hb : Ahead o' b) (id : TypeId) :
    b.table.definitionType (move id) = (a.table.definitionType id).rename r := by
  subst hr
  rw [hb.shape.definitionType, ha.shape.definitionType]
  exact h.definitionType r.method id

/-- A type in a namespace is as accessible as its counterpart. -/
theorem Reordered.access_ahead (h : Reordered move o o') (ha : Ahead o a) (hb : Ahead o' b) {x : Place}
    (hx : x ∈ o.root.placed []) :
    (b.table.traits (b.table.definitionType (move x.id))).access
      = (a.table.traits (a.table.definitionType x.id)).access := by
  rw [traits_definitionType, traits_definitionType, (hb.sameLabel _).access,
    (ha.sameLabel _).access, h.access hx]

/-- No type parameter is in scope for a type that may hold extension methods. -/
theorem not_inTypeScope_of_mayExtend {table : SymbolTable} (hmay : mayExtend table id = true)
    (p : TypeParameterRef) : ¬ table.InTypeScope id p := by
  rintro ⟨top, htop, hp⟩
  cases htop with
  | self =>
    rw [typeParametersOf_of_mayExtend hmay] at hp
    cases hp
  | outer hid _ =>
    rw [lexicalOuter_of_mayExtend hmay] at hid
    cases hid

/-- **A type that may hold extension methods is shown as its counterpart is.** -/
theorem Reordered.display (h : Reordered move o o') (ha : Ahead o a) (hb : Ahead o' b) {x : Place}
    (hx : x ∈ o.root.placed []) (hmay : Outline.mayExtend o.table x.id = true) :
    b.table.display (b.table.definitionType (move x.id))
      = a.table.display (a.table.definitionType x.id) := by
  have hmay' : Outline.mayExtend a.table x.id = true := by rw [mayExtend_grows ha.toGrows, hmay]
  have hlt : x.id.index < a.table.definitions.size := by
    rw [ha.shape.size]
    exact h.left.toWellFormed.places.index_lt x hx
  have hchain : a.table.Chain [x.id] := .top hlt (lexicalOuter_of_mayExtend hmay')
  rw [h.definitionType_ahead (r := ⟨move, fun m => m⟩) rfl ha hb]
  refine (h.faces rfl ha hb).display_rename _ fun p hp => ?_
  exact absurd (hchain.within p hp) (not_inTypeScope_of_mayExtend hmay' p)

/-! ### What counterparts declare -/

theorem partMembers_cons (table : SymbolTable) (part : DeclaredPart) (rest : List DeclaredPart) :
    partMembers table (part :: rest)
      = (declaredMembers (table.definition part.type).kind part).map (part, ·)
        ++ partMembers table rest :=
  List.flatMap_cons

theorem filter_partMembers (table : SymbolTable) (parts : List DeclaredPart) (id : TypeId) :
    (partMembers table parts).filter (·.1.type = id)
      = partMembers table (parts.filter (·.type = id)) := by
  induction parts with
  | nil => rfl
  | cons part rest ih =>
    rw [partMembers_cons, List.filter_append, List.filter_map, ih]
    by_cases htype : part.type = id
    · have hall : ∀ form ∈ declaredMembers (table.definition part.type).kind part,
          ((fun x : DeclaredPart × Option MethodForm => decide (x.1.type = id)) ∘ (part, ·)) form
            = true := fun form _ => decide_eq_true htype
      rw [List.filter_cons_of_pos (by simpa using htype), partMembers_cons,
        List.filter_eq_self.mpr hall]
    · have hnone : ∀ form ∈ declaredMembers (table.definition part.type).kind part,
          ¬ ((fun x : DeclaredPart × Option MethodForm => decide (x.1.type = id)) ∘ (part, ·)) form
            = true := fun form _ => by simpa using htype
      rw [List.filter_cons_of_neg (by simpa using htype), List.filter_eq_nil_iff.mpr hnone,
        List.map_nil, List.nil_append]

/-- What is made of a type is what its parts declare. -/
theorem BoundBy.made_of (h : BoundBy o a made) (id : TypeId) :
    (made.filter (·.part.type = id)).map (fun e => (e.part, e.form?))
      = partMembers o.table (o.partsOf id) := by
  rw [partsOf, ← filter_partMembers, ← h.declared, List.filter_map]
  rfl

/-- What a part declares is told by its form. -/
theorem declaredMembers_congr {p q : DeclaredPart} (h : q.form = p.form) (kind : DefinitionKind) :
    declaredMembers kind q = declaredMembers kind p := by
  simp only [declaredMembers, declaredByParameters, invokeForm, primaryConstructorForm, h]

/-- **The parts of counterparts declare the same members.** -/
theorem Reordered.perm_partMembers (h : Reordered move o o') (hl : o.Located id) :
    ((partMembers o.table (o.partsOf id)).map fun x => (o.entryOf x.1, x.2)).Perm
      ((partMembers o'.table (o'.partsOf (move id))).map fun x => (o'.entryOf x.1, x.2)) := by
  obtain ⟨parts, hparts, hmatch⟩ := exists_forall₂_of_perm_map (h.perm_partsOf hl)
  have hsame : (partMembers o.table (o.partsOf id)).map (fun x => (o.entryOf x.1, x.2))
      = (partMembers o'.table parts).map (fun x => (o'.entryOf x.1, x.2)) := by
    rw [partMembers, partMembers, List.map_flatMap, List.map_flatMap, List.flatMap_def,
      List.flatMap_def]
    refine congrArg _ (map_eq_map_of_forall₂ (forall₂_with_mem hmatch) fun p hp q hpq => ?_)
    obtain ⟨⟨-, hq⟩, hentry⟩ := hpq
    have hp : p ∈ o.parts := (List.mem_filter.mp hp).1
    have hq : q ∈ o'.parts := (List.mem_filter.mp (hparts.mem_iff.mp hq)).1
    have hform : q.form = p.form := congrArg Entry.form hentry.symm
    rw [kind_of_part h.left hp, kind_of_part h.right hq, declaredMembers_congr hform, hform,
      List.map_map, List.map_map]
    exact List.map_congr_left fun form _ => congrArg (·, form) hentry
  rw [hsame]
  exact (hparts.flatMap_right _).map _

/-- **The same members are made of counterparts**, in some order. -/
theorem Reordered.exists_made (h : Reordered move o o') (hl : o.Located id) (hm : BoundBy o a made)
    (hm' : BoundBy o' b made') : ∃ others : List Made,
      others.Perm (made'.filter (·.part.type = move id)) ∧
      List.Forall₂ (fun e e' => o'.entryOf e'.part = o.entryOf e.part ∧ e'.form? = e.form?)
        (made.filter (·.part.type = id)) others := by
  have hperm := h.perm_partMembers hl
  rw [← hm.made_of, ← hm'.made_of, List.map_map, List.map_map] at hperm
  obtain ⟨others, hothers, hmatch⟩ := exists_forall₂_of_perm_map hperm
  refine ⟨others, hothers, hmatch.imp fun e e' hsame => ?_⟩
  obtain ⟨hentry, hform⟩ := Prod.mk.inj hsame
  exact ⟨hentry.symm, hform.symm⟩

/-- Members that are made from one form are extension methods alike. -/
theorem extension?_eq_none_iff {e e' : Made} (h : e'.form? = e.form?) :
    e'.extension? = none ↔ e.extension? = none := by
  cases e <;> cases e' <;> cases h <;> simp [Made.extension?]

theorem Settled.mem_declaredTypes (hs : Settled o) (hl : o.Located id) : id ∈ o.declaredTypes := by
  obtain ⟨part, hp, rfl⟩ := hs.described.exists_part (hs.described.le_of_located hl)
    (hs.located_lt hl)
  exact List.mem_eraseDups.mpr (List.mem_map_of_mem hp)

/-- **Counterparts have other members alike.** -/
theorem Reordered.hasOtherMembers (h : Reordered move o o') (hbound : o.bind = .ok a)
    (hbound' : o'.bind = .ok b) {x : Place} (hx : x ∈ o.root.placed [])
    (hmay : Outline.mayExtend o.table x.id = true) :
    b.table.hasOtherMembers (move x.id) = a.table.hasOtherMembers x.id := by
  have hl : o.Located x.id := .placed hx
  have hmay' : Outline.mayExtend o'.table (move x.id) = true := by rw [h.mayExtend hx, hmay]
  obtain ⟨made, hm⟩ := h.left.toOutlined.boundBy hbound
  obtain ⟨made', hm'⟩ := h.right.toOutlined.boundBy hbound'
  obtain ⟨others, hothers, hmatch⟩ := h.exists_made hl hm hm'
  rw [Bool.eq_iff_iff, hm'.hasOtherMembers_iff h.right.toOutlined hbound' hmay'
    (h.right.mem_declaredTypes (h.located _ hl).1), hm.hasOtherMembers_iff h.left.toOutlined hbound hmay
    (h.left.mem_declaredTypes hl), h.kind]
  refine or_congr ⟨fun hne => ?_, fun hne => ?_⟩ (or_congr ⟨?_, ?_⟩ Iff.rfl)
  · obtain ⟨inner, hinner⟩ := List.exists_mem_of_ne_nil _ hne
    obtain ⟨id, hid, -⟩ := h.exists_nested hinner hl
    exact List.ne_nil_of_mem hid
  · obtain ⟨inner, hinner⟩ := List.exists_mem_of_ne_nil _ hne
    exact List.ne_nil_of_mem (h.mem_nestedTypes hinner)
  · rintro ⟨e', he', htype, hnone⟩
    have hmem : e' ∈ others := hothers.mem_iff.mpr (List.mem_filter.mpr ⟨he', decide_eq_true htype⟩)
    obtain ⟨e, he, -, hform⟩ := exists_of_mem_right hmatch hmem
    obtain ⟨he, htype⟩ := List.mem_filter.mp he
    exact ⟨e, he, of_decide_eq_true htype, (extension?_eq_none_iff hform).mp hnone⟩
  · rintro ⟨e, he, htype, hnone⟩
    obtain ⟨e', he', -, hform⟩ := exists_of_mem_left hmatch
      (List.mem_filter.mpr ⟨he, decide_eq_true htype⟩)
    obtain ⟨he', htype⟩ := List.mem_filter.mp (hothers.mem_iff.mp he')
    exact ⟨e', he', of_decide_eq_true htype, (extension?_eq_none_iff hform).mpr hnone⟩

/-! ### Partners -/

/-- Extension methods are made from forms, each once. -/
theorem Outlined.extensionMethods (ho : Outlined o) (hbound : o.bind = .ok a) (id : TypeId) :
    (∀ k ∈ a.table.extensionMethods id, ∃ form, Implements a.table id k form) ∧
      (a.table.extensionMethods id).Nodup := by
  obtain ⟨extra, hmakes, -, -⟩ := ho.makes_bind hbound
  obtain ⟨himplements, hnodup⟩ := extensionMethods_of_makes hmakes (ho.bare.methodIds id)
  refine ⟨fun k hk => ?_, hnodup⟩
  obtain ⟨form, -, hform⟩ := exists_of_mem_left himplements hk
  exact ⟨form, hform⟩

/-- **Every extension method of a type has its partner among those of the counterpart, which is the same
up to where types and methods are.** -/
theorem Reordered.exists_methods (h : Reordered move o o') (hbound : o.bind = .ok a)
    (hbound' : o'.bind = .ok b) {x : Place} (hx : x ∈ o.root.placed [])
    (hmay : Outline.mayExtend o.table x.id = true) : ∃ partner : MethodId → MethodId,
      ((a.table.extensionMethods x.id).map partner).Perm (b.table.extensionMethods (move x.id)) ∧
      ∀ k ∈ a.table.extensionMethods x.id, b.table.method (partner k)
        = (a.table.method k).rename (toMethod move (partner k)) := by
  have hmay' : Outline.mayExtend o'.table (move x.id) = true := by rw [h.mayExtend hx, hmay]
  obtain ⟨made, hm⟩ := h.left.toOutlined.boundBy hbound
  obtain ⟨made', hm'⟩ := h.right.toOutlined.boundBy hbound'
  obtain ⟨others, hothers, hmatch⟩ := h.exists_made (.placed hx) hm hm'
  have hpaired : List.Forall₂ (fun k k' => b.table.method k'
      = (a.table.method k).rename (toMethod move k'))
      ((made.filter (·.part.type = x.id)).filterMap Made.extension?)
      (others.filterMap Made.extension?) := by
    refine List.rel_filterMap (fun e e' hee => ?_) (forall₂_with_mem hmatch)
    obtain ⟨⟨he, he'⟩, hentry, hform⟩ := hee
    obtain ⟨he, htype⟩ := List.mem_filter.mp he
    have he' := (List.mem_filter.mp (hothers.mem_iff.mp he')).1
    have htype : e.part.type = x.id := of_decide_eq_true htype
    cases e with
    | value v p =>
      cases e' with
      | value v' q => exact .none
      | method k' q form' => cases hform
    | method k p form =>
      cases e' with
      | value v' q => cases hform
      | method k' q form' =>
        cases hform
        rw [Made.extension?, Made.extension?]
        split
        · exact .some (h.method (hm.part_mem he) (hm'.part_mem he') hentry
            (htype ▸ hmay) (hm.stems he) (hm'.stems he'))
        · exact .none
  rw [← hm.extensionMethods h.left.toOutlined hmay] at hpaired
  obtain ⟨partner, hmap, hpartner⟩ := exists_map_of_forall₂ hpaired
    (h.left.toOutlined.extensionMethods hbound x.id).2
  refine ⟨partner, ?_, hpartner⟩
  rw [hmap, hm'.extensionMethods h.right.toOutlined hmay']
  exact hothers.filterMap _

/-- **In the signature of an extension method only its own type parameters occur.** -/
theorem Outlined.within_extensionMethod (ho : Outlined o) (hbound : o.bind = .ok a)
    (hmay : mayExtend o.table id = true) (hk : k ∈ a.table.extensionMethods id) :
    ∀ t ∈ (a.table.method k).types, t.Within (· ∈ a.table.methodTypeParameters k) := by
  intro t ht p hp
  obtain ⟨extra, hmakes, -, -⟩ := ho.makes_bind hbound
  obtain ⟨form, hform⟩ := (ho.extensionMethods hbound id).1 k hk
  have hscoped := scoped_bind ho.toWellFormed (scoped_of_bare ho.bare) hbound
  obtain ⟨owner, howner, hwithin⟩ := hscoped.methods k hform.lt
  rw [hform.container, Option.some.injEq] at howner
  have hsame : id = owner := SymbolTable.definitionType_injective howner
  rcases hwithin t ht p hp with hown | htype
  · exact hown
  · rw [← hsame] at htype
    have hmay' : mayExtend a.table id = true := by rw [mayExtend_grows hmakes.grows, hmay]
    exact absurd htype (not_inTypeScope_of_mayExtend hmay' p)

/-- **Partners are classified alike.** -/
theorem Reordered.classifyMethod (h : Reordered move o o') (hbound : o.bind = .ok a)
    (hbound' : o'.bind = .ok b) {x : Place} (hx : x ∈ o.root.placed [])
    (hmay : Outline.mayExtend o.table x.id = true) (hk : k ∈ a.table.extensionMethods x.id)
    (hmethod : b.table.method k' = (a.table.method k).rename (toMethod move k')) :
    b.table.classifyMethod k'
      = (a.table.classifyMethod k).map (MethodRecord.rename (toMethod move k')) := by
  obtain ⟨made, hm⟩ := h.left.toOutlined.boundBy hbound
  obtain ⟨made', hm'⟩ := h.right.toOutlined.boundBy hbound'
  obtain ⟨form, hform⟩ := (h.left.toOutlined.extensionMethods hbound x.id).1 k hk
  refine (h.faces rfl hm.ahead hm'.ahead).classifyMethod_rename hmethod
    (methodTypeParameters_rename hmethod) (fun t ht p hp => ?_) ?_
  · have hown := h.left.toOutlined.within_extensionMethod hbound hmay hk t ht p hp
    refine ⟨?_, fun _ => hown⟩
    obtain ⟨i, -, rfl⟩ := List.mem_map.mp hown
    exact typeParameter_rename hmethod i
  · rw [SymbolTable.containerAccess?, SymbolTable.containerAccess?, hmethod, Method.rename,
      hform.container, Option.map_some, Option.map_some, Option.map_some,
      ← h.definitionType_ahead rfl hm.ahead hm'.ahead, h.access_ahead hm.ahead hm'.ahead hx]

end

end ExtensionCensus.Binding.Outline
