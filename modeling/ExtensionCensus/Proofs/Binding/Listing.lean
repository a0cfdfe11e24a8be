import ExtensionCensus.Proofs.Binding.Placing
import ExtensionCensus.Proofs.Binding.Untouched

/-!
# What types list

A type lists each of its members once, each of them lies in the type that lists it, and everything
that lies in no namespace is listed.

* `SymbolTable.Contains`, `SymbolTable.containerOf` — a member is in the table, and the type that it
  lies in;
* `SymbolTable.Lists` — the invariant, with `Lists.congr` and `Lists.attach`: a step that attaches no
  member, and one that attaches one;
* `Outlined.lists` — it holds where nothing is bound yet;
* `lists_bindMethod`, `lists_bindValues`, `lists_bindPart`, `lists_finish` — the steps of the second
  pass;
* `Outlined.lists_bind` — **the second pass keeps it**.
-/

namespace ExtensionCensus

namespace SymbolTable

/-! ### Members and their types -/

/-- The member is in the table. -/
def Contains (table : SymbolTable) : Member → Prop
  | .type id => id.index < table.definitions.size
  | .method id => id.index < table.methods.size
  | .value id => id.index < table.values.size

/-- The type that a member lies in. -/
def containerOf (table : SymbolTable) : Member → Option Ty
  | .type id => table.lexicalOuter id
  | .method id => (table.method id).container
  | .value id => (table.value id).container

/-- Types list members that are in the table and lie in them, each once, and whatever is no type is
listed. A field, property or event is of some type. -/
structure Lists (table : SymbolTable) : Prop where
  contains : ∀ id, ∀ m ∈ table.members id, table.Contains m
  container : ∀ id, ∀ m ∈ table.members id,
    table.containerOf m = some (table.definitionType id)
  nodup : ∀ id, (table.members id).Nodup
  listed : ∀ m, table.Contains m → (∃ t, m = .type t) ∨ ∃ id, m ∈ table.members id
  typed : ∀ v : ValueId, v.index < table.values.size → (table.value v).type.isSome = true

section

variable {table a b : SymbolTable} {id owner : TypeId} {m x : Member}

theorem lt_of_mem_members (h : m ∈ table.members id) : id.index < table.definitions.size := by
  by_contra hge
  rw [members, definition_of_size_le (Nat.le_of_not_lt hge)] at h
  cases h

theorem members_addMember (h : owner.index < table.definitions.size) (x : Member) (id : TypeId) :
    (table.addMember owner x).members id
      = table.members id ++ if id = owner then [x] else [] := by
  rw [members, addMember, definition_updateDefinition]
  by_cases hid : id = owner
  · rw [if_pos ⟨hid, h⟩, if_pos hid, hid]
    rfl
  · rw [if_neg fun he => hid he.1, if_neg hid, List.append_nil]
    rfl

/-- A step that attaches nothing. -/
theorem Lists.congr (h : Lists a) (hs : SameShape a b)
    (hmembers : ∀ id, b.members id = a.members id)
    (hcontains : ∀ m, b.Contains m ↔ a.Contains m)
    (hcontainer : ∀ m, a.Contains m → b.containerOf m = a.containerOf m)
    (htyped : ∀ v : ValueId, v.index < b.values.size → (b.value v).type.isSome = true) :
    Lists b := by
  refine ⟨fun id m hm => ?_, fun id m hm => ?_, fun id => ?_, fun m hm => ?_, htyped⟩
  · rw [hmembers] at hm
    exact (hcontains m).mpr (h.contains id m hm)
  · rw [hmembers] at hm
    rw [hcontainer m (h.contains id m hm), hs.definitionType]
    exact h.container id m hm
  · rw [hmembers]
    exact h.nodup id
  · rcases h.listed m ((hcontains m).mp hm) with ht | ⟨id, hid⟩
    · exact Or.inl ht
    · exact Or.inr ⟨id, (hmembers id).symm ▸ hid⟩

/-- A step that attaches one new member to a type. -/
theorem Lists.attach (h : Lists a) (hs : SameShape a b) (owner : TypeId) (x : Member)
    (hmembers : ∀ id, b.members id = a.members id ++ if id = owner then [x] else [])
    (hnew : ¬ a.Contains x) (hcontains : ∀ m, b.Contains m ↔ a.Contains m ∨ m = x)
    (hcontainer : ∀ m, a.Contains m → b.containerOf m = a.containerOf m)
    (howner : b.containerOf x = some (b.definitionType owner))
    (htyped : ∀ v : ValueId, v.index < b.values.size → (b.value v).type.isSome = true) :
    Lists b := by
  have hsplit : ∀ {id : TypeId} {m : Member}, m ∈ b.members id →
      m ∈ a.members id ∨ id = owner ∧ m = x := by
    intro id m hm
    rw [hmembers] at hm
    rcases List.mem_append.mp hm with hm | hm
    · exact Or.inl hm
    · split at hm
      · next hid => exact Or.inr ⟨hid, List.mem_singleton.mp hm⟩
      · cases hm
  refine ⟨fun id m hm => ?_, fun id m hm => ?_, fun id => ?_, fun m hm => ?_, htyped⟩
  · rcases hsplit hm with hm | ⟨-, rfl⟩
    · exact (hcontains m).mpr (Or.inl (h.contains id m hm))
    · exact (hcontains m).mpr (Or.inr rfl)
  · rcases hsplit hm with hm | ⟨rfl, rfl⟩
    · rw [hcontainer m (h.contains id m hm), hs.definitionType]
      exact h.container id m hm
    · exact howner
  · rw [hmembers]
    split
    · exact List.nodup_append_comm.mp
        (List.nodup_cons.mpr ⟨fun hx => hnew (h.contains id x hx), h.nodup id⟩)
    · rw [List.append_nil]
      exact h.nodup id
  · rcases (hcontains m).mp hm with hold | rfl
    · rcases h.listed m hold with ht | ⟨id, hid⟩
      · exact Or.inl ht
      · exact Or.inr ⟨id, by rw [hmembers]; exact List.mem_append_left _ hid⟩
    · refine Or.inr ⟨owner, ?_⟩
      rw [hmembers, if_pos rfl]
      exact List.mem_append_right _ List.mem_cons_self

end

end SymbolTable

namespace Binding.Outline

open SymbolTable (Lists SameShape Contains containerOf)
open Source (MethodForm ValueForm MemberForm)

/-! ### Before anything is bound -/

section

variable {o o' : Outline} {container : TypeId}

/-- Where nothing is bound yet, types list nested types only, and these are told apart by keys. -/
theorem Outlined.lists (ho : Outlined o) (hf : Findable o) : Lists o.table := by
  have hnested : ∀ {id : TypeId} {m : Member}, m ∈ o.table.members id →
      ∃ t ∈ o.table.nestedTypes id, m = .type t := by
    intro id m hm
    obtain ⟨t, rfl⟩ := ho.bare.members id m hm
    exact ⟨t, List.mem_filterMap.mpr ⟨_, hm, rfl⟩, rfl⟩
  refine ⟨fun id m hm => ?_, fun id m hm => ?_, fun id => ?_, fun m hm => ?_, fun v hv => ?_⟩
  · obtain ⟨t, ht, rfl⟩ := hnested hm
    exact ho.nested_lt id t ht
  · obtain ⟨t, ht, rfl⟩ := hnested hm
    exact ho.nested id t ht
  · -- listing a type twice would list its key twice
    have hmembers : o.table.members id = (o.table.nestedTypes id).map .type := by
      rw [SymbolTable.nestedTypes_eq, SymbolTable.members, SymbolTable.typesAmong,
        List.map_filterMap]
      refine ((List.filterMap_congr fun m hm => ?_).trans List.filterMap_some).symm
      obtain ⟨t, rfl⟩ := ho.bare.members id m hm
      rfl
    rw [hmembers]
    exact (List.Nodup.of_map _ (hf.nestedKeys id)).map fun s t hst => Member.type.inj hst
  · cases m with
    | type t => exact Or.inl ⟨t, rfl⟩
    | method k =>
      rw [Contains, ho.bare.methods] at hm
      exact absurd hm (Nat.not_lt_zero _)
    | value v =>
      rw [Contains, ho.bare.values] at hm
      exact absurd hm (Nat.not_lt_zero _)
  · rw [ho.bare.values] at hv
    exact absurd hv (Nat.not_lt_zero _)

/-! ### Steps -/

/-- A quiet step that leaves the members of types and all values as they are. -/
theorem lists_quiet (hl : Lists o.table) (hq : Quiet o o')
    (hmembers : ∀ id, o'.table.members id = o.table.members id)
    (hvalues : o'.table.values = o.table.values) : Lists o'.table := by
  refine hl.congr hq.shape hmembers (fun x => ?_) (fun x _ => ?_) fun v hv => ?_
  · cases x with
    | type id => rw [Contains, Contains, hq.shape.size]
    | method k => rw [Contains, Contains, hq.count]
    | value v => rw [Contains, Contains, hvalues]
  · cases x with
    | type id => exact hq.shape.lexicalOuter id
    | method k => rw [containerOf, containerOf, (hq.methods k).rest]
    | value v => rw [containerOf, containerOf, SymbolTable.value, SymbolTable.value, hvalues]
  · rw [hvalues] at hv
    rw [SymbolTable.value, hvalues]
    exact hl.typed v hv

/-- A step that makes one method, and attaches it to its type. -/
theorem lists_method (hl : Lists o.table) (hg : Grows o o')
    (hcount : o'.table.methods.size = o.table.methods.size + 1)
    (hmembers : ∀ id, o'.table.members id
      = o.table.members id ++ if id = container then [.method o.table.nextMethod] else [])
    (hvalues : o'.table.values = o.table.values)
    (hcontainer : (o'.table.method o.table.nextMethod).container
      = some (o'.table.definitionType container)) : Lists o'.table := by
  refine hl.attach hg.shape container _ hmembers (Nat.lt_irrefl _) (fun x => ?_) (fun x hx => ?_)
    hcontainer fun v hv => ?_
  · cases x with
    | type id => simp [Contains, hg.shape.size]
    | method k =>
      rw [Contains, Contains, hcount, Member.method.injEq, SymbolTable.eq_nextMethod_iff]
      exact Nat.lt_succ_iff_lt_or_eq
    | value v => simp [Contains, hvalues]
  · cases x with
    | type id => exact hg.shape.lexicalOuter id
    | method k => rw [containerOf, containerOf, (hg.methods k hx).rest]
    | value v => rw [containerOf, containerOf, SymbolTable.value, SymbolTable.value, hvalues]
  · rw [hvalues] at hv
    rw [SymbolTable.value, hvalues]
    exact hl.typed v hv

/-! ### Methods -/

/-- Noting and constraining leave the members of types and all values as they are. -/
theorem steady_members (ps : List TypeParameterRef) (o : Outline) :
    Steady ps fun q => (∀ id, q.table.members id = o.table.members id) ∧
      q.table.values = o.table.values := by
  refine ⟨fun {q} hq t unread => ?_, fun {q} hq p _ c => ?_⟩
  · obtain ⟨instances, hnote⟩ := SymbolTable.note_eq q.table t
    rw [hnote]
    exact hq
  · refine ⟨fun id => ?_, ?_⟩
    · rw [← hq.1 id]
      cases p with
      | ofType owner i =>
        show (SymbolTable.definition (SymbolTable.updateDefinition _ owner _) id).members = _
        rw [SymbolTable.definition_updateDefinition]
        split
        · next he => rw [SymbolTable.members, he.1]
        · rfl
      | ofMethod owner i => rfl
      | free i => rfl
    · cases p <;> exact hq.2

/-- Binding a method attaches it to its type. -/
theorem lists_bindMethod (hl : Lists o.table) {ctx : Context} {m : MethodForm}
    (hlt : container.index < o.table.definitions.size)
    (h : o.bindMethod ctx container m = .ok o') : Lists o'.table := by
  obtain ⟨_, _, bound, returnType, isNullable, byRef, parameters, steps⟩ := bindMethod_ok h
  obtain ⟨hmembers, hvalues⟩ := (steady_members _ o).signature ⟨fun _ => rfl, rfl⟩ steps
  refine lists_method hl steps.grows steps.count (fun id => ?_) ?_ steps.implements.container
  · have hlt' : container.index < bound.table.definitions.size := by
      rw [steps.quiet.shape.size]
      exact hlt
    rw [steps.complete, ← hmembers id]
    exact @SymbolTable.members_addMember (bound.table.updateMethod _ _) container hlt' _ id
  · rw [steps.complete]
    exact hvalues

/-! ### Fields, properties and events -/

theorem lists_addValue (hl : Lists o.table) (hlt : container.index < o.table.definitions.size)
    {v : ValueMember} (hv : v.container = some (o.table.definitionType container))
    (htype : v.type.isSome = true) :
    Lists (o.addValue container v).table := by
  have hquiet := @quiet_addValue o container v
  have hsize : (o.addValue container v).table.values.size = o.table.values.size + 1 :=
    Array.size_push v
  have hvalue : ∀ k, (o.addValue container v).table.value k
      = if k = o.table.nextValue then v else o.table.value k := SymbolTable.value_addValue v
  refine hl.attach hquiet.shape container (.value o.table.nextValue)
    (@SymbolTable.members_addMember (o.table.addValue v) container hlt _) (Nat.lt_irrefl _)
    (fun x => ?_) (fun x hx => ?_) ?_ fun k hk => ?_
  · cases x with
    | type id => simp [Contains, hquiet.shape.size]
    | method k => simp [Contains, hquiet.count]
    | value k =>
      rw [Contains, Contains, hsize, Member.value.injEq, SymbolTable.eq_nextValue_iff]
      exact Nat.lt_succ_iff_lt_or_eq
  · cases x with
    | type id => exact hquiet.shape.lexicalOuter id
    | method k => rw [containerOf, containerOf, (hquiet.methods k).rest]
    | value k =>
      have hne : k ≠ o.table.nextValue := fun he =>
        Nat.ne_of_lt hx (SymbolTable.eq_nextValue_iff.mp he)
      rw [containerOf, containerOf, hvalue, if_neg hne]
  · rw [containerOf, hvalue, if_pos rfl, hquiet.shape.definitionType]
    exact hv
  · rw [hvalue]
    split
    · exact htype
    · next hne =>
      rw [hsize] at hk
      exact hl.typed k (Nat.lt_of_le_of_ne (Nat.le_of_lt_succ hk)
        fun he => hne (SymbolTable.eq_nextValue_iff.mpr he))

theorem lists_foldl_addValue {α : Type} {f : Outline → α → ValueMember} {as : List α}
    (hl : Lists o.table) (hlt : container.index < o.table.definitions.size)
    (hf : ∀ (q : Outline) (a : α), (f q a).container = some (q.table.definitionType container) ∧
      (f q a).type.isSome = true) :
    Lists (as.foldl (fun o a => o.addValue container (f o a)) o).table := by
  induction as generalizing o with
  | nil => exact hl
  | cons a rest ih =>
    refine ih (lists_addValue hl hlt (hf o a).1 (hf o a).2) ?_
    rw [(quiet_addValue container (f o a)).shape.size]
    exact hlt

/-- Noting a type attaches nothing. -/
theorem lists_bindType (hl : Lists o.table) {ctx : Context} {form : Option Source.TypeForm}
    {t : Ty} (h : o.bindType ctx form = .ok (o', t)) : Lists o'.table := by
  obtain ⟨hmembers, hvalues⟩ := (steady_members [] o).bindType ⟨fun _ => rfl, rfl⟩ h
  exact lists_quiet hl (quiet_bindType h) hmembers hvalues

theorem lists_bindValues (hl : Lists o.table) {ctx : Context} {v : ValueForm}
    (hlt : container.index < o.table.definitions.size)
    (h : o.bindValues ctx container v = .ok o') : Lists o'.table := by
  obtain ⟨⟨bound, t⟩, hbound, rfl⟩ := ok_of_map h
  refine lists_foldl_addValue (lists_bindType hl hbound) ?_ fun _ _ => ⟨rfl, rfl⟩
  rw [(quiet_bindType hbound).shape.size]
  exact hlt

/-! ### Parts of types -/

theorem lists_bindMember (hl : Lists o.table) {ctx : Context} {form : MemberForm}
    (hlt : container.index < o.table.definitions.size)
    (h : o.bindMember ctx container form = .ok o') : Lists o'.table := by
  cases form with
  | method m => exact lists_bindMethod hl hlt h
  | values v => exact lists_bindValues hl hlt h

theorem lists_bindMembers (hl : Lists o.table) {ctx : Context} {members : List MemberForm}
    (hlt : container.index < o.table.definitions.size)
    (h : o.bindMembers ctx container members = .ok o') : Lists o'.table := by
  induction members generalizing o with
  | nil =>
    cases h
    exact hl
  | cons form rest ih =>
    obtain ⟨bound, hbound, hrest⟩ := bindMembers_cons_ok h
    refine ih (lists_bindMember hl hlt hbound) ?_ hrest
    rw [(grows_bindMember hbound).shape.size]
    exact hlt

theorem lists_bindPrimaryConstructor (hl : Lists o.table) {ctx : Context} {part : DeclaredPart}
    (hlt : part.type.index < o.table.definitions.size)
    (h : o.bindPrimaryConstructor ctx part = .ok o') : Lists o'.table := by
  rw [bindPrimaryConstructor] at h
  split at h
  · obtain ⟨made, hmade, rfl⟩ := ok_of_map h
    have hmethod := lists_bindMethod hl hlt hmade
    split
    · refine lists_foldl_addValue hmethod ?_ fun _ _ => ⟨rfl, rfl⟩
      rw [(grows_bindMethod hmade).shape.size]
      exact hlt
    · exact hmethod
  · cases h
    exact hl

/-- Binding a part attaches what it declares to its type. -/
theorem lists_bindPart (hl : Lists o.table) {part : DeclaredPart}
    (hlt : part.type.index < o.table.definitions.size) (h : o.bindPart part = .ok o') :
    Lists o'.table := by
  obtain ⟨clausesBound, hclauses, hrest⟩ := bindPart_ok h
  have hquiet := quiet_bindClauses hclauses
  obtain ⟨hmembers, hvalues⟩ := (steady_members _ o).bindClauses ⟨fun _ => rfl, rfl⟩ hclauses
  have hlt' : part.type.index < clausesBound.table.definitions.size := hquiet.shape.size ▸ hlt
  have hbound := lists_quiet hl hquiet hmembers hvalues
  rcases hrest with ⟨-, hinvoke⟩ | ⟨-, rfl⟩ | ⟨-, -, constructed, hconstructed, hcontents⟩
  · exact lists_bindMethod hbound hlt' hinvoke
  · exact lists_foldl_addValue hbound hlt' fun _ _ => ⟨rfl, rfl⟩
  · refine lists_bindMembers (lists_bindPrimaryConstructor hbound hlt' hconstructed) ?_ hcontents
    rw [(makes_bindPrimaryConstructor hlt' hconstructed).grows.shape.size]
    exact hlt'

theorem lists_bindParts {parts : List DeclaredPart} (hl : Lists o.table)
    (hlt : ∀ part ∈ parts, part.type.index < o.table.definitions.size)
    (h : o.bindParts parts = .ok o') : Lists o'.table := by
  induction parts generalizing o with
  | nil =>
    cases h
    exact hl
  | cons part rest ih =>
    rw [bindParts] at h
    split at h
    · cases h
    · next bound hbound =>
      have hpart := hlt part List.mem_cons_self
      refine ih (lists_bindPart hl hpart hbound) (fun other hother => ?_) h
      rw [(makes_bindPart hpart hbound).grows.shape.size]
      exact hlt other (List.mem_cons_of_mem part hother)

/-! ### Whole types -/

theorem lists_withImplicit (hl : Lists o.table) {id : TypeId}
    (hlt : id.index < o.table.definitions.size) (access : Accessibility) :
    Lists (o.withImplicit id access).table := by
  refine lists_method hl (grows_withImplicit id access) (SymbolTable.size_addMethod _)
    (@SymbolTable.members_addMember (o.table.addMethod _) id hlt _) rfl
    (@implements_withImplicit o id access).container

/-- Completing a type attaches its constructor, if it has one without declaring it. -/
theorem lists_finish (hl : Lists o.table) {id : TypeId}
    (hlt : id.index < o.table.definitions.size) : Lists (o.finish id).table := by
  have himplicit : Lists (o.addImplicit id).table := by
    rw [addImplicit_eq]
    cases implicitConstructor? o.table id with
    | none => exact hl
    | some access => exact lists_withImplicit hl hlt access
  refine lists_quiet himplicit (quiet_flag id _) (fun other => ?_) rfl
  show (SymbolTable.definition (SymbolTable.updateDefinition _ id _) other).members = _
  rw [SymbolTable.definition_updateDefinition]
  split
  · next he => rw [SymbolTable.members, he.1]
  · rfl

theorem lists_foldl_finish {ids : List TypeId} (hl : Lists o.table)
    (hlt : ∀ id ∈ ids, id.index < o.table.definitions.size) :
    Lists (ids.foldl finish o).table := by
  induction ids generalizing o with
  | nil => exact hl
  | cons id rest ih =>
    refine ih (lists_finish hl (hlt id List.mem_cons_self)) fun other hother => ?_
    rw [(grows_finish o id).shape.size]
    exact hlt other (List.mem_cons_of_mem id hother)

/-- **After the second pass, types list members that lie in them, each once, and every method, field,
property and event is listed.** -/
theorem Outlined.lists_bind (ho : Outlined o) (hf : Findable o) (h : o.bind = .ok o') :
    Lists o'.table := by
  have hparts : ∀ part ∈ o.parts, part.type.index < o.table.definitions.size :=
    fun part hp => (ho.parts part hp).head_lt
  obtain ⟨bound, hbound, rfl⟩ := ok_of_map h
  refine lists_foldl_finish (lists_bindParts (ho.lists hf) hparts hbound) fun id hid => ?_
  obtain ⟨part, hpart, rfl⟩ := List.mem_map.mp (List.mem_eraseDups.mp hid)
  rw [(makes_bindParts hparts hbound).grows.shape.size]
  exact hparts part hpart

end

end Binding.Outline

end ExtensionCensus
