import ExtensionCensus.Symbol.Table

/-!
# Growing symbol tables

A symbol table only grows: a declared type keeps its name, its container, its kind and the names
and places of its type parameters, whatever is declared or bound after it.

* `TypeParameter.label` — the name and the place of a type parameter;
* `TypeParameter.Placed`, `foldl_add`, `placed_listed` — **the type parameters that an owner lists say
  where they stand**;
* `definition_addDefinition_of_lt`, `definition_updateDefinition` — what is at a place after a
  change;
* `TypeDefinition.Agrees`, `SymbolTable.Keeps` — the table `b` declares what `a` declares, in the
  same way;
* `SymbolTable.SameShape` — in addition no type was declared, and every type has the nested types
  that it had;
* `Keeps.definitionType`, `SameShape.definitionType` — a declared type stands for the same term in
  every later table.

Members, traits and constraints are no part of the relations: they do change.
-/

namespace ExtensionCensus

/-! ### Type parameters and their owners -/

/-- What never changes of a type parameter: its name and its place. -/
def TypeParameter.label (p : TypeParameter) : String × Option TypeParameterRef :=
  (p.name, p.place)

/-- Type parameters with the same labels have the same names. -/
theorem map_name_of_map_label {ps qs : List TypeParameter}
    (h : qs.map TypeParameter.label = ps.map TypeParameter.label) :
    qs.map (·.name) = ps.map (·.name) := by
  have hnames := congrArg (List.map Prod.fst) h
  rwa [List.map_map, List.map_map] at hnames

/-- A constraint changes no label. -/
theorem map_label_modify_constraints (ps : List TypeParameter) (i : Nat) (c : Constraint) :
    (ps.modify i fun q => { q with constraints := q.constraints ++ [c] }).map TypeParameter.label
      = ps.map TypeParameter.label := by
  refine List.ext_getElem? fun j => ?_
  rw [List.getElem?_map, List.getElem?_map, List.getElem?_modify]
  cases ps[j]? with
  | none => rfl
  | some q =>
    show some (if i = j then _ else q).label = some q.label
    split <;> rfl

/-- The type parameters say where they stand. -/
def TypeParameter.Placed (place : Nat → TypeParameterRef) (ps : List TypeParameter) : Prop :=
  ∀ (i : Nat) (q : TypeParameter), ps[i]? = some q → q.place = some (place i)

section

variable {place : Nat → TypeParameterRef} {ps qs : List TypeParameter}

theorem TypeParameter.placed_nil : Placed place [] := by
  intro i q hq
  cases hq

/-- Type parameters with the same labels stand at the same places. -/
theorem TypeParameter.Placed.of_map_label (hp : Placed place ps)
    (h : qs.map label = ps.map label) : Placed place qs := by
  intro i q hq
  have hlabel : (ps.map label)[i]? = some q.label := by
    rw [← h, List.getElem?_map, hq]
    rfl
  rw [List.getElem?_map] at hlabel
  obtain ⟨p, hpi, hpq⟩ := Option.map_eq_some_iff.mp hlabel
  exact (congrArg Prod.snd hpq).symm.trans (hp i p hpi)

/-- Each type parameter is listed at the number of those in front of it. -/
theorem foldl_add (place : Nat → TypeParameterRef) (ps qs : List TypeParameter) :
    ps.foldl (TypeParameter.add place) qs
      = qs ++ ps.mapIdx fun i p => { p with place := some (place (qs.length + i)) } := by
  induction ps generalizing qs with
  | nil => exact (List.append_nil qs).symm
  | cons p ps ih =>
    rw [List.foldl_cons, ih, TypeParameter.add, List.mapIdx_cons, List.append_assoc,
      List.length_append, Nat.add_zero, List.singleton_append]
    simp only [List.length_singleton, Nat.add_assoc, Nat.add_comm 1]

theorem listed_eq (place : Nat → TypeParameterRef) (ps : List TypeParameter) :
    TypeParameter.listed place ps = ps.mapIdx fun i p => { p with place := some (place i) } := by
  rw [TypeParameter.listed, foldl_add]
  simp only [List.length_nil, Nat.zero_add, List.nil_append]

theorem length_listed (place : Nat → TypeParameterRef) (ps : List TypeParameter) :
    (TypeParameter.listed place ps).length = ps.length := by
  rw [listed_eq, List.length_mapIdx]

/-- The type parameter that is listed at a position is the one given there, and says so. -/
theorem getElem?_listed (place : Nat → TypeParameterRef) (ps : List TypeParameter) (i : Nat) :
    (TypeParameter.listed place ps)[i]?
      = ps[i]?.map fun p => { p with place := some (place i) } := by
  rw [listed_eq, List.getElem?_mapIdx]

theorem placed_listed (place : Nat → TypeParameterRef) (ps : List TypeParameter) :
    TypeParameter.Placed place (TypeParameter.listed place ps) := by
  intro i q hq
  rw [getElem?_listed] at hq
  obtain ⟨p, -, rfl⟩ := Option.map_eq_some_iff.mp hq
  rfl

theorem map_name_listed (place : Nat → TypeParameterRef) (ps : List TypeParameter) :
    (TypeParameter.listed place ps).map (·.name) = ps.map (·.name) := by
  refine List.ext_getElem? fun i => ?_
  rw [List.getElem?_map, List.getElem?_map, getElem?_listed, Option.map_map]
  rfl

theorem mem_listed {q : TypeParameter} (h : q ∈ TypeParameter.listed place ps) :
    ∃ p ∈ ps, ∃ i, q = { p with place := some (place i) } := by
  obtain ⟨i, hi⟩ := List.getElem?_of_mem h
  rw [getElem?_listed] at hi
  obtain ⟨p, hp, rfl⟩ := Option.map_eq_some_iff.mp hi
  exact ⟨p, List.mem_of_getElem? hp, i, rfl⟩

end

/-! ### Definitions -/

/-- Two definitions agree on what never changes. -/
structure TypeDefinition.Agrees (d e : TypeDefinition) : Prop where
  name : e.name = d.name
  container : e.container = d.container
  kind : e.kind = d.kind
  parameters : e.typeParameters.map TypeParameter.label = d.typeParameters.map TypeParameter.label

theorem TypeDefinition.Agrees.refl (d : TypeDefinition) : d.Agrees d :=
  ⟨rfl, rfl, rfl, rfl⟩

theorem TypeDefinition.Agrees.symm {d e : TypeDefinition} (h : d.Agrees e) : e.Agrees d :=
  ⟨h.name.symm, h.container.symm, h.kind.symm, h.parameters.symm⟩

theorem TypeDefinition.Agrees.trans {d e f : TypeDefinition} (h : d.Agrees e) (h' : e.Agrees f) :
    d.Agrees f :=
  ⟨h'.name.trans h.name, h'.container.trans h.container, h'.kind.trans h.kind,
    h'.parameters.trans h.parameters⟩

theorem TypeDefinition.Agrees.parameterNames {d e : TypeDefinition} (h : d.Agrees e) :
    e.typeParameters.map (·.name) = d.typeParameters.map (·.name) :=
  map_name_of_map_label h.parameters

/-- What is pushed on an array is seen at its end only. -/
theorem getD_push {α : Type} [Inhabited α] (xs : Array α) (j : Nat) (x : α) :
    (xs.push x)[j]?.getD default = if j = xs.size then x else xs[j]?.getD default := by
  rw [Array.getElem?_push]
  split <;> rfl

/-- A change of an array is seen at its own place only. -/
theorem getD_modify {α : Type} [Inhabited α] (xs : Array α) (i j : Nat) (f : α → α) :
    (xs.modify i f)[j]?.getD default
      = if j = i ∧ i < xs.size then f (xs[i]?.getD default) else xs[j]?.getD default := by
  rw [Array.getElem?_modify]
  by_cases he : i = j
  · subst he
    rw [if_pos rfl]
    by_cases hlt : i < xs.size
    · rw [if_pos ⟨rfl, hlt⟩, Array.getElem?_eq_getElem hlt]
      rfl
    · rw [if_neg (fun h => hlt h.2), Array.getElem?_eq_none (Nat.le_of_not_lt hlt)]
      rfl
  · rw [if_neg he, if_neg (fun h => he h.1.symm)]

namespace SymbolTable

variable {table : SymbolTable}

/-! ### Single places -/

/-- Nothing is declared behind the end of a table. -/
theorem definition_of_size_le {id : TypeId} (h : table.definitions.size ≤ id.index) :
    table.definition id = default := by
  rw [definition, Array.getElem?_eq_none h]
  rfl

theorem eq_nextType_iff {id : TypeId} : id = table.nextType ↔ id.index = table.definitions.size :=
  ⟨fun h => h ▸ rfl, fun h => by cases id; cases h; rfl⟩

/-- A new definition is seen at the next place, and every old one where it was. -/
theorem definition_addDefinition (d : TypeDefinition) (id : TypeId) :
    (table.addDefinition d).definition id
      = if id = table.nextType then d else table.definition id := by
  simp only [eq_nextType_iff]
  exact getD_push table.definitions id.index d

theorem definition_addDefinition_of_lt (d : TypeDefinition) {id : TypeId}
    (h : id.index < table.definitions.size) :
    (table.addDefinition d).definition id = table.definition id := by
  rw [definition_addDefinition, if_neg fun he => Nat.ne_of_lt h (eq_nextType_iff.mp he)]

theorem definition_addDefinition_nextType (d : TypeDefinition) :
    (table.addDefinition d).definition table.nextType = d := by
  rw [definition_addDefinition, if_pos rfl]

@[simp]
theorem size_addDefinition (d : TypeDefinition) :
    (table.addDefinition d).definitions.size = table.definitions.size + 1 :=
  Array.size_push d

@[simp]
theorem size_updateDefinition (id : TypeId) (f : TypeDefinition → TypeDefinition) :
    (table.updateDefinition id f).definitions.size = table.definitions.size :=
  Array.size_modify

/-- A change of a definition is seen at its own place only. -/
theorem definition_updateDefinition (id other : TypeId) (f : TypeDefinition → TypeDefinition) :
    (table.updateDefinition id f).definition other =
      if other = id ∧ id.index < table.definitions.size then f (table.definition id)
      else table.definition other := by
  have hi : other = id ↔ other.index = id.index :=
    ⟨fun h => h ▸ rfl, fun h => by cases id; cases other; cases h; rfl⟩
  simp only [hi]
  exact getD_modify table.definitions id.index other.index f

@[simp]
theorem size_addMethod (m : Method) :
    (table.addMethod m).methods.size = table.methods.size + 1 :=
  Array.size_push m

theorem eq_nextMethod_iff {id : MethodId} : id = table.nextMethod ↔ id.index = table.methods.size :=
  ⟨fun h => h ▸ rfl, fun h => by cases id; cases h; rfl⟩

/-- A new method is seen at the next place, and every old one where it was. -/
theorem method_addMethod (m : Method) (id : MethodId) :
    (table.addMethod m).method id = if id = table.nextMethod then m else table.method id := by
  simp only [eq_nextMethod_iff]
  exact getD_push table.methods id.index m

@[simp]
theorem size_updateMethod (id : MethodId) (f : Method → Method) :
    (table.updateMethod id f).methods.size = table.methods.size :=
  Array.size_modify

/-- A change of a method is seen at its own place only. -/
theorem method_updateMethod (id other : MethodId) (f : Method → Method) :
    (table.updateMethod id f).method other =
      if other = id ∧ id.index < table.methods.size then f (table.method id)
      else table.method other := by
  have hi : other = id ↔ other.index = id.index :=
    ⟨fun h => h ▸ rfl, fun h => by cases id; cases other; cases h; rfl⟩
  simp only [hi]
  exact getD_modify table.methods id.index other.index f

theorem eq_nextValue_iff {id : ValueId} : id = table.nextValue ↔ id.index = table.values.size :=
  ⟨fun h => h ▸ rfl, fun h => by cases id; cases h; rfl⟩

/-- A new field, property or event is seen at the next place, and every old one where it was. -/
theorem value_addValue (v : ValueMember) (id : ValueId) :
    (table.addValue v).value id = if id = table.nextValue then v else table.value id := by
  simp only [eq_nextValue_iff]
  exact getD_push table.values id.index v

/-! ### Tables that keep what is declared -/

/-- The table `b` declares everything that `a` declares, in the same way. -/
structure Keeps (a b : SymbolTable) : Prop where
  size_le : a.definitions.size ≤ b.definitions.size
  agrees : ∀ id : TypeId, id.index < a.definitions.size →
    (a.definition id).Agrees (b.definition id)

theorem Keeps.refl (a : SymbolTable) : Keeps a a :=
  ⟨Nat.le_refl _, fun _ _ => TypeDefinition.Agrees.refl _⟩

theorem Keeps.trans {a b c : SymbolTable} (h : Keeps a b) (h' : Keeps b c) : Keeps a c :=
  ⟨Nat.le_trans h.size_le h'.size_le, fun id hid =>
    (h.agrees id hid).trans (h'.agrees id (Nat.lt_of_lt_of_le hid h.size_le))⟩

theorem keeps_addDefinition (d : TypeDefinition) : Keeps table (table.addDefinition d) := by
  refine ⟨by rw [size_addDefinition]; omega, fun id hid => ?_⟩
  rw [definition_addDefinition_of_lt d hid]
  exact TypeDefinition.Agrees.refl _

theorem keeps_updateDefinition (id : TypeId) {f : TypeDefinition → TypeDefinition}
    (hf : (table.definition id).Agrees (f (table.definition id))) :
    Keeps table (table.updateDefinition id f) := by
  refine ⟨Nat.le_of_eq (size_updateDefinition id f).symm, fun other _ => ?_⟩
  rw [definition_updateDefinition]
  split
  · next h =>
    rw [h.1]
    exact hf
  · exact TypeDefinition.Agrees.refl _

/-! ### What agreeing definitions have in common -/

section

variable {a b : SymbolTable} {id : TypeId}

theorem arity_of_agrees (h : (a.definition id).Agrees (b.definition id)) :
    b.arity id = a.arity id := by
  have hn := congrArg List.length h.parameters
  rwa [List.length_map, List.length_map] at hn

theorem key_of_agrees (h : (a.definition id).Agrees (b.definition id)) : b.key id = a.key id := by
  unfold SymbolTable.key
  rw [h.name, arity_of_agrees h]

theorem lexicalOuter_of_agrees (h : (a.definition id).Agrees (b.definition id)) :
    b.lexicalOuter id = a.lexicalOuter id := by
  unfold SymbolTable.lexicalOuter
  rw [h.container]

theorem typeParametersOf_of_agrees (h : (a.definition id).Agrees (b.definition id)) :
    b.typeParametersOf id = a.typeParametersOf id := by
  have ha := arity_of_agrees h
  unfold SymbolTable.arity at ha
  unfold SymbolTable.typeParametersOf
  rw [ha]

theorem definitionType_of_agrees (h : (a.definition id).Agrees (b.definition id)) :
    b.definitionType id = a.definitionType id := by
  unfold SymbolTable.definitionType
  rw [lexicalOuter_of_agrees h, typeParametersOf_of_agrees h]

theorem Keeps.arity (h : Keeps a b) (hid : id.index < a.definitions.size) :
    b.arity id = a.arity id :=
  arity_of_agrees (h.agrees id hid)

theorem Keeps.key (h : Keeps a b) (hid : id.index < a.definitions.size) :
    b.key id = a.key id :=
  key_of_agrees (h.agrees id hid)

theorem Keeps.lexicalOuter (h : Keeps a b) (hid : id.index < a.definitions.size) :
    b.lexicalOuter id = a.lexicalOuter id :=
  lexicalOuter_of_agrees (h.agrees id hid)

/-- A declared type stands for the same term in every later table. -/
theorem Keeps.definitionType (h : Keeps a b) (hid : id.index < a.definitions.size) :
    b.definitionType id = a.definitionType id :=
  definitionType_of_agrees (h.agrees id hid)

end

/-! ### Tables of the same shape -/

/-- The types among some members. -/
def typesAmong (members : List Member) : List TypeId :=
  members.filterMap fun
    | .type t => some t
    | _ => none

theorem nestedTypes_eq (id : TypeId) :
    table.nestedTypes id = typesAmong (table.definition id).members :=
  rfl

theorem typesAmong_concat (members : List Member) (m : Member) :
    typesAmong (members ++ [m]) = typesAmong members ++ typesAmong [m] :=
  List.filterMap_append

/-- The methods among some members. -/
def methodsAmong (members : List Member) : List MethodId :=
  members.filterMap fun
    | .method m => some m
    | _ => none

/-- The methods that a declared type lists. -/
def methodIds (table : SymbolTable) (id : TypeId) : List MethodId :=
  methodsAmong (table.definition id).members

theorem methodsAmong_concat (members : List Member) (m : Member) :
    methodsAmong (members ++ [m]) = methodsAmong members ++ methodsAmong [m] :=
  List.filterMap_append

/-- The tables declare the same types, in the same way and in the same places. -/
structure SameShape (a b : SymbolTable) : Prop where
  size : b.definitions.size = a.definitions.size
  agrees : ∀ id : TypeId, (a.definition id).Agrees (b.definition id)
  nested : ∀ id : TypeId, b.nestedTypes id = a.nestedTypes id

theorem SameShape.refl (a : SymbolTable) : SameShape a a :=
  ⟨rfl, fun _ => TypeDefinition.Agrees.refl _, fun _ => rfl⟩

theorem SameShape.trans {a b c : SymbolTable} (h : SameShape a b) (h' : SameShape b c) :
    SameShape a c :=
  ⟨h'.size.trans h.size, fun id => (h.agrees id).trans (h'.agrees id),
    fun id => (h'.nested id).trans (h.nested id)⟩

theorem SameShape.symm {a b : SymbolTable} (h : SameShape a b) : SameShape b a :=
  ⟨h.size.symm, fun id => (h.agrees id).symm, fun id => (h.nested id).symm⟩

theorem SameShape.of_definitions_eq {a b : SymbolTable} (h : b.definitions = a.definitions) :
    SameShape a b := by
  have hd : ∀ id, b.definition id = a.definition id := fun id => by simp only [definition, h]
  refine ⟨by rw [h], fun id => ?_, fun id => ?_⟩
  · rw [hd id]
    exact TypeDefinition.Agrees.refl _
  · rw [nestedTypes_eq, nestedTypes_eq, hd id]

theorem sameShape_updateDefinition (id : TypeId) {f : TypeDefinition → TypeDefinition}
    (hf : (table.definition id).Agrees (f (table.definition id)))
    (hn : typesAmong (f (table.definition id)).members
      = typesAmong (table.definition id).members) :
    SameShape table (table.updateDefinition id f) := by
  refine ⟨size_updateDefinition id f, fun other => ?_, fun other => ?_⟩
  · rw [definition_updateDefinition]
    split
    · next h =>
      rw [h.1]
      exact hf
    · exact TypeDefinition.Agrees.refl _
  · rw [nestedTypes_eq, nestedTypes_eq, definition_updateDefinition]
    split
    · next h =>
      rw [h.1]
      exact hn
    · rfl

/-- Listing a member that is no type leaves the shape of a table as it is. -/
theorem sameShape_addMember (id : TypeId) {m : Member} (hm : typesAmong [m] = []) :
    SameShape table (table.addMember id m) := by
  refine sameShape_updateDefinition id ⟨rfl, rfl, rfl, rfl⟩ ?_
  rw [typesAmong_concat, hm, List.append_nil]

/-- Listing a member changes nothing but the list. -/
theorem traits_addMember (container : TypeId) (m : Member) (id : TypeId) :
    ((table.addMember container m).definition id).traits = (table.definition id).traits := by
  rw [addMember, definition_updateDefinition]
  split
  · next h => rw [h.1]
  · rfl

section

variable {a b : SymbolTable}

theorem SameShape.keeps (h : SameShape a b) : Keeps a b :=
  ⟨Nat.le_of_eq h.size.symm, fun id _ => h.agrees id⟩

theorem SameShape.arity (h : SameShape a b) (id : TypeId) : b.arity id = a.arity id :=
  arity_of_agrees (h.agrees id)

theorem SameShape.key (h : SameShape a b) (id : TypeId) : b.key id = a.key id :=
  key_of_agrees (h.agrees id)

theorem SameShape.lexicalOuter (h : SameShape a b) (id : TypeId) :
    b.lexicalOuter id = a.lexicalOuter id :=
  lexicalOuter_of_agrees (h.agrees id)

theorem SameShape.typeParametersOf (h : SameShape a b) (id : TypeId) :
    b.typeParametersOf id = a.typeParametersOf id :=
  typeParametersOf_of_agrees (h.agrees id)

/-- A declared type stands for the same term in tables of the same shape. -/
theorem SameShape.definitionType (h : SameShape a b) (id : TypeId) :
    b.definitionType id = a.definitionType id :=
  definitionType_of_agrees (h.agrees id)

end

end SymbolTable

end ExtensionCensus
