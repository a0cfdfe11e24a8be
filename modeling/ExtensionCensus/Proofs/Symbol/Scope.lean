import ExtensionCensus.Proofs.Extension.Occurrence
import ExtensionCensus.Proofs.Symbol.Growth

/-!
# Scopes of type parameters

Which type parameters may occur where.

* `Ty.Within` — every type parameter that occurs in a type is an allowed one;
* `SymbolTable.Encloses`, `SymbolTable.InTypeScope` — a type lexically encloses another, and a type
  parameter belongs to a type or to one that encloses it;
* `SymbolTable.Chain` — a list of types, each nested in the next one;
* `SymbolTable.Scoped` — the scoping invariant of a table: whatever occurs in the signature of a
  method is a type parameter of that method or in scope for its type, and whatever occurs in a field
  or in a constraint is in scope there;
* `Scoped.of_sameShape`, `Scoped.addMethod`, `Scoped.updateMethod`, `Scoped.addValue`,
  `Scoped.constrain` — the changes of a table that keep it.
-/

namespace ExtensionCensus

/-! ### Types within a scope -/

/-- Every type parameter that occurs in the type is allowed. -/
def Ty.Within (allowed : TypeParameterRef → Prop) (t : Ty) : Prop :=
  ∀ p, t.occurs p = true → allowed p

namespace Ty

variable {allowed : TypeParameterRef → Prop}

theorem Within.mono {more : TypeParameterRef → Prop} {t : Ty} (h : t.Within allowed)
    (hm : ∀ p, allowed p → more p) : t.Within more :=
  fun p hp => hm p (h p hp)

theorem within_named_iff {head : TypeHead} {outer : Option Ty} {args : List Ty} :
    (Ty.named head outer args).Within allowed ↔
      (∀ t, outer = some t → t.Within allowed) ∧ ∀ t ∈ args, t.Within allowed := by
  constructor
  · intro h
    exact ⟨fun t ht p hp => h p (occurs_named_iff.mpr (Or.inl ⟨t, ht, hp⟩)),
      fun t ht p hp => h p (occurs_named_iff.mpr (Or.inr ⟨t, ht, hp⟩))⟩
  · rintro ⟨houter, hargs⟩ p hp
    rcases occurs_named_iff.mp hp with ⟨t, ht, hp⟩ | ⟨t, ht, hp⟩
    · exact houter t ht p hp
    · exact hargs t ht p hp

theorem within_parameter_iff {q : TypeParameterRef} :
    (Ty.parameter q).Within allowed ↔ allowed q := by
  constructor
  · intro h
    exact h q (by simp [occurs])
  · intro h p hp
    have hpq : p = q := by simpa [occurs] using hp
    exact hpq ▸ h

theorem within_array {element : Ty} {rank : Nat} (h : element.Within allowed) :
    (Ty.array element rank).Within allowed :=
  h

theorem within_pointer {target : Ty} (h : target.Within allowed) :
    (Ty.pointer target).Within allowed :=
  h

theorem within_dynamic : Ty.dynamic.Within allowed := by
  intro p hp
  cases hp

theorem within_functionPointer (signature : String) :
    (Ty.functionPointer signature).Within allowed := by
  intro p hp
  cases hp

end Ty

namespace SymbolTable

/-! ### Lexical enclosure -/

/-- `Encloses top id`: the type `top` is `id`, or `id` is nested in it at some depth. -/
inductive Encloses (table : SymbolTable) : TypeId → TypeId → Prop where
  | self (id : TypeId) : Encloses table id id
  | outer {top outer id : TypeId} (hid : table.lexicalOuter id = some (table.definitionType outer))
      (h : Encloses table top outer) : Encloses table top id

/-- The type parameter belongs to the type or to one that lexically encloses it. -/
def InTypeScope (table : SymbolTable) (id : TypeId) (p : TypeParameterRef) : Prop :=
  ∃ top, table.Encloses top id ∧ p ∈ table.typeParametersOf top

/-- A list of declared types, each lexically nested in the next one, and the last in none. -/
inductive Chain (table : SymbolTable) : List TypeId → Prop where
  | nil : Chain table []
  | top {id : TypeId} (hid : id.index < table.definitions.size)
      (ho : table.lexicalOuter id = none) : Chain table [id]
  | nested {id outer : TypeId} {rest : List TypeId} (hid : id.index < table.definitions.size)
      (ho : table.lexicalOuter id = some (table.definitionType outer))
      (hrest : Chain table (outer :: rest)) : Chain table (id :: outer :: rest)

section

variable {table a b : SymbolTable}

theorem definitionType_injective {id other : TypeId}
    (h : table.definitionType id = table.definitionType other) : id = other := by
  simp only [definitionType, Ty.named.injEq, TypeHead.declared.injEq] at h
  exact h.1

theorem Chain.tail {id : TypeId} {l : List TypeId} (h : Chain table (id :: l)) : Chain table l := by
  cases h with
  | top => exact .nil
  | nested _ _ hrest => exact hrest

theorem Chain.head_lt {id : TypeId} {l : List TypeId} (h : Chain table (id :: l)) :
    id.index < table.definitions.size := by
  cases h with
  | top hid => exact hid
  | nested hid => exact hid

theorem Chain.keeps (hk : Keeps a b) {l : List TypeId} (h : Chain a l) : Chain b l := by
  induction h with
  | nil => exact .nil
  | top hid ho =>
    refine .top (Nat.lt_of_lt_of_le hid hk.size_le) ?_
    rw [hk.lexicalOuter hid, ho]
  | nested hid ho hrest ih =>
    refine .nested (Nat.lt_of_lt_of_le hid hk.size_le) ?_ ih
    rw [hk.lexicalOuter hid, ho, hk.definitionType hrest.head_lt]

/-- The first type of a chain is enclosed by all of them. -/
theorem Chain.encloses {id : TypeId} {l : List TypeId} (h : Chain table (id :: l)) :
    ∀ top ∈ id :: l, table.Encloses top id := by
  induction l generalizing id with
  | nil =>
    intro top htop
    rw [List.mem_singleton.mp htop]
    exact .self id
  | cons outer rest ih =>
    cases h with
    | nested hid ho hrest =>
      intro top htop
      rcases List.mem_cons.mp htop with rfl | htop
      · exact .self top
      · exact .outer ho (ih hrest top htop)

/-- From every type of a chain on the list is a chain. -/
theorem Chain.of_mem {l : List TypeId} (h : Chain table l) {id : TypeId} (hid : id ∈ l) :
    ∃ rest, Chain table (id :: rest) := by
  induction l with
  | nil => cases hid
  | cons first rest ih =>
    rcases List.mem_cons.mp hid with rfl | hid
    · exact ⟨rest, h⟩
    · exact ih h.tail hid

/-- In the type that a definition stands for only its own type parameters and those of the types
around it occur. -/
theorem Chain.within {id : TypeId} {l : List TypeId} (h : Chain table (id :: l)) :
    (table.definitionType id).Within (table.InTypeScope id) := by
  induction l generalizing id with
  | nil =>
    cases h with
    | top hid ho =>
      rw [definitionType, ho, Ty.within_named_iff]
      refine ⟨fun t ht => (by cases ht), fun t ht => ?_⟩
      obtain ⟨p, hp, rfl⟩ := List.mem_map.mp ht
      exact Ty.within_parameter_iff.mpr ⟨id, .self id, hp⟩
  | cons outer rest ih =>
    cases h with
    | nested hid ho hrest =>
      rw [definitionType, ho, Ty.within_named_iff]
      refine ⟨fun t ht => ?_, fun t ht => ?_⟩
      · cases ht
        refine (ih hrest).mono fun p hp => ?_
        obtain ⟨top, htop, hp⟩ := hp
        exact ⟨top, .outer ho htop, hp⟩
      · obtain ⟨p, hp, rfl⟩ := List.mem_map.mp ht
        exact Ty.within_parameter_iff.mpr ⟨id, .self id, hp⟩

theorem Encloses.trans {top middle id : TypeId} (h : table.Encloses top middle)
    (h' : table.Encloses middle id) : table.Encloses top id := by
  induction h' with
  | self => exact h
  | outer hid _ ih => exact .outer hid ih

/-- What is in scope for a type is in scope for every type that it encloses. -/
theorem InTypeScope.of_encloses {outer id : TypeId} {p : TypeParameterRef}
    (he : table.Encloses outer id) (h : table.InTypeScope outer p) : table.InTypeScope id p := by
  obtain ⟨top, htop, hp⟩ := h
  exact ⟨top, htop.trans he, hp⟩

theorem Encloses.sameShape (hs : SameShape a b) {top id : TypeId} (h : Encloses a top id) :
    Encloses b top id := by
  induction h with
  | self => exact .self _
  | outer hid _ ih =>
    refine .outer ?_ ih
    rw [hs.lexicalOuter, hid, hs.definitionType]

theorem InTypeScope.sameShape (hs : SameShape a b) {id : TypeId} {p : TypeParameterRef}
    (h : InTypeScope a id p) : InTypeScope b id p := by
  obtain ⟨top, htop, hp⟩ := h
  refine ⟨top, htop.sameShape hs, ?_⟩
  rw [hs.typeParametersOf]
  exact hp

/-- What is in scope for a type is a type parameter of types only. -/
theorem InTypeScope.ne_ofMethod {id : TypeId} {p : TypeParameterRef}
    (h : InTypeScope table id p) (m : MethodId) (i : Nat) : p ≠ .ofMethod m i := by
  obtain ⟨top, -, hp⟩ := h
  obtain ⟨j, -, rfl⟩ := List.mem_map.mp hp
  simp

end

end SymbolTable

/-! ### The types in a declaration -/

/-- The types that a type parameter is constrained to. -/
def TypeParameter.constraintTypes (q : TypeParameter) : List Ty :=
  q.constraints.filterMap fun
    | .keyword _ => none
    | .type t => some t

/-- The types in the signature of a method: what it returns, those of its parameters and those of
its constraints. -/
def Method.types (m : Method) : List Ty :=
  m.returnType.toList ++ m.parameters.map (·.type) ++ m.typeParameters.flatMap (·.constraintTypes)

theorem Method.mem_types_iff {m : Method} {t : Ty} :
    t ∈ m.types ↔ m.returnType = some t ∨ (∃ p ∈ m.parameters, p.type = t) ∨
      ∃ q ∈ m.typeParameters, t ∈ q.constraintTypes := by
  rw [types, List.mem_append, List.mem_append, Option.mem_toList, List.mem_map, List.mem_flatMap,
    or_assoc]

theorem TypeParameter.constraintTypes_concat (q : TypeParameter) (c : Constraint) {t : Ty} :
    t ∈ ({ q with constraints := q.constraints ++ [c] } : TypeParameter).constraintTypes ↔
      t ∈ q.constraintTypes ∨ c = .type t := by
  rw [constraintTypes, List.filterMap_append, List.mem_append]
  refine or_congr Iff.rfl ?_
  cases c with
  | keyword word => simp
  | type u => simp [eq_comm]

/-- Where one entry of a list is changed, every entry is an old one or the changed one. -/
theorem mem_modify {α : Type} {l : List α} {i : Nat} {f : α → α} {x : α}
    (h : x ∈ l.modify i f) : x ∈ l ∨ ∃ y ∈ l, x = f y := by
  obtain ⟨j, hj⟩ := List.mem_iff_getElem?.mp h
  rw [List.getElem?_modify] at hj
  obtain ⟨y, hy, hx⟩ := Option.map_eq_some_iff.mp hj
  have hmem : y ∈ l := List.mem_of_getElem? hy
  by_cases he : i = j
  · simp only [he, ↓reduceIte] at hx
    exact Or.inr ⟨y, hmem, hx.symm⟩
  · simp only [he, ↓reduceIte] at hx
    exact Or.inl (hx ▸ hmem)

namespace SymbolTable

/-! ### The scoping invariant -/

/-- The type parameter belongs to the method, or it is in scope for the type `owner` of the
method. -/
def InMethodScope (table : SymbolTable) (owner : TypeId) (m : MethodId)
    (p : TypeParameterRef) : Prop :=
  p ∈ table.methodTypeParameters m ∨ table.InTypeScope owner p

/-- All types of the table are well scoped: those in the signatures of methods, those of fields,
properties and events, and those that the type parameters of types are constrained to. -/
structure Scoped (table : SymbolTable) : Prop where
  methods : ∀ m : MethodId, m.index < table.methods.size →
    ∃ owner, (table.method m).container = some (table.definitionType owner) ∧
      ∀ t ∈ (table.method m).types, t.Within (table.InMethodScope owner m)
  values : ∀ v : ValueId, v.index < table.values.size →
    ∃ owner, (table.value v).container = some (table.definitionType owner) ∧
      ∀ t, (table.value v).type = some t → t.Within (table.InTypeScope owner)
  definitions : ∀ id : TypeId, ∀ q ∈ (table.definition id).typeParameters,
    ∀ t ∈ q.constraintTypes, t.Within (table.InTypeScope id)

/-- What may occur in a constraint of a type parameter. -/
def InParameterScope (table : SymbolTable) (p : TypeParameterRef) :
    TypeParameterRef → Prop
  | .ofType id _ => table.InTypeScope id p
  | .ofMethod m _ => ∃ owner, (table.method m).container = some (table.definitionType owner) ∧
      table.InMethodScope owner m p
  | .free _ => False

section

variable {table a b : SymbolTable}

theorem InMethodScope.sameShape (hs : SameShape a b) {owner : TypeId} {m : MethodId}
    {p : TypeParameterRef} (hm : b.methodTypeParameters m = a.methodTypeParameters m)
    (h : InMethodScope a owner m p) : InMethodScope b owner m p := by
  rcases h with h | h
  · exact Or.inl (hm ▸ h)
  · exact Or.inr (h.sameShape hs)

/-- A change of definitions that touches neither shape nor constraints. -/
theorem Scoped.of_sameShape (h : Scoped a) (hs : SameShape a b)
    (hd : ∀ id, (b.definition id).typeParameters = (a.definition id).typeParameters)
    (hm : b.methods = a.methods) (hv : b.values = a.values) : Scoped b := by
  have hmethod : ∀ m, b.method m = a.method m := fun m => by rw [method, method, hm]
  have hvalue : ∀ v, b.value v = a.value v := fun v => by rw [value, value, hv]
  refine ⟨fun m hlt => ?_, fun v hlt => ?_, fun id q hq t ht => ?_⟩
  · obtain ⟨owner, howner, htypes⟩ := h.methods m (hm ▸ hlt)
    refine ⟨owner, ?_, fun t ht => ?_⟩
    · rw [hmethod, howner, hs.definitionType]
    · rw [hmethod] at ht
      refine (htypes t ht).mono fun p hp => hp.sameShape hs ?_
      rw [methodTypeParameters, methodTypeParameters, hmethod]
  · obtain ⟨owner, howner, htypes⟩ := h.values v (hv ▸ hlt)
    refine ⟨owner, ?_, fun t ht => ?_⟩
    · rw [hvalue, howner, hs.definitionType]
    · rw [hvalue] at ht
      exact (htypes t ht).mono fun p hp => hp.sameShape hs
  · rw [hd] at hq
    exact (h.definitions id q hq t ht).mono fun p hp => hp.sameShape hs

/-- A change of one definition that touches neither its shape nor its type parameters. -/
theorem Scoped.updateDefinition (h : Scoped table) {id : TypeId}
    {f : TypeDefinition → TypeDefinition} (hs : SameShape table (table.updateDefinition id f))
    (hf : (f (table.definition id)).typeParameters = (table.definition id).typeParameters) :
    Scoped (table.updateDefinition id f) := by
  refine h.of_sameShape hs (fun other => ?_) rfl rfl
  rw [definition_updateDefinition]
  split
  · next he => rw [hf, he.1]
  · rfl

/-- A new method of a type, whose signature has no types yet. -/
theorem Scoped.addMethod (h : Scoped table) {m : Method} {owner : TypeId}
    (hc : m.container = some (table.definitionType owner)) (ht : m.types = []) :
    Scoped (table.addMethod m) := by
  have hs : SameShape table (table.addMethod m) := .of_definitions_eq rfl
  refine ⟨fun id hlt => ?_, fun v hlt => ?_, fun id q hq t ht => ?_⟩
  · have hmethod : (table.addMethod m).method id
        = if id = table.nextMethod then m else table.method id := method_addMethod m id
    by_cases hid : id = table.nextMethod
    · rw [hmethod, if_pos hid]
      refine ⟨owner, hc, fun t hmem => ?_⟩
      rw [ht] at hmem
      cases hmem
    · rw [if_neg hid] at hmethod
      have hold : id.index < table.methods.size := by
        have hne : id.index ≠ table.methods.size := fun he => hid (eq_nextMethod_iff.mpr he)
        rw [size_addMethod] at hlt
        omega
      obtain ⟨owner', howner, htypes⟩ := h.methods id hold
      rw [hmethod]
      refine ⟨owner', howner, fun t ht => (htypes t ht).mono fun p hp => hp.sameShape hs ?_⟩
      rw [methodTypeParameters, methodTypeParameters, hmethod]
  · obtain ⟨owner', howner, htypes⟩ := h.values v hlt
    exact ⟨owner', howner, fun t ht => (htypes t ht).mono fun p hp => hp.sameShape hs⟩
  · exact (h.definitions id q hq t ht).mono fun p hp => hp.sameShape hs

/-- A method changed so that it stays in its type, with as many type parameters as before and
with types in scope. -/
theorem Scoped.updateMethod (h : Scoped table) {id : MethodId} {f : Method → Method}
    (hc : (f (table.method id)).container = (table.method id).container)
    (hn : (f (table.method id)).typeParameters.length = (table.method id).typeParameters.length)
    (ht : ∀ t ∈ (f (table.method id)).types, t ∈ (table.method id).types ∨
      ∀ owner, (table.method id).container = some (table.definitionType owner) →
        t.Within (table.InMethodScope owner id)) : Scoped (table.updateMethod id f) := by
  have hs : SameShape table (table.updateMethod id f) := .of_definitions_eq rfl
  have hmethod : ∀ other, (table.updateMethod id f).method other
      = if other = id ∧ id.index < table.methods.size then f (table.method id)
        else table.method other := fun other => method_updateMethod id other f
  have hparams : ∀ m, (table.updateMethod id f).methodTypeParameters m
      = table.methodTypeParameters m := by
    intro m
    rw [methodTypeParameters, methodTypeParameters, hmethod]
    split
    · next he => rw [he.1, hn]
    · rfl
  refine ⟨fun m hlt => ?_, fun v hlt => ?_, fun id q hq t ht => ?_⟩
  · rw [size_updateMethod] at hlt
    obtain ⟨owner, howner, htypes⟩ := h.methods m hlt
    rw [hmethod]
    split
    · next he =>
      obtain ⟨rfl, -⟩ := he
      refine ⟨owner, hc.trans howner, fun t hmem => ?_⟩
      have hwithin : t.Within (table.InMethodScope owner m) := by
        rcases ht t hmem with hold | hnew
        · exact htypes t hold
        · exact hnew owner howner
      exact hwithin.mono fun p hp => hp.sameShape hs (hparams m)
    · exact ⟨owner, howner, fun t ht => (htypes t ht).mono fun p hp => hp.sameShape hs (hparams m)⟩
  · obtain ⟨owner', howner, htypes⟩ := h.values v hlt
    exact ⟨owner', howner, fun t ht => (htypes t ht).mono fun p hp => hp.sameShape hs⟩
  · exact (h.definitions id q hq t ht).mono fun p hp => hp.sameShape hs

/-- A new field, property or event whose type is in scope for its container. -/
theorem Scoped.addValue (h : Scoped table) {v : ValueMember} {owner : TypeId}
    (hc : v.container = some (table.definitionType owner))
    (ht : ∀ t, v.type = some t → t.Within (table.InTypeScope owner)) :
    Scoped (table.addValue v) := by
  have hs : SameShape table (table.addValue v) := .of_definitions_eq rfl
  refine ⟨fun m hlt => ?_, fun id hlt => ?_, fun id q hq t ht => ?_⟩
  · obtain ⟨owner', howner, htypes⟩ := h.methods m hlt
    exact ⟨owner', howner, fun t ht => (htypes t ht).mono fun p hp => hp.sameShape hs rfl⟩
  · rw [value_addValue]
    by_cases hid : id = table.nextValue
    · rw [if_pos hid]
      exact ⟨owner, hc, fun t hmem => (ht t hmem).mono fun p hp => hp.sameShape hs⟩
    · have hold : id.index < table.values.size := by
        have hne : id.index ≠ table.values.size := fun he => hid (eq_nextValue_iff.mpr he)
        rw [SymbolTable.addValue, Array.size_push] at hlt
        omega
      obtain ⟨owner', howner, htypes⟩ := h.values id hold
      rw [if_neg hid]
      exact ⟨owner', howner, fun t ht => (htypes t ht).mono fun p hp => hp.sameShape hs⟩
  · exact (h.definitions id q hq t ht).mono fun p hp => hp.sameShape hs

theorem sameShape_constrain (target : TypeParameterRef) (c : Constraint) :
    SameShape table (table.constrain target c) := by
  cases target with
  | ofType owner i =>
    exact sameShape_updateDefinition owner
      ⟨rfl, rfl, rfl, map_label_modify_constraints _ i c⟩ rfl
  | ofMethod owner i => exact .of_definitions_eq rfl
  | free i => exact .of_definitions_eq rfl

/-- One more constraint on a type parameter, of a type in scope for it. -/
theorem Scoped.constrain (h : Scoped table) {target : TypeParameterRef} {c : Constraint}
    (hc : ∀ t, c = .type t → t.Within (table.InParameterScope · target)) :
    Scoped (table.constrain target c) := by
  cases target with
  | ofMethod m i =>
    refine h.updateMethod rfl ?_ fun t ht => ?_
    · exact List.length_modify _ _ _
    · rcases Method.mem_types_iff.mp ht with hret | hparam | ⟨q, hq, hqt⟩
      · exact Or.inl (Method.mem_types_iff.mpr (Or.inl hret))
      · exact Or.inl (Method.mem_types_iff.mpr (Or.inr (Or.inl hparam)))
      · rcases mem_modify hq with hq | ⟨q', hq', rfl⟩
        · exact Or.inl (Method.mem_types_iff.mpr (Or.inr (Or.inr ⟨q, hq, hqt⟩)))
        · rcases (TypeParameter.constraintTypes_concat q' c).mp hqt with hold | rfl
          · exact Or.inl (Method.mem_types_iff.mpr (Or.inr (Or.inr ⟨q', hq', hold⟩)))
          · refine Or.inr fun owner howner p hp => ?_
            obtain ⟨owner', howner', hscope⟩ := hc t rfl p hp
            rw [howner] at howner'
            rw [definitionType_injective (Option.some.inj howner')]
            exact hscope
  | ofType owner i =>
    have hs : SameShape table (table.constrain (.ofType owner i) c) :=
      sameShape_constrain (.ofType owner i) c
    refine ⟨fun m hlt => ?_, fun v hlt => ?_, fun id q hq t ht => ?_⟩
    · obtain ⟨owner', howner, htypes⟩ := h.methods m hlt
      refine ⟨owner', ?_, fun t ht => (htypes t ht).mono fun p hp => hp.sameShape hs rfl⟩
      rw [hs.definitionType]
      exact howner
    · obtain ⟨owner', howner, htypes⟩ := h.values v hlt
      refine ⟨owner', ?_, fun t ht => (htypes t ht).mono fun p hp => hp.sameShape hs⟩
      rw [hs.definitionType]
      exact howner
    · have hwithin : t.Within (table.InTypeScope id) := by
        rw [SymbolTable.constrain, updateTypeParameter, definition_updateDefinition] at hq
        split at hq
        · next he =>
          obtain ⟨rfl, -⟩ := he
          rcases mem_modify hq with hq | ⟨q', hq', rfl⟩
          · exact h.definitions id q hq t ht
          · rcases (TypeParameter.constraintTypes_concat q' c).mp ht with hold | rfl
            · exact h.definitions id q' hq' t hold
            · exact hc t rfl
        · exact h.definitions id q hq t ht
      exact hwithin.mono fun p hp => hp.sameShape hs
  | free i => exact h.of_sameShape (.of_definitions_eq rfl) (fun _ => rfl) rfl rfl

end

end SymbolTable

end ExtensionCensus
