import ExtensionCensus.Proofs.Symbol.Renaming
import ExtensionCensus.Proofs.Symbol.Scope
import ExtensionCensus.Symbol.Display

/-!
# Texts that do not depend on places

Two tables that give the same names to what they declare show it in the same way, wherever it is.

* `SymbolTable.SameFaces` — what is shown of declared types is the same in both tables;
* `SymbolTable.SameParameter` — a type parameter is declared alike;
* `SameFaces.display_rename` — **a type is shown alike**, and `SameFaces.displayMethod_rename`,
  `SameFaces.displayValue_rename`, `SameFaces.constraintClause_rename`: so are members.
-/

namespace ExtensionCensus.SymbolTable

/-- The types of `a` have the same names, keywords, kinds and containers where `r` puts them in `b`. -/
structure SameFaces (r : Renaming) (a b : SymbolTable) : Prop where
  name : ∀ id : TypeId, (b.definition (r.type id)).name = (a.definition id).name
  container : ∀ id : TypeId,
    (b.definition (r.type id)).container = (a.definition id).container.rename r
  kind : ∀ id : TypeId, (b.definition (r.type id)).kind = (a.definition id).kind
  keyword : ∀ id : TypeId, (b.definition (r.type id)).keyword = (a.definition id).keyword
  metadataName : ∀ id : TypeId,
    (b.definition (r.type id)).metadataName = (a.definition id).metadataName

/-- The type parameter is declared alike in both tables. -/
def SameParameter (r : Renaming) (a b : SymbolTable) (p : TypeParameterRef) : Prop :=
  b.typeParameter (r.parameter p) = (a.typeParameter p).rename r

section

variable {r : Renaming} {a b : SymbolTable}

theorem SameParameter.name {p : TypeParameterRef} (h : SameParameter r a b p) :
    (b.typeParameter (r.parameter p)).name = (a.typeParameter p).name := by
  rw [h]
  rfl

/-! ### Types -/

theorem SameFaces.displayDeclared (h : SameFaces r a b) (id : TypeId) (outer : Option String)
    (args : List String) :
    displayDeclared (b.definition (r.type id)) outer args
      = displayDeclared (a.definition id) outer args := by
  have hcontainer := h.container id
  simp only [SymbolTable.displayDeclared, h.keyword, h.metadataName, h.name, hcontainer]
  cases outer <;> cases (a.definition id).container <;> rfl

mutual

/-- **A type is shown alike.** -/
theorem SameFaces.display_rename (h : SameFaces r a b) :
    ∀ t : Ty, t.Within (SameParameter r a b) → b.display (t.rename r) = a.display t
  | .named head outer args, ht => by
    rw [Ty.within_named_iff] at ht
    have houter := h.displayOuter_rename outer ht.1
    have hargs := h.displayList_rename args ht.2
    cases head with
    | declared id =>
      rw [Ty.rename, Renaming.head, display, display, houter, hargs, h.displayDeclared]
    | unbound name => rw [Ty.rename, Renaming.head, display, display, houter, hargs]
  | .parameter p, ht => by
    rw [Ty.rename_parameter, display, display]
    exact (Ty.within_parameter_iff.mp ht).name
  | .array element rank, ht => by
    rw [Ty.rename_array, display, display, h.display_rename element ht]
  | .pointer target, ht => by
    rw [Ty.rename_pointer, display, display, h.display_rename target ht]
  | .dynamic, _ => by rw [Ty.rename_dynamic, display, display]
  | .functionPointer signature, _ => by rw [Ty.rename_functionPointer, display, display]

theorem SameFaces.displayOuter_rename (h : SameFaces r a b) : ∀ outer : Option Ty,
    (∀ t, outer = some t → t.Within (SameParameter r a b)) →
    b.displayOuter (Ty.renameOuter r outer) = a.displayOuter outer
  | none, _ => rfl
  | some t, ht => by
    rw [Ty.renameOuter, displayOuter, displayOuter, h.display_rename t (ht t rfl)]

theorem SameFaces.displayList_rename (h : SameFaces r a b) : ∀ ts : List Ty,
    (∀ t ∈ ts, t.Within (SameParameter r a b)) →
    b.displayList (Ty.renameList r ts) = a.displayList ts
  | [], _ => rfl
  | t :: ts, ht => by
    rw [Ty.renameList, displayList, displayList, h.display_rename t (ht t List.mem_cons_self),
      h.displayList_rename ts fun u hu => ht u (List.mem_cons_of_mem t hu)]

end

theorem SameFaces.isValueType_rename (h : SameFaces r a b) {t : Ty}
    (ht : t.Within (SameParameter r a b)) : b.isValueType (t.rename r) = a.isValueType t := by
  cases t with
  | named head outer args =>
    cases head with
    | declared id => simp [Renaming.head, isValueType, h.kind]
    | unbound name => simp [Renaming.head, isValueType]
  | parameter p =>
    have hp := Ty.within_parameter_iff.mp ht
    rw [Ty.rename_parameter, isValueType, isValueType, hp, TypeParameter.isValue_rename]
  | array element rank => simp [isValueType]
  | pointer target => simp [isValueType]
  | dynamic => simp [isValueType]
  | functionPointer signature => simp [isValueType]

/-! ### Members -/

theorem SameFaces.constraintClause_rename (h : SameFaces r a b) {q : TypeParameter}
    (hq : ∀ t ∈ q.constraintTypes, t.Within (SameParameter r a b)) :
    b.constraintClause (q.rename r) = a.constraintClause q := by
  have hshown : (q.constraints.map (Constraint.rename r)).map b.displayConstraint
      = q.constraints.map a.displayConstraint := by
    rw [List.map_map]
    refine List.map_congr_left fun c hc => ?_
    cases c with
    | keyword word => rfl
    | type t =>
      exact h.display_rename t (hq t (List.mem_filterMap.mpr ⟨.type t, hc, rfl⟩))
  rw [constraintClause, constraintClause, TypeParameter.rename, List.isEmpty_map, hshown]

theorem SameFaces.displayParameterType_rename (h : SameFaces r a b) {p : Parameter}
    (hp : p.type.Within (SameParameter r a b)) :
    b.displayParameterType (p.rename r) = a.displayParameterType p := by
  have hshown := h.display_rename p.type hp
  simp only [displayParameterType, displayAnnotated, Parameter.rename, hshown]

theorem SameFaces.displayParameter_rename (h : SameFaces r a b) {p : Parameter}
    (hp : p.type.Within (SameParameter r a b)) :
    b.displayParameter (p.rename r) = a.displayParameter p := by
  have hshown := h.displayParameterType_rename hp
  simp only [displayParameter, hshown]
  rfl

theorem SameFaces.containerName?_rename (h : SameFaces r a b) (m : Method) :
    b.containerName? (m.rename r) = a.containerName? m := by
  rw [containerName?, containerName?, Method.rename]
  cases hc : m.container with
  | none => rfl
  | some t =>
    cases t with
    | named head outer args => cases head <;> simp [Renaming.head, h.name]
    | _ => simp

/-- **A method is shown alike.** -/
theorem SameFaces.displayMethod_rename (h : SameFaces r a b) {m : Method}
    (hm : ∀ t ∈ m.types, t.Within (SameParameter r a b)) :
    b.displayMethod (m.rename r) = a.displayMethod m := by
  have hparameters : ((m.parameters.map (Parameter.rename r)).map b.displayParameter)
      = m.parameters.map a.displayParameter := by
    rw [List.map_map]
    refine List.map_congr_left fun p hp => h.displayParameter_rename (hm p.type ?_)
    exact Method.mem_types_iff.mpr (Or.inr (Or.inl ⟨p, hp, rfl⟩))
  have hclauses : ((m.typeParameters.map (TypeParameter.rename r)).map b.constraintClause)
      = m.typeParameters.map a.constraintClause := by
    rw [List.map_map]
    refine List.map_congr_left fun q hq => h.constraintClause_rename fun t ht => hm t ?_
    exact Method.mem_types_iff.mpr (Or.inr (Or.inr ⟨q, hq, ht⟩))
  have hnames : ((m.typeParameters.map (TypeParameter.rename r)).map (·.name))
      = m.typeParameters.map (·.name) := by
    rw [List.map_map]
    rfl
  have hreturn : b.displayReturn (m.rename r) = a.displayReturn m := by
    rw [displayReturn, displayReturn, Method.rename]
    cases hr : m.returnType with
    | none => rfl
    | some t =>
      have hshown := h.display_rename t (hm t (Method.mem_types_iff.mpr (Or.inl hr)))
      simp only [Option.map_some, hshown]
  rw [displayMethod, displayMethod, h.containerName?_rename, hreturn]
  simp only [Method.rename, hparameters, hclauses, hnames]

/-- **A field, property or event is shown alike.** -/
theorem SameFaces.displayValue_rename (h : SameFaces r a b) {v : ValueMember}
    (hv : ∀ t, v.type = some t → t.Within (SameParameter r a b)) :
    b.displayValue (v.rename r) = a.displayValue v := by
  rw [displayValue, displayValue, ValueMember.rename]
  cases ht : v.type with
  | none => rfl
  | some t =>
    have hshown := h.display_rename t (hv t ht)
    simp only [Option.map_some, hshown]

end

end ExtensionCensus.SymbolTable
