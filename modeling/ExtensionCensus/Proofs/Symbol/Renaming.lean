import ExtensionCensus.Proofs.Symbol.Growth

/-!
# Renaming declared types and methods

Two compilations may declare the same types and methods in different orders, so that these get
different places.  What such symbols have in common is said up to a renaming of the places.

* `Renaming`, `Ty.rename` — a map of places, and a type expression with the places in it mapped;
* `Parameter.rename`, `TypeParameter.rename`, `Method.rename` — the same of signatures, and
  `TypeDefinition.rename` of what is declared;
* `Ty.rename_same`, `TypeParameter.rename_same` — the renaming that changes nothing;
* `Ty.isGeneric_rename`, `Ty.isUnbound_rename`, … — what does not depend on places.
-/

namespace ExtensionCensus

/-- Where the types and methods of one table are in another one. -/
structure Renaming where
  type : TypeId → TypeId
  method : MethodId → MethodId

namespace Renaming

/-- The renaming that changes nothing. -/
def same : Renaming :=
  ⟨id, id⟩

variable (r : Renaming)

/-- A type parameter of the owner that is mapped, at the same position. -/
def parameter : TypeParameterRef → TypeParameterRef
  | .ofType owner i => .ofType (r.type owner) i
  | .ofMethod owner i => .ofMethod (r.method owner) i
  | .free i => .free i

/-- A head of a named type that is mapped. -/
def head : TypeHead → TypeHead
  | .declared id => .declared (r.type id)
  | .unbound name => .unbound name

end Renaming

/-! ### Type expressions -/

namespace Ty

mutual

/-- A type expression with all places in it mapped. -/
def rename (r : Renaming) : Ty → Ty
  | .named head outer args => .named (r.head head) (renameOuter r outer) (renameList r args)
  | .parameter p => .parameter (r.parameter p)
  | .array element rank => .array (rename r element) rank
  | .pointer target => .pointer (rename r target)
  | .dynamic => .dynamic
  | .functionPointer signature => .functionPointer signature

/-- A containing type with all places in it mapped. -/
def renameOuter (r : Renaming) : Option Ty → Option Ty
  | none => none
  | some t => some (rename r t)

/-- Type expressions with all places in them mapped. -/
def renameList (r : Renaming) : List Ty → List Ty
  | [] => []
  | t :: ts => rename r t :: renameList r ts

end

variable (r : Renaming)

theorem renameOuter_eq (outer : Option Ty) : renameOuter r outer = outer.map (rename r) := by
  cases outer <;> rfl

theorem renameList_eq (ts : List Ty) : renameList r ts = ts.map (rename r) := by
  induction ts with
  | nil => rfl
  | cons t ts ih => exact congrArg (t.rename r :: ·) ih

@[simp]
theorem rename_named (head : TypeHead) (outer : Option Ty) (args : List Ty) :
    (Ty.named head outer args).rename r
      = .named (r.head head) (outer.map (rename r)) (args.map (rename r)) := by
  rw [← renameOuter_eq, ← renameList_eq]
  rfl

@[simp]
theorem rename_parameter (p : TypeParameterRef) :
    (Ty.parameter p).rename r = .parameter (r.parameter p) :=
  rfl

@[simp]
theorem rename_array (element : Ty) (rank : Nat) :
    (Ty.array element rank).rename r = .array (element.rename r) rank :=
  rfl

@[simp]
theorem rename_pointer (target : Ty) :
    (Ty.pointer target).rename r = .pointer (target.rename r) :=
  rfl

@[simp]
theorem rename_dynamic : Ty.dynamic.rename r = .dynamic :=
  rfl

@[simp]
theorem rename_functionPointer (signature : String) :
    (Ty.functionPointer signature).rename r = .functionPointer signature :=
  rfl

theorem declaration?_rename (t : Ty) :
    (t.rename r).declaration? = t.declaration?.map r.type := by
  cases t with
  | named head outer args => cases head <;> simp [Renaming.head, declaration?]
  | _ => simp [declaration?]

theorem isUnbound_rename (t : Ty) : (t.rename r).isUnbound = t.isUnbound := by
  cases t with
  | named head outer args => cases head <;> simp [Renaming.head, isUnbound]
  | _ => simp [isUnbound]

mutual

theorem isGeneric_rename : ∀ t : Ty, (t.rename r).isGeneric = t.isGeneric
  | .named head none args => by simp [isGeneric]
  | .named head (some outer) args => by simp [isGeneric, isGeneric_rename outer]
  | .parameter _ | .array _ _ | .pointer _ | .dynamic | .functionPointer _ => by simp [isGeneric]

end

mutual

/-- Nothing changes under the renaming that changes nothing. -/
theorem rename_same : ∀ t : Ty, t.rename .same = t
  | .named head outer args => by
    have hhead : Renaming.same.head head = head := by cases head <;> rfl
    rw [rename, hhead, renameOuter_same outer, renameList_same args]
  | .parameter p => by cases p <;> rfl
  | .array element _ => by rw [rename, rename_same element]
  | .pointer target => by rw [rename, rename_same target]
  | .dynamic => rfl
  | .functionPointer _ => rfl

theorem renameOuter_same : ∀ outer : Option Ty, renameOuter .same outer = outer
  | none => rfl
  | some t => by rw [renameOuter, rename_same t]

theorem renameList_same : ∀ ts : List Ty, renameList .same ts = ts
  | [] => rfl
  | t :: ts => by rw [renameList, rename_same t, renameList_same ts]

end

end Ty

/-! ### Signatures -/

variable (r : Renaming)

/-- A constraint with all places in it mapped. -/
def Constraint.rename : Constraint → Constraint
  | .keyword word => .keyword word
  | .type t => .type (t.rename r)

/-- A type parameter with all places in it mapped. -/
def TypeParameter.rename (p : TypeParameter) : TypeParameter :=
  { p with
    constraints := p.constraints.map (Constraint.rename r)
    place := p.place.map r.parameter }

/-- A parameter with all places in it mapped. -/
def Parameter.rename (p : Parameter) : Parameter :=
  { p with type := p.type.rename r, owner := p.owner.map r.method }

/-- A method with all places in it mapped. -/
def Method.rename (m : Method) : Method :=
  { m with
    container := m.container.map (Ty.rename r)
    returnType := m.returnType.map (Ty.rename r)
    typeParameters := m.typeParameters.map (TypeParameter.rename r)
    parameters := m.parameters.map (Parameter.rename r) }

/-- A field, property or event with all places in it mapped. -/
def ValueMember.rename (v : ValueMember) : ValueMember :=
  { v with
    container := v.container.map (Ty.rename r)
    type := v.type.map (Ty.rename r) }

/-- A container with all places in it mapped. -/
def Container.rename : Container → Container
  | .type t => .type (t.rename r)
  | container => container

/-- A member at its place. Fields, properties and events have no other one. -/
def Member.rename : Member → Member
  | .type id => .type (r.type id)
  | .method id => .method (r.method id)
  | .value id => .value id

/-- A definition with all places in it mapped. -/
def TypeDefinition.rename (d : TypeDefinition) : TypeDefinition :=
  { d with
    container := d.container.rename r
    typeParameters := d.typeParameters.map (TypeParameter.rename r)
    members := d.members.map (Member.rename r) }

theorem Constraint.rename_same (c : Constraint) : c.rename .same = c := by
  cases c with
  | keyword word => rfl
  | type t => rw [rename, Ty.rename_same]

theorem TypeParameter.rename_same (p : TypeParameter) : p.rename .same = p := by
  have hplace : p.place.map Renaming.same.parameter = p.place := by
    cases p.place with
    | none => rfl
    | some q => cases q <;> rfl
  rw [rename, List.map_congr_left fun c _ => Constraint.rename_same c, List.map_id', hplace]

/-- Type parameters that are listed by one owner are, renamed, those listed by the other. -/
theorem map_rename_listed {place place' : Nat → TypeParameterRef}
    (hplace : ∀ i, r.parameter (place i) = place' i) (ps : List TypeParameter) :
    (TypeParameter.listed place ps).map (TypeParameter.rename r)
      = TypeParameter.listed place' (ps.map (TypeParameter.rename r)) := by
  refine List.ext_getElem? fun i => ?_
  rw [List.getElem?_map, getElem?_listed, getElem?_listed, List.getElem?_map, Option.map_map,
    Option.map_map, ← hplace i]
  rfl

theorem Parameter.rename_same (p : Parameter) : p.rename .same = p := by
  have howner : p.owner.map Renaming.same.method = p.owner := Option.map_id'
  rw [rename, Ty.rename_same, howner]

theorem map_rename_same (t : Option Ty) : t.map (Ty.rename .same) = t := by
  cases t with
  | none => rfl
  | some t => rw [Option.map_some, Ty.rename_same]

theorem Method.rename_same (m : Method) : m.rename .same = m := by
  rw [rename, map_rename_same, map_rename_same,
    List.map_congr_left fun q _ => TypeParameter.rename_same q, List.map_id',
    List.map_congr_left fun p _ => Parameter.rename_same p, List.map_id']

theorem ValueMember.rename_same (v : ValueMember) : v.rename .same = v := by
  rw [rename, map_rename_same, map_rename_same]

theorem Container.rename_same (c : Container) : c.rename .same = c := by
  cases c with
  | type t => rw [rename, Ty.rename_same]
  | _ => rfl

/-- A type parameter stands for value types whatever the places are. -/
theorem TypeParameter.isValue_rename (p : TypeParameter) : (p.rename r).isValue = p.isValue := by
  rw [isValue, isValue, rename, List.any_map]
  congr 1
  funext c
  cases c <;> rfl

/-! ### What definitions stand for -/

namespace SymbolTable

variable {r : Renaming} {a b : SymbolTable} {id : TypeId}

theorem rename_typeParametersOf (r : Renaming) (table : SymbolTable) (id : TypeId) :
    (table.typeParametersOf id).map r.parameter
      = (List.range (table.definition id).typeParameters.length).map (.ofType (r.type id)) := by
  rw [typeParametersOf, List.map_map]
  rfl

theorem lexicalOuter_rename
    (hcontainer : (b.definition (r.type id)).container = (a.definition id).container.rename r) :
    b.lexicalOuter (r.type id) = (a.lexicalOuter id).map (Ty.rename r) := by
  rw [lexicalOuter, lexicalOuter, hcontainer]
  cases (a.definition id).container <;> rfl

theorem isTopLevel_rename {id' : TypeId}
    (hcontainer : (b.definition id').container = (a.definition id).container.rename r) :
    b.isTopLevel id' = a.isTopLevel id := by
  rw [isTopLevel, isTopLevel, hcontainer]
  cases (a.definition id).container <;> rfl

/-- **A definition in a container that is mapped, with as many type parameters, stands for the type
that is mapped.** -/
theorem definitionType_rename
    (hcontainer : (b.definition (r.type id)).container = (a.definition id).container.rename r)
    (hlength : (b.definition (r.type id)).typeParameters.length
      = (a.definition id).typeParameters.length) :
    b.definitionType (r.type id) = (a.definitionType id).rename r := by
  have hparameters := rename_typeParametersOf r a id
  rw [← hlength, ← typeParametersOf] at hparameters
  rw [definitionType, definitionType, Ty.rename_named, lexicalOuter_rename hcontainer, Renaming.head,
    ← hparameters, List.map_map, List.map_map]
  congr 1

end SymbolTable

end ExtensionCensus
