import ExtensionCensus.Symbol.Kind
import ExtensionCensus.Symbol.Namespace

/-!
# The symbol table

Everything that is declared, by place: types with their members, methods, fields, properties and
events, and the type parameters that belong to nobody.

* `TypeDefinition`, `Method`, `Parameter`, `ValueMember`, `TypeParameter` — what is declared.
* `Traits` — what a declaration says about a type and may come to say later: accessibility,
  modifiers, and whether to look for extension methods in it.
* `SymbolTable` — the table; `definitionType` is the type that a definition stands for.
* `SymbolTable.traits`, `SymbolTable.note` — an instance of a declared type keeps the traits that
  the declaration had when the instance first arose.
-/

namespace ExtensionCensus

/-! ### What is declared -/

/-- A constraint on a type parameter: a keyword, or a type that the argument derives from. -/
inductive Constraint where
  | keyword (word : String)
  | type (t : Ty)
  deriving Inhabited

/-- A type parameter as its owner declares it. `place` says who the owner is, and at which position
the type parameter stands there. -/
structure TypeParameter where
  name : String
  variance : Option String := none
  constraints : List Constraint := []
  place : Option TypeParameterRef := none
  deriving Inhabited

/-- Lists a type parameter behind those that its owner has. -/
def TypeParameter.add (place : Nat → TypeParameterRef) (ps : List TypeParameter)
    (p : TypeParameter) : List TypeParameter :=
  ps ++ [{ p with place := some (place ps.length) }]

/-- Type parameters as their owner lists them, one after another. -/
def TypeParameter.listed (place : Nat → TypeParameterRef) (ps : List TypeParameter) :
    List TypeParameter :=
  ps.foldl (TypeParameter.add place) []

/-- The type parameter stands for value types only: it has a `struct` or `unmanaged`
constraint. -/
def TypeParameter.isValue (p : TypeParameter) : Bool :=
  p.constraints.any fun
    | .keyword word => word = "struct" || word = "unmanaged"
    | .type _ => false

/-- What contains a declared type. -/
inductive Container where
  | namespace (path : NamespacePath)
  | type (t : Ty)
  | nothing
  deriving Inhabited

/-- A member of a declared type. -/
inductive Member where
  | type (id : TypeId)
  | method (id : MethodId)
  | value (id : ValueId)
  deriving DecidableEq, Inhabited

/-- What a declaration says about a type beside its name and shape. -/
structure Traits where
  access : Accessibility
  isStatic : Bool := false
  isAbstract : Bool := false
  mightHoldExtensions : Bool := true
  deriving DecidableEq, Inhabited

/-- A declared class, struct, interface, enum or delegate. -/
structure TypeDefinition where
  name : String
  container : Container
  kind : DefinitionKind
  traits : Traits
  keyword : Option String := none
  metadataName : String
  typeParameters : List TypeParameter := []
  members : List Member := []
  deriving Inhabited

/-- A parameter of a method. `owner` and `ordinal` say which method, and at which position there. -/
structure Parameter where
  name : String
  type : Ty
  refKind : RefKind := .byValue
  isThis : Bool := false
  isParams : Bool := false
  defaultValue : Option String := none
  isNullable : Bool := false
  owner : Option MethodId := none
  ordinal : Nat := 0
  deriving Inhabited

/-- A method, constructor, operator or destructor. `isExtension` is the verdict of whoever
declared it. -/
structure Method where
  name : String
  container : Option Ty := none
  access : Accessibility := .privateAccess
  returnType : Option Ty := none
  kind : MethodKind := .ordinary
  isStatic : Bool := false
  isExtension : Bool := false
  isImplicit : Bool := false
  returnsByRef : Option String := none
  returnIsNullable : Bool := false
  typeParameters : List TypeParameter := []
  parameters : List Parameter := []
  deriving Inhabited

/-- A field, property or event. -/
structure ValueMember where
  kind : ValueKind
  name : String
  container : Option Ty := none
  type : Option Ty := none
  access : Accessibility := .privateAccess
  isStatic : Bool := false
  deriving Inhabited

/-- All symbols but namespaces, by place, and the traits of the instances that arose so far. -/
structure SymbolTable where
  definitions : Array TypeDefinition := #[]
  methods : Array Method := #[]
  values : Array ValueMember := #[]
  freeParameters : Array TypeParameter := #[]
  instances : List (Ty × Traits) := []
  deriving Inhabited

namespace SymbolTable

variable (table : SymbolTable)

/-! ### Looking up -/

/-- The definition at a place. -/
def definition (id : TypeId) : TypeDefinition :=
  table.definitions[id.index]?.getD default

/-- The method at a place. -/
def method (id : MethodId) : Method :=
  table.methods[id.index]?.getD default

/-- The field, property or event at a place. -/
def value (id : ValueId) : ValueMember :=
  table.values[id.index]?.getD default

/-- The declaration of a type parameter. -/
def typeParameter : TypeParameterRef → TypeParameter
  | .ofType owner i => (table.definition owner).typeParameters[i]?.getD default
  | .ofMethod owner i => (table.method owner).typeParameters[i]?.getD default
  | .free i => table.freeParameters[i]?.getD default

/-- The type parameters that a type declares. -/
def typeParametersOf (id : TypeId) : List TypeParameterRef :=
  (List.range (table.definition id).typeParameters.length).map (.ofType id)

/-- The type parameters that a method declares. -/
def methodTypeParameters (id : MethodId) : List TypeParameterRef :=
  (List.range (table.method id).typeParameters.length).map (.ofMethod id)

/-- The number of type parameters of a declared type. -/
def arity (id : TypeId) : Nat :=
  (table.definition id).typeParameters.length

/-- What tells a declared type apart inside its container. -/
def key (id : TypeId) : TypeKey :=
  ⟨(table.definition id).name, table.arity id⟩

/-- The type that lexically contains a declared type. -/
def lexicalOuter (id : TypeId) : Option Ty :=
  match (table.definition id).container with
  | .type t => some t
  | _ => none

/-- The type that a definition stands for: the instance over its own type parameters inside the
type that lexically contains it. -/
def definitionType (id : TypeId) : Ty :=
  .named (.declared id) (table.lexicalOuter id) ((table.typeParametersOf id).map .parameter)

/-- The type is what some definition stands for. An unbound type counts as its own definition. -/
def isDefinition (t : Ty) : Bool :=
  match t.declaration? with
  | some id => t = table.definitionType id
  | none => t.isUnbound

/-- The declared type lies directly in a namespace. -/
def isTopLevel (id : TypeId) : Bool :=
  match (table.definition id).container with
  | .namespace _ => true
  | _ => false

/-- The members of a declared type, in declaration order. -/
def members (id : TypeId) : List Member :=
  (table.definition id).members

/-- The types nested in a declared type, in declaration order. -/
def nestedTypes (id : TypeId) : List TypeId :=
  (table.members id).filterMap fun
    | .type t => some t
    | _ => none

/-- The first type of a key nested in a declared type. -/
def nestedType? (id : TypeId) (key : TypeKey) : Option TypeId :=
  (table.nestedTypes id).find? fun t => table.key t = key

/-! ### What a type is -/

/-- The kind of a type. -/
def kind : Ty → TypeKind
  | .named (.declared id) _ _ => .declared (table.definition id).kind
  | .named (.unbound _) _ _ => .error
  | .parameter _ => .typeParameter
  | .array _ _ => .array
  | .pointer _ => .pointer
  | .dynamic => .dynamic
  | .functionPointer _ => .functionPointer

/-- Values of the type are copied on assignment. -/
def isValueType : Ty → Bool
  | .named (.declared id) _ _ => (table.definition id).kind.isValue
  | .parameter p => (table.typeParameter p).isValue
  | .pointer _ => true
  | .functionPointer _ => true
  | _ => false

/-! ### Traits of instances -/

/-- The traits that an instance starts with. -/
def initialTraits : Ty → Traits
  | .named (.declared id) _ _ =>
    { (table.definition id).traits with mightHoldExtensions := false }
  | _ => { access := .notApplicable, mightHoldExtensions := false }

/-- The traits of a named type: those of the definition for a definition, else those that the
instance was given when it arose. -/
def traits (t : Ty) : Traits :=
  match t.declaration? with
  | some id =>
    if t = table.definitionType id then (table.definition id).traits
    else (table.instances.lookup t).getD (table.initialTraits t)
  | none => (table.instances.lookup t).getD (table.initialTraits t)

/-- Gives a single type the traits it starts with, unless it has some. -/
def noteOne (t : Ty) : SymbolTable :=
  if table.isDefinition t && !t.isUnbound || (table.instances.lookup t).isSome then table
  else { table with instances := (t, table.initialTraits t) :: table.instances }

mutual

/-- Gives every named type inside a type expression its first traits. -/
def note (table : SymbolTable) : Ty → SymbolTable
  | .named head outer args =>
    (noteList (noteOuter table outer) args).noteOne (.named head outer args)
  | .array element _ => note table element
  | .pointer target => note table target
  | _ => table

/-- Gives every named type inside a containing type its first traits. -/
def noteOuter (table : SymbolTable) : Option Ty → SymbolTable
  | none => table
  | some t => note table t

/-- Gives every named type inside an argument list its first traits. -/
def noteList (table : SymbolTable) : List Ty → SymbolTable
  | [] => table
  | t :: ts => noteList (note table t) ts

end

/-! ### Changing -/

/-- The table with a definition changed. -/
def updateDefinition (id : TypeId) (f : TypeDefinition → TypeDefinition) : SymbolTable :=
  { table with definitions := table.definitions.modify id.index f }

/-- The table with a method changed. -/
def updateMethod (id : MethodId) (f : Method → Method) : SymbolTable :=
  { table with methods := table.methods.modify id.index f }

/-- The table with a field, property or event changed. -/
def updateValue (id : ValueId) (f : ValueMember → ValueMember) : SymbolTable :=
  { table with values := table.values.modify id.index f }

/-- The table with a type parameter changed. -/
def updateTypeParameter (p : TypeParameterRef) (f : TypeParameter → TypeParameter) :
    SymbolTable :=
  match p with
  | .ofType owner i =>
    table.updateDefinition owner fun d => { d with typeParameters := d.typeParameters.modify i f }
  | .ofMethod owner i =>
    table.updateMethod owner fun m => { m with typeParameters := m.typeParameters.modify i f }
  | .free i => { table with freeParameters := table.freeParameters.modify i f }

/-- The table with one more constraint on a type parameter. -/
def constrain (p : TypeParameterRef) (c : Constraint) : SymbolTable :=
  table.updateTypeParameter p fun tp => { tp with constraints := tp.constraints ++ [c] }

/-- The table with the traits of a named type changed. -/
def updateTraits (t : Ty) (f : Traits → Traits) : SymbolTable :=
  match t.declaration? with
  | some id =>
    if t = table.definitionType id then
      table.updateDefinition id fun d => { d with traits := f d.traits }
    else { table with instances := (t, f (table.traits t)) :: table.instances }
  | none => { table with instances := (t, f (table.traits t)) :: table.instances }

/-- The full name of a declared type without type arguments, as its container begins it. -/
def metadataNameIn (container : Container) (name : String) : String :=
  let outer :=
    match container with
    | .namespace path => Namespace.qualifiedName path
    | .type (.named (.declared id) _ _) => (table.definition id).metadataName
    | .type (.named (.unbound n) _ _) => n
    | _ => ""
  if outer = "" then name else outer ++ "." ++ name

/-- The place that the next definition gets. -/
def nextType : TypeId := ⟨table.definitions.size⟩

/-- The place that the next method gets. -/
def nextMethod : MethodId := ⟨table.methods.size⟩

/-- The place that the next field, property or event gets. -/
def nextValue : ValueId := ⟨table.values.size⟩

/-- The table with one more definition, which no namespace or type lists yet. -/
def addDefinition (d : TypeDefinition) : SymbolTable :=
  { table with definitions := table.definitions.push d }

/-- The table with one more method, which no type lists yet. -/
def addMethod (m : Method) : SymbolTable :=
  { table with methods := table.methods.push m }

/-- The table with one more field, property or event, which no type lists yet. -/
def addValue (v : ValueMember) : SymbolTable :=
  { table with values := table.values.push v }

/-- The table with one more type parameter that has no owner. -/
def addFreeParameter (p : TypeParameter) : SymbolTable :=
  { table with freeParameters := table.freeParameters.push p }

/-- The table with a member listed by a declared type. -/
def addMember (id : TypeId) (m : Member) : SymbolTable :=
  table.updateDefinition id fun d => { d with members := d.members ++ [m] }

end SymbolTable

end ExtensionCensus
