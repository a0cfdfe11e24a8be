import ExtensionCensus.Binding.Unread

/-!
# Binding members

The second pass over the parts of types: it makes the members that the parts declare, with every
written type resolved.

* `Outline.bindMethod`, `Outline.bindValues` — single members. Constraints come before the rest
  of a signature, since they decide what a question mark means.
* `Outline.bindPart` — one part of a type.
* `Outline.addImplicit` — the constructor that a type has without declaring it.
-/

namespace ExtensionCensus.Binding

open Source (TypeForm ReturnForm ParameterForm ConstraintForm ConstraintClause MethodForm
  ValueForm MemberForm TypeParameterForm)

namespace Outline

/-! ### Types in signatures -/

/-- Resolves a type, gives the instances in it their first traits, and takes down what is unread
in it. -/
def bindType (o : Outline) (ctx : Context) (form : Option TypeForm) :
    Except BindError (Outline × Ty) :=
  match o.resolveOptional ctx form with
  | .error e => .error e
  | .ok t =>
    .ok ({ o with table := o.table.note t, unread := o.unread ++ o.unreadIn ctx form }, t)

/-- The form carries an annotation that is no part of the type: it has a question mark, and its
type is not wrapped. -/
def isAnnotated (form : Option TypeForm) (t : Ty) : Bool :=
  (form.map (·.isNullable)).getD false && !Library.isNullable t

/-- A constraint with its type resolved. -/
def bindConstraint (o : Outline) (ctx : Context) :
    ConstraintForm → Except BindError (Outline × Constraint)
  | .keyword word => .ok (o, .keyword word)
  | .type form => (o.bindType ctx (some form)).map fun (o, t) => (o, .type t)

/-- Adds constraints to a type parameter, one after the other. -/
def bindConstraintList (o : Outline) (ctx : Context) (target : TypeParameterRef) :
    List ConstraintForm → Except BindError Outline
  | [] => .ok o
  | form :: rest =>
    match o.bindConstraint ctx form with
    | .error e => .error e
    | .ok (o, c) => bindConstraintList { o with table := o.table.constrain target c } ctx target rest

/-- Binds the clauses of a declaration. A clause counts when its target is a type parameter of
the declaration, the last of that name, that has no constraints yet. -/
def bindClauses (o : Outline) (ctx : Context) (ps : List TypeParameterRef) :
    List ConstraintClause → Except BindError Outline
  | [] => .ok o
  | clause :: rest =>
    match o.parameterNamed? ps.reverse clause.target with
    | none => bindClauses o ctx ps rest
    | some target =>
      if (o.table.typeParameter target).constraints.isEmpty then
        match o.bindConstraintList ctx target clause.constraints with
        | .error e => .error e
        | .ok o => bindClauses o ctx ps rest
      else bindClauses o ctx ps rest

/-- A parameter with its type resolved. -/
def bindParameter (o : Outline) (ctx : Context) (p : ParameterForm) :
    Except BindError (Outline × Parameter) :=
  (o.bindType ctx p.type).map fun (o, t) =>
    (o,
      { name := p.name
        type := t
        refKind := p.refKind
        isThis := p.isThis
        isParams := p.isParams
        defaultValue := p.defaultValue
        isNullable := isAnnotated p.type t })

/-- Parameters with their types resolved, in order. -/
def bindParameters (o : Outline) (ctx : Context) :
    List ParameterForm → Except BindError (Outline × List Parameter)
  | [] => .ok (o, [])
  | p :: rest =>
    match o.bindParameter ctx p with
    | .error e => .error e
    | .ok (o, bound) => (bindParameters o ctx rest).map fun (o, ps) => (o, bound :: ps)

/-- What a method returns, with the type resolved: type, annotation and way of returning. -/
def bindReturn (o : Outline) (ctx : Context) (r : Option ReturnForm) :
    Except BindError (Outline × Option Ty × Bool × Option String) :=
  match r with
  | none => .ok (o, none, false, none)
  | some r =>
    (o.bindType ctx r.type).map fun (o, t) => (o, some t, isAnnotated r.type t, r.byRef)

/-! ### Members -/

/-- The members of a definition may be extension methods: it is static, not generic and directly
in a namespace. -/
def mayExtend (table : SymbolTable) (id : TypeId) : Bool :=
  (table.definition id).traits.isStatic && !(table.definitionType id).isGeneric &&
    table.isTopLevel id

/-- The first parameter is the receiver of an extension method. -/
def hasThis (parameters : List Parameter) : Bool :=
  (parameters.head?.map (·.isThis)).getD false

/-- The accessibility of a method: the one it states, else that of a member of its type, or
private for an explicit implementation. -/
def methodAccess (table : SymbolTable) (container : TypeId) (m : MethodForm) : Accessibility :=
  m.modifiers.access.getD
    (if m.isExplicit then .privateAccess else memberAccess (table.definition container).kind)

/-- A method with nothing of its signature resolved. -/
def bareMethod (table : SymbolTable) (container : TypeId) (m : MethodForm) : Method :=
  { name := m.name
    container := some (table.definitionType container)
    access := methodAccess table container m
    kind := m.kind
    isStatic := m.modifiers.isStatic
    typeParameters := TypeParameter.listed (.ofMethod table.nextMethod)
      (m.typeParameters.map fun p => { name := p.name, variance := p.variance }) }

/-- Parameters as a method has them: they belong to it, each at its position. -/
def attached (id : MethodId) (parameters : List Parameter) : List Parameter :=
  parameters.mapIdx fun i p => { p with owner := some id, ordinal := i }

/-- Makes the method of a type that a form declares. -/
def bindMethod (o : Outline) (ctx : Context) (container : TypeId) (m : MethodForm) :
    Except BindError Outline :=
  let id := o.table.nextMethod
  let o := { o with table := o.table.addMethod (bareMethod o.table container m) }
  let ctx := { ctx with method := some id }
  match o.bindClauses ctx (o.table.methodTypeParameters id) m.constraints with
  | .error e => .error e
  | .ok o =>
    match o.bindReturn ctx m.returns with
    | .error e => .error e
    | .ok (o, returnType, returnIsNullable, returnsByRef) =>
      match o.bindParameters ctx m.parameters with
      | .error e => .error e
      | .ok (o, parameters) =>
        let parameters := attached id parameters
        let isExtension := m.kind = .ordinary && m.modifiers.isStatic && hasThis parameters &&
          mayExtend o.table container
        let table := o.table.updateMethod id fun method =>
          { method with returnType, returnIsNullable, returnsByRef, parameters, isExtension }
        .ok { o with table := table.addMember container (.method id) }

/-- The outline with one more field, property or event listed by its type. -/
def addValue (o : Outline) (container : TypeId) (v : ValueMember) : Outline :=
  let id := o.table.nextValue
  { o with table := (o.table.addValue v).addMember container (.value id) }

/-- Makes the fields, properties or events of a type that a form declares. -/
def bindValues (o : Outline) (ctx : Context) (container : TypeId) (v : ValueForm) :
    Except BindError Outline :=
  (o.bindType ctx v.type).map fun (o, t) =>
    v.names.foldl
      (fun o name =>
        o.addValue container
          { kind := v.kind
            name
            container := some (o.table.definitionType container)
            type := some t
            access := v.access.getD (memberAccess (o.table.definition container).kind)
            isStatic := v.isStatic })
      o

/-- Makes the members of a type that some forms declare, in order. -/
def bindMembers (o : Outline) (ctx : Context) (container : TypeId) :
    List MemberForm → Except BindError Outline
  | [] => .ok o
  | form :: rest =>
    let bound :=
      match form with
      | .method m => o.bindMethod ctx container m
      | .values v => o.bindValues ctx container v
    match bound with
    | .error e => .error e
    | .ok o => bindMembers o ctx container rest

/-! ### Parts of types -/

/-- The method of a delegate. -/
def invokeForm (part : DeclaredPart) : MethodForm :=
  { kind := .ordinary
    name := "Invoke"
    modifiers := { access := some .publicAccess }
    returns := some part.form.returns
    parameters := part.form.parameters }

/-- The constructor that the parameter list of a type declares. -/
def primaryConstructorForm (part : DeclaredPart) : MethodForm :=
  { kind := .constructor
    name := ".ctor"
    modifiers := { access := some .publicAccess }
    parameters := part.form.parameters }

/-- The fields of an enum. -/
def bindEnumMembers (o : Outline) (part : DeclaredPart) : Outline :=
  part.form.enumMembers.foldl
    (fun o name =>
      o.addValue part.type
        { kind := .field
          name
          container := some (o.table.definitionType part.type)
          type := some (o.table.definitionType part.type)
          access := .publicAccess
          isStatic := true })
    o

/-- The properties that the parameters of a record declare. -/
def addRecordProperties (o : Outline) (part : DeclaredPart) (parameters : List Parameter) :
    Outline :=
  parameters.foldl
    (fun o p =>
      o.addValue part.type
        { kind := .property
          name := p.name
          container := some (o.table.definitionType part.type)
          type := some p.type
          access := .publicAccess })
    o

/-- The constructor of a parameter list, and the properties of a record. -/
def bindPrimaryConstructor (o : Outline) (ctx : Context) (part : DeclaredPart) :
    Except BindError Outline :=
  if part.form.hasParameterList then
    let id := o.table.nextMethod
    (o.bindMethod ctx part.type (primaryConstructorForm part)).map fun o =>
      if part.form.isRecord then o.addRecordProperties part (o.table.method id).parameters else o
  else .ok o

/-- Makes the members that one part of a type declares. What the first part is decides how all
of them are read. -/
def bindPart (o : Outline) (part : DeclaredPart) : Except BindError Outline :=
  let ctx : Context := { scopes := part.scopes, enclosing := part.type :: part.enclosing }
  match o.bindClauses ctx (o.table.typeParametersOf part.type) part.form.constraints with
  | .error e => .error e
  | .ok o =>
    match (o.table.definition part.type).kind with
    | .delegateType => o.bindMethod ctx part.type (invokeForm part)
    | .enumType => .ok (o.bindEnumMembers part)
    | _ =>
      match o.bindPrimaryConstructor ctx part with
      | .error e => .error e
      | .ok o => o.bindMembers ctx part.type part.form.members

/-! ### Whole types -/

/-- The methods among the members of a definition. -/
def methodsOf (table : SymbolTable) (id : TypeId) : List Method :=
  (table.members id).filterMap fun
    | .method m => some (table.method m)
    | _ => none

/-- The accessibility of the constructor that a type has without declaring it, if it has one: a
struct unless it declares one without parameters, and a class that is not static unless it
declares any. -/
def implicitConstructor? (table : SymbolTable) (id : TypeId) : Option Accessibility :=
  let d := table.definition id
  let constructors := (methodsOf table id).filter (·.kind = .constructor)
  match d.kind with
  | .structType => if constructors.any (·.parameters.isEmpty) then none else some .publicAccess
  | .classType =>
    if d.traits.isStatic || !constructors.isEmpty then none
    else some (if d.traits.isAbstract then .protectedAccess else .publicAccess)
  | _ => none

/-- Adds the constructor that a type has without declaring it. -/
def addImplicit (o : Outline) (id : TypeId) : Outline :=
  match implicitConstructor? o.table id with
  | none => o
  | some access =>
    let method : Method :=
      { name := ".ctor"
        container := some (o.table.definitionType id)
        access
        kind := .constructor
        isImplicit := true }
    let place := o.table.nextMethod
    { o with table := (o.table.addMethod method).addMember id (.method place) }

/-- Whether to look for extension methods in a type: its members may be, and some method has a
receiver. -/
def mightHoldExtensions (table : SymbolTable) (id : TypeId) : Bool :=
  mayExtend table id && (methodsOf table id).any fun m => hasThis m.parameters

/-- Completes a type whose parts are all bound. -/
def finish (o : Outline) (id : TypeId) : Outline :=
  let o := o.addImplicit id
  let might := mightHoldExtensions o.table id
  { o with
    table := o.table.updateDefinition id fun d =>
      { d with traits := { d.traits with mightHoldExtensions := might } } }

end Outline

end ExtensionCensus.Binding
