import ExtensionCensus.Binding.Outline

/-!
# Resolving written types

What a written type denotes at a place. A name is looked for among type parameters, nested types,
and then scope by scope among the types of the namespace, the names given there and the imported
namespaces; what is not found becomes an unbound type that keeps its spelling.

* `Context` — the place: the scopes, types and method around it.
* `Outline.lookupSimple`, `Outline.lookupQualified` — the two kinds of names.
* `Outline.resolveWith` — the type that a form denotes, given what names of using directives
  denote.
* `Outline.resolveAlias` — what such a name denotes. Its target is resolved with no such names in
  effect, so resolution goes through at most one of them.
* `Outline.resolve` — the type that a form denotes at a place.
-/

namespace ExtensionCensus.Binding

open Source (TypeForm NamePart)

/-- Why a written type has no meaning at all. -/
inductive BindError where
  | missingOperand
  | construct (cause : ConstructError)
  deriving DecidableEq, Repr

/-- The wording of an error. -/
def BindError.message : BindError → String
  | .missingOperand => "list index out of range"
  | .construct cause => cause.message

/-- The place where a written type stands. -/
structure Context where
  scopes : ScopeChain
  enclosing : List TypeId := []
  method : Option MethodId := none

/-- A part of a dotted name with its arguments resolved. -/
abbrev BoundPart := String × List Ty

/-- What the names given by using directives denote. -/
abbrev AliasMeaning := Alias → Except BindError (Option Ty)

namespace Outline

variable (o : Outline)

/-! ### Names in one place -/

/-- The type of a key in the namespace of a dotted name; what the compilation declares hides the
library. -/
def typeIn? (spaceName : String) (key : TypeKey) : Option TypeId :=
  (o.root.lookupType? spaceName key).or (Library.lookupType? spaceName key)

/-- The compilation or the library has a namespace of that dotted name. -/
def hasNamespace (spaceName : String) : Bool :=
  (o.root.lookup? [] spaceName).isSome || (Library.root.lookup? [] spaceName).isSome

/-- The namespaces imported in a scope; a whole file also has the global and implicit ones. -/
def usingsOf (id : ScopeId) (isFile : Bool) : List String :=
  if isFile then
    (o.scope id).usings ++ o.globalUsings ++
      (if o.implicitUsings then Library.implicitUsings else [])
  else (o.scope id).usings

/-- What a using directive of a scope gives the name to; a whole file also has the global ones. -/
def alias? (id : ScopeId) (isFile : Bool) (name : String) : Option Alias :=
  if isFile then ((o.scope id).aliases.lookup name).or (o.globalAliases.lookup name)
  else (o.scope id).aliases.lookup name

/-- The type parameter of a name among some. -/
def parameterNamed? (ps : List TypeParameterRef) (name : String) : Option TypeParameterRef :=
  ps.find? fun p => (o.table.typeParameter p).name = name

/-- The type parameters that can be named at a place: those of the method, then those of the
types around it. -/
def visibleParameters (ctx : Context) : List TypeParameterRef :=
  (match ctx.method with
    | some m => o.table.methodTypeParameters m
    | none => []) ++ ctx.enclosing.flatMap o.table.typeParametersOf

/-! ### Simple names -/

/-- Looks for a name scope by scope, from the inside out. -/
def lookupInScopes (meaning : AliasMeaning) (name : String) (arity : Nat) :
    ScopeChain → Except BindError (Option Ty)
  | [] => .ok none
  | id :: outer =>
    match o.typeIn? (o.scope id).spaceName ⟨name, arity⟩ with
    | some t => .ok (some (o.table.definitionType t))
    | none =>
      let isFile := outer.isEmpty
      let named : Except BindError (Option Ty) :=
        match (if arity = 0 then o.alias? id isFile name else none) with
        | some target => meaning target
        | none => .ok none
      match named with
      | .error e => .error e
      | .ok (some t) => .ok (some t)
      | .ok none =>
        match (o.usingsOf id isFile).findSome? (o.typeIn? · ⟨name, arity⟩) with
        | some t => .ok (some (o.table.definitionType t))
        | none => lookupInScopes meaning name arity outer

/-- The native integer types, which have their names everywhere but yield to every declaration. -/
def nativeInteger? (name : String) : Option Ty :=
  if name = "nint" || name = "nuint" then Library.specialType? name else none

/-- What a name with a number of arguments denotes at a place. -/
def lookupSimple (meaning : AliasMeaning) (ctx : Context) (name : String) (arity : Nat) :
    Except BindError (Option Ty) :=
  match (if arity = 0 then o.parameterNamed? (o.visibleParameters ctx) name else none) with
  | some p => .ok (some (.parameter p))
  | none =>
    match ctx.enclosing.findSome? (o.table.nestedType? · ⟨name, arity⟩) with
    | some t => .ok (some (o.table.definitionType t))
    | none =>
      match o.lookupInScopes meaning name arity ctx.scopes with
      | .error e => .error e
      | .ok (some t) => .ok (some t)
      | .ok none => .ok (if arity = 0 then nativeInteger? name else none)

/-! ### Qualified names -/

/-- An instance of a declared type over the arguments that are written, if any are. -/
def apply (t : Ty) (args : List Ty) : Except BindError Ty :=
  if args.isEmpty then .ok t else (o.table.construct t args none).mapError .construct

/-- Goes down from a type to the nested types that the parts name. -/
def descend (current : Ty) : List BoundPart → Except BindError (Option Ty)
  | [] => .ok (some current)
  | (name, args) :: rest =>
    match current.declaration?.bind (o.table.nestedType? · ⟨name, args.length⟩) with
    | none => .ok none
    | some id =>
      match o.table.construct (o.table.definitionType id) args (some current) with
      | .error e => .error (.construct e)
      | .ok t => descend t rest

/-- The ways to read parts as a namespace, a type in it and types nested in that, the longest
namespace first. -/
def splits (parts : List BoundPart) : List (List BoundPart × BoundPart × List BoundPart) :=
  (List.range parts.length).reverse.filterMap fun i =>
    parts[i]?.map fun head => (parts.take i, head, parts.drop (i + 1))

/-- The first answer that is found among some candidates. -/
def firstFound {α : Type} (f : α → Except BindError (Option Ty)) :
    List α → Except BindError (Option Ty)
  | [] => .ok none
  | a :: rest =>
    match f a with
    | .ok none => firstFound f rest
    | answer => answer

/-- Reads parts below the namespace `top` in one of the ways. If `rooted`, the namespace must
exist. -/
def lookupSplit (rooted : Bool) (top : String) :
    List BoundPart × BoundPart × List BoundPart → Except BindError (Option Ty)
  | (front, (name, args), rest) =>
    if front.any fun p => !p.2.isEmpty then .ok none
    else
      let spaceName := ".".intercalate ((if top = "" then [] else [top]) ++ front.map (·.1))
      if rooted && !o.hasNamespace spaceName then .ok none
      else
        match o.typeIn? spaceName ⟨name, args.length⟩ with
        | none => .ok none
        | some id =>
          match o.apply (o.table.definitionType id) args with
          | .error e => .error e
          | .ok head => o.descend head rest

/-- Reads parts below the first of some namespaces that has what they name. -/
def lookupPath (rooted : Bool) (tops : List String) (parts : List BoundPart) :
    Except BindError (Option Ty) :=
  firstFound (fun top => firstFound (o.lookupSplit rooted top) (splits parts)) tops

/-- The namespaces that the first part of a qualified name may denote at a place. -/
def namespacesNamed (name : String) : ScopeChain → List String
  | [] => []
  | id :: outer =>
    let spaceName := (o.scope id).spaceName
    (if spaceName = "" then name else spaceName ++ "." ++ name) ::
      ((o.alias? id outer.isEmpty name).map (·.written)).toList ++ namespacesNamed name outer

/-- What a qualified name denotes at a place: a type nested in the one that its first part names,
or a type in a namespace that its first part names. -/
def lookupQualified (meaning : AliasMeaning) (ctx : Context) (first : BoundPart)
    (rest : List BoundPart) : Except BindError (Option Ty) :=
  let (name, args) := first
  if Text.endsIn name "::" then
    if name = "global::" then o.lookupPath false [""] rest else .ok none
  else
    match o.lookupSimple meaning { ctx with method := none } name args.length with
    | .error e => .error e
    | .ok found =>
      match found.filter (·.declaration?.isSome) with
      | some head =>
        match o.apply head args with
        | .error e => .error e
        | .ok head => o.descend head rest
      | none =>
        if args.isEmpty then o.lookupPath true (o.namespacesNamed name ctx.scopes) rest
        else .ok none

/-! ### Unbound names -/

/-- Dotted names as written; no dot follows the colons of an alias. -/
def writtenName (names : List String) : String :=
  Text.replaceAll (".".intercalate names) "::." "::"

/-- The unbound type of some parts, with the names since the last part that had arguments. -/
def unboundFrom (outer : Option Ty) (pending : List String) : List BoundPart → Ty
  | [] =>
    match pending, outer with
    | [], some t => t
    | _, _ => unboundType (writtenName pending) [] outer
  | (name, args) :: rest =>
    if args.isEmpty then unboundFrom outer (pending ++ [name]) rest
    else
      unboundFrom (some (unboundType (writtenName (pending ++ [name])) args outer)) [] rest

/-- The unbound type that keeps the spelling of a dotted name: every part with arguments ends a
type, which the next one is nested in. -/
def unboundName (parts : List BoundPart) : Ty :=
  unboundFrom none [] parts

/-! ### Types -/

/-- What a dotted name denotes once its arguments are resolved. -/
def bindName (meaning : AliasMeaning) (ctx : Context) (parts : List BoundPart) :
    Except BindError Ty :=
  let found : Except BindError (Option Ty) :=
    match parts with
    | [] => .ok none
    | [(name, args)] =>
      match o.lookupSimple meaning ctx name args.length with
      | .ok (some t) =>
        if t.declaration?.isSome then (o.apply t args).map some else .ok (some t)
      | other => other
    | first :: rest => o.lookupQualified meaning ctx first rest
  match found with
  | .error e => .error e
  | .ok (some t) => .ok t
  | .ok none =>
    match parts with
    | [("dynamic", [])] => .ok .dynamic
    | _ => .ok (unboundName parts)

/-- The type that a keyword names. -/
def keywordType (word : String) : Ty :=
  if word = "dynamic" then .dynamic
  else (Library.specialType? word).getD (unboundType word [] none)

/-- The type with a question mark behind it: wrapped if it is a value type and not wrapped yet,
else itself. -/
def nullableOf (t : Ty) : Except BindError Ty :=
  if o.table.isValueType t && !Library.isNullable t then
    match Library.nullable? with
    | some id => (o.table.construct (o.table.definitionType id) [t] none).mapError .construct
    | none => .ok t
  else .ok t

/-- The tuple over some elements. There are tuples of one to seven; others stay unbound. -/
def tupleOf (elements : List Ty) (written : String) : Except BindError Ty :=
  match Library.valueTuple? elements.length with
  | some id =>
    if elements.length > 7 then .ok (unboundType written [] none)
    else (o.table.construct (o.table.definitionType id) elements none).mapError .construct
  | none => .ok (unboundType written [] none)

mutual

/-- The type that a form denotes at a place, given what names of using directives denote. -/
def resolveWith (meaning : AliasMeaning) (ctx : Context) : TypeForm → Except BindError Ty
  | .missing => .error .missingOperand
  | .predefined word => .ok (keywordType word)
  | .name parts =>
    match resolveParts meaning ctx parts with
    | .error e => .error e
    | .ok bound => o.bindName meaning ctx bound
  | .nullable underlying =>
    match resolveWith meaning ctx underlying with
    | .error e => .error e
    | .ok t => o.nullableOf t
  | .array element ranks =>
    match resolveWith meaning ctx element with
    | .error e => .error e
    | .ok t => .ok (ranks.foldl .array t)
  | .pointer target => (resolveWith meaning ctx target).map .pointer
  | .functionPointer signature => .ok (functionPointerType signature)
  | .tuple elements written =>
    match resolveList meaning ctx elements with
    | .error e => .error e
    | .ok ts => o.tupleOf ts written
  | .wrapped inner => resolveWith meaning ctx inner
  | .inferred => .ok (unboundType "var" [] none)
  | .other _ text => .ok (unboundType (Text.compact text) [] none)

/-- The types that forms denote, in order. -/
def resolveList (meaning : AliasMeaning) (ctx : Context) :
    List TypeForm → Except BindError (List Ty)
  | [] => .ok []
  | form :: rest =>
    match resolveWith meaning ctx form with
    | .error e => .error e
    | .ok t => (resolveList meaning ctx rest).map (t :: ·)

/-- A part of a dotted name with its arguments resolved. -/
def resolvePart (meaning : AliasMeaning) (ctx : Context) :
    NamePart → Except BindError BoundPart
  | .mk name args => (resolveList meaning ctx args).map (name, ·)

/-- The parts of a dotted name with their arguments resolved, in order. -/
def resolveParts (meaning : AliasMeaning) (ctx : Context) :
    List NamePart → Except BindError (List BoundPart)
  | [] => .ok []
  | part :: rest =>
    match resolvePart meaning ctx part with
    | .error e => .error e
    | .ok bound => (resolveParts meaning ctx rest).map (bound :: ·)

end

/-- The meaning under which no using directive gives a name to anything. -/
def noAliases : AliasMeaning := fun _ => .ok none

/-- What a name given by a using directive denotes: the type of its target, read where the
directive stands and outside every type, with no such names in effect. -/
def resolveAlias : AliasMeaning := fun target =>
  match o.resolveWith noAliases { scopes := target.scopes } target.target with
  | .error e => .error e
  | .ok t => .ok (if t.isUnbound then none else some t)

/-- The type that a form denotes at a place. -/
def resolve (ctx : Context) (form : TypeForm) : Except BindError Ty :=
  o.resolveWith o.resolveAlias ctx form

/-- The type that a form denotes at a place; where no type is written it is `void`. -/
def resolveOptional (ctx : Context) : Option TypeForm → Except BindError Ty
  | none => .ok Library.voidType
  | some form => o.resolve ctx form

end Outline

end ExtensionCensus.Binding
