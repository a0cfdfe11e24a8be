import ExtensionCensus.Source.TypeForm
import ExtensionCensus.Symbol.Kind

/-!
# Written declarations

What a source declares, before any name in it is resolved: using directives, namespaces, types
and members, each reduced to what the language lets it say.

* `Modifiers` — the modifiers that matter: accessibility, `static`, `abstract`, `const`.
* `ParameterForm`, `ReturnForm`, `ConstraintClause` — the parts of a signature.
* `MethodForm`, `ValueForm`, `MemberForm` — the members of a type.
* `TypeDeclaration` — one part of a type with everything in its body.
* `UsingForm`, `Item` — what may stand in a namespace or at the top of a file.
-/

namespace ExtensionCensus.Source

/-- The modifiers of a declaration. -/
structure Modifiers where
  access : Option Accessibility := none
  isStatic : Bool := false
  isAbstract : Bool := false
  isConst : Bool := false
  deriving Inhabited

/-- A type parameter as written. -/
structure TypeParameterForm where
  name : String
  variance : Option String

/-- A constraint as written: a keyword or a type. -/
inductive ConstraintForm where
  | keyword (word : String)
  | type (t : TypeForm)

/-- The constraints that a `where` clause puts on the type parameter it names. -/
structure ConstraintClause where
  target : String
  constraints : List ConstraintForm

/-- A parameter as written. -/
structure ParameterForm where
  name : String
  type : Option TypeForm
  refKind : RefKind
  isThis : Bool
  isParams : Bool
  defaultValue : Option String

/-- A return type as written; without a type it is `void`. -/
structure ReturnForm where
  byRef : Option String
  type : Option TypeForm

/-- A method, constructor, operator or destructor as written. -/
structure MethodForm where
  kind : MethodKind
  name : String
  modifiers : Modifiers := {}
  isExplicit : Bool := false
  typeParameters : List TypeParameterForm := []
  constraints : List ConstraintClause := []
  returns : Option ReturnForm := none
  parameters : List ParameterForm := []

/-- Fields, properties or events of one type as written. -/
structure ValueForm where
  kind : ValueKind
  names : List String
  type : Option TypeForm
  access : Option Accessibility
  isStatic : Bool

/-- A member of a type as written. -/
inductive MemberForm where
  | method (m : MethodForm)
  | values (v : ValueForm)

/-- One part of a type as written. Since parts of different kinds may share a name, a part tells
what it declares under each reading: as a delegate, as an enum and as a type with a body. -/
structure TypeDeclaration where
  name : String
  kind : DefinitionKind
  isRecord : Bool
  modifiers : Modifiers
  typeParameters : List TypeParameterForm
  constraints : List ConstraintClause
  returns : ReturnForm
  hasParameterList : Bool
  parameters : List ParameterForm
  enumMembers : List String
  members : List MemberForm
  nested : List TypeDeclaration

/-- What a using directive brings in: the types of a namespace, or a name for a type or a
namespace; `written` is the target as the source spells it. -/
inductive UsingForm where
  | space (isGlobal : Bool) (name : String)
  | named (isGlobal : Bool) (name : String) (target : TypeForm) (written : String)

/-- What stands in a namespace or at the top of a file. What follows a file-scoped namespace
belongs to it; a group is a list that stands under one. -/
inductive Item where
  | using (form : UsingForm)
  | block (name : String) (items : List Item)
  | fileScoped (name : String) (items : List Item)
  | group (items : List Item)
  | type (declaration : TypeDeclaration)

end ExtensionCensus.Source
