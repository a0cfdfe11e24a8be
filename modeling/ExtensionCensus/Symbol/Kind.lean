/-!
# Kinds of symbols

The closed vocabularies of the symbol model, each with the words that reports and messages use.

* `Accessibility` — who may refer to a symbol.
* `RefKind` — how an argument is passed.
* `DefinitionKind`, `TypeKind` — what a declared type is, and what any type is.
* `MethodKind`, `ValueKind` — what a member is.
-/

namespace ExtensionCensus

/-- Who may refer to a symbol. -/
inductive Accessibility where
  | notApplicable
  | privateAccess
  | protectedAndInternal
  | protectedAccess
  | internalAccess
  | protectedOrInternal
  | publicAccess
  deriving DecidableEq, Repr, Inhabited

/-- The word for an accessibility. -/
def Accessibility.text : Accessibility → String
  | .notApplicable => "NotApplicable"
  | .privateAccess => "Private"
  | .protectedAndInternal => "ProtectedAndInternal"
  | .protectedAccess => "Protected"
  | .internalAccess => "Internal"
  | .protectedOrInternal => "ProtectedOrInternal"
  | .publicAccess => "Public"

/-- How the argument of a parameter is passed. -/
inductive RefKind where
  | byValue
  | byRef
  | byOut
  | byIn
  | byRefReadonly
  deriving DecidableEq, Repr, Inhabited

/-- The word for a way of passing. -/
def RefKind.text : RefKind → String
  | .byValue => "None"
  | .byRef => "Ref"
  | .byOut => "Out"
  | .byIn => "In"
  | .byRefReadonly => "RefReadOnlyParameter"

/-- The keywords that a signature shows for a way of passing. -/
def RefKind.keyword? : RefKind → Option String
  | .byValue => none
  | .byRef => some "ref"
  | .byOut => some "out"
  | .byIn => some "in"
  | .byRefReadonly => some "ref readonly"

/-- What a declared type is. -/
inductive DefinitionKind where
  | classType
  | structType
  | interfaceType
  | enumType
  | delegateType
  deriving DecidableEq, Repr, Inhabited

/-- What a type is. -/
inductive TypeKind where
  | declared (kind : DefinitionKind)
  | error
  | typeParameter
  | array
  | pointer
  | dynamic
  | functionPointer
  deriving DecidableEq, Repr, Inhabited

/-- The word for a kind of type. -/
def TypeKind.text : TypeKind → String
  | .declared .classType => "Class"
  | .declared .structType => "Struct"
  | .declared .interfaceType => "Interface"
  | .declared .enumType => "Enum"
  | .declared .delegateType => "Delegate"
  | .error => "Error"
  | .typeParameter => "TypeParameter"
  | .array => "Array"
  | .pointer => "Pointer"
  | .dynamic => "Dynamic"
  | .functionPointer => "FunctionPointer"

/-- The declared kinds whose values are copied on assignment. -/
def DefinitionKind.isValue : DefinitionKind → Bool
  | .structType | .enumType => true
  | _ => false

/-- What a method is. -/
inductive MethodKind where
  | ordinary
  | constructor
  | staticConstructor
  | destructor
  | operator
  | conversion
  deriving DecidableEq, Repr, Inhabited

/-- The word for a kind of method. -/
def MethodKind.text : MethodKind → String
  | .ordinary => "Ordinary"
  | .constructor => "Constructor"
  | .staticConstructor => "StaticConstructor"
  | .destructor => "Destructor"
  | .operator => "UserDefinedOperator"
  | .conversion => "Conversion"

/-- What a member that holds a value is. -/
inductive ValueKind where
  | field
  | property
  | event
  deriving DecidableEq, Repr, Inhabited

end ExtensionCensus
