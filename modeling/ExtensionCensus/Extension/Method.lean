import ExtensionCensus.Extension.Receiver

/-!
# Extension methods

* `MethodRecord` — what the report says about one extension method.
* `SymbolTable.classifyMethod` — the record of a method; a method without parameters has no
  receiver and hence no record.
-/

namespace ExtensionCensus

/-- What the report says about one extension method. -/
structure MethodRecord where
  text : String
  receiver : Parameter
  receiverText : String
  isPublic : Bool
  isGeneric : Bool
  reducedParameterCount : Nat
  usesTypeParameter : Bool
  isErrorType : Bool
  isGenericType : Bool
  isValueType : Bool
  refKind : RefKind

/-- Why a method has no record. -/
inductive ClassifyError where
  | noReceiver (method : String)
  | receiver (cause : ReceiverError)
  deriving DecidableEq, Repr

/-- The wording of a refusal. -/
def ClassifyError.message : ClassifyError → String
  | .noReceiver method => method ++ " has no receiver parameter"
  | .receiver cause => cause.message

/-- The accessibility of the type that contains a method. -/
def SymbolTable.containerAccess? (table : SymbolTable) (m : Method) : Option Accessibility :=
  m.container.map fun t => (table.traits t).access

/-- The record of a method. It is public when both the method and its type are. -/
def SymbolTable.classifyMethod (table : SymbolTable) (id : MethodId) :
    Except ClassifyError MethodRecord :=
  let m := table.method id
  match m.parameters with
  | [] => .error (.noReceiver (table.displayMethod m))
  | receiver :: rest =>
    match table.mentionsOwn id receiver.type with
    | .error e => .error (.receiver e)
    | .ok uses =>
      .ok
        { text := table.displayMethod m
          receiver
          receiverText := table.displayParameterType receiver
          isPublic := m.access = .publicAccess && table.containerAccess? m = some .publicAccess
          isGeneric := !m.typeParameters.isEmpty
          reducedParameterCount := rest.length
          usesTypeParameter := uses
          isErrorType := receiver.type.isUnbound
          isGenericType := receiver.type.isGeneric
          isValueType := table.isValueType receiver.type
          refKind := receiver.refKind }

end ExtensionCensus
