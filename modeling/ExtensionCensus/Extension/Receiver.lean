import ExtensionCensus.Symbol.Display

/-!
# Receivers that use type parameters

Whether the type of a receiver mentions a type parameter of its method. The walk goes through type
arguments, array elements and pointer targets from left to right, stops at the first mention, and
refuses types that have no such parts and are no named type either.

* `SymbolTable.mentionsOwn` — the walk.
* `Ty.leaves` — the types that the walk ends in, from left to right.
* `Ty.occurs` — whether a type parameter occurs anywhere in a type, containing types included.
* `ReceiverError` — a type that the walk has no rule for.
-/

namespace ExtensionCensus

/-- A type that the walk has no rule for, met in the signature of a method. -/
structure ReceiverError where
  kind : TypeKind
  type : String
  method : String
  deriving DecidableEq, Repr

/-- The wording of a refusal. -/
def ReceiverError.message (e : ReceiverError) : String :=
  "Unhandled type kind " ++ e.kind.text ++ " (" ++ e.type ++ ") in " ++ e.method

/-! ### The walk -/

mutual

/-- Whether a type mentions one of some type parameters, or the first type met that the walk has
no rule for. -/
def Ty.mentions (own : List TypeParameterRef) : Ty → Except Ty Bool
  | .named _ _ args => Ty.anyMentions own args
  | .parameter p => .ok (own.contains p)
  | .array element _ => element.mentions own
  | .pointer target => target.mentions own
  | .dynamic => .error .dynamic
  | .functionPointer signature => .error (.functionPointer signature)

/-- Whether one of some types mentions one of some type parameters; the types behind the first
mention are not looked at. -/
def Ty.anyMentions (own : List TypeParameterRef) : List Ty → Except Ty Bool
  | [] => .ok false
  | t :: ts =>
    match t.mentions own with
    | .error e => .error e
    | .ok true => .ok true
    | .ok false => Ty.anyMentions own ts

end

/-- Whether a type mentions a type parameter that the method declares. -/
def SymbolTable.mentionsOwn (table : SymbolTable) (id : MethodId) (t : Ty) :
    Except ReceiverError Bool :=
  (t.mentions (table.methodTypeParameters id)).mapError fun refused =>
    { kind := table.kind refused
      type := table.display refused
      method := table.displayMethod (table.method id) }

/-! ### Other views of a type -/

mutual

/-- The types that a type ends in, from left to right: a named type those of its arguments, an
array or a pointer those of what it holds, and any other type itself. -/
def Ty.leaves : Ty → List Ty
  | .named _ _ args => Ty.leavesOfList args
  | .array element _ => element.leaves
  | .pointer target => target.leaves
  | .parameter p => [.parameter p]
  | .dynamic => [.dynamic]
  | .functionPointer signature => [.functionPointer signature]

/-- The types that some types end in, in order. -/
def Ty.leavesOfList : List Ty → List Ty
  | [] => []
  | t :: ts => t.leaves ++ Ty.leavesOfList ts

end

mutual

/-- The type parameter occurs in the type or in a type that contains it. -/
def Ty.occurs (p : TypeParameterRef) : Ty → Bool
  | .named _ outer args => Ty.occursOuter p outer || Ty.occursList p args
  | .parameter q => p = q
  | .array element _ => element.occurs p
  | .pointer target => target.occurs p
  | .dynamic => false
  | .functionPointer _ => false

/-- The type parameter occurs in a containing type. -/
def Ty.occursOuter (p : TypeParameterRef) : Option Ty → Bool
  | none => false
  | some t => t.occurs p

/-- The type parameter occurs in one of some types. -/
def Ty.occursList (p : TypeParameterRef) : List Ty → Bool
  | [] => false
  | t :: ts => t.occurs p || Ty.occursList p ts

end

end ExtensionCensus
