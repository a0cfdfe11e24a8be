import ExtensionCensus.Symbol.Table

/-!
# Instances of declared types

* `SymbolTable.construct` — a declared type over given arguments, in a given containing type or
  in that of the type it is made from.
* `unboundType`, `functionPointerType` — the two kinds of type that a text names.
-/

namespace ExtensionCensus

/-- Why a type has no instance over some arguments. -/
inductive ConstructError where
  | argumentCount (name : String) (expected actual : Nat)
  | unbound (name : String)
  | notGeneric
  deriving DecidableEq, Repr

/-- The wording of a refusal. -/
def ConstructError.message : ConstructError → String
  | .argumentCount name expected actual =>
    name ++ " takes " ++ toString expected ++ " type argument(s), got " ++ toString actual
  | .unbound name => "Cannot construct unbound type " ++ name
  | .notGeneric => "Only a named type can be constructed"

namespace SymbolTable

/-- The instance over `args` of the declared type that `t` is an instance of. It lies in `outer`,
or where `t` lies if no containing type is given. -/
def construct (table : SymbolTable) (t : Ty) (args : List Ty) (outer : Option Ty) :
    Except ConstructError Ty :=
  match t with
  | .named (.declared id) inherited _ =>
    if args.length = table.arity id then
      .ok (.named (.declared id) (outer <|> inherited) args)
    else
      .error (.argumentCount (table.definition id).metadataName (table.arity id) args.length)
  | .named (.unbound name) _ _ => .error (.unbound name)
  | _ => .error .notGeneric

end SymbolTable

/-- A name that no declaration was found for, with its arguments, inside another type if the name
was written after one. -/
def unboundType (name : String) (args : List Ty) (outer : Option Ty) : Ty :=
  .named (.unbound name) outer args

/-- A function pointer type: its signature with the white space collapsed. -/
def functionPointerType (signature : String) : Ty :=
  .functionPointer (Text.collapse signature)

end ExtensionCensus
