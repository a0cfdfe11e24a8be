import ExtensionCensus.Symbol.Table

/-!
# Display texts

How types and members are shown in reports and messages.

* `SymbolTable.display` — a type.
* `SymbolTable.constraintClause` — the `where` clause of a type parameter.
* `SymbolTable.displayParameter`, `SymbolTable.displayMethod`, `SymbolTable.displayValue` —
  the signature of a member.
-/

namespace ExtensionCensus.SymbolTable

variable (table : SymbolTable)

/-! ### Types -/

/-- Type arguments in angle brackets; nothing if there are none. -/
def angled (args : List String) : String :=
  if args.isEmpty then "" else "<" ++ ", ".intercalate args ++ ">"

/-- An instance of a declared type, given how its containing type and its arguments are shown.
Nullable types and tuples have forms of their own. -/
def displayDeclared (d : TypeDefinition) (outer : Option String) (args : List String) : String :=
  match d.keyword with
  | some word => word
  | none =>
    match d.metadataName, args with
    | "System.Nullable", underlying :: _ => underlying ++ "?"
    | "System.ValueTuple", _ :: _ :: _ => "(" ++ ", ".intercalate args ++ ")"
    | _, _ =>
      let qualifier :=
        match outer, d.container with
        | some shown, _ => shown ++ "."
        | none, .namespace path => if path.isEmpty then "" else Namespace.qualifiedName path ++ "."
        | none, _ => ""
      qualifier ++ d.name ++ angled args

mutual

/-- A type as it is shown. -/
def display : Ty → String
  | .named (.declared id) outer args =>
    displayDeclared (table.definition id) (displayOuter outer) (displayList args)
  | .named (.unbound name) outer args =>
    (match displayOuter outer with
      | some shown => shown ++ "." ++ name
      | none => name) ++ angled (displayList args)
  | .parameter p => (table.typeParameter p).name
  | .array element rank => display element ++ "[" ++ String.ofList (List.replicate (rank - 1) ',') ++ "]"
  | .pointer target => display target ++ "*"
  | .dynamic => "dynamic"
  | .functionPointer signature => signature

/-- A containing type as it is shown. -/
def displayOuter : Option Ty → Option String
  | none => none
  | some t => some (display t)

/-- Type arguments as they are shown. -/
def displayList : List Ty → List String
  | [] => []
  | t :: ts => display t :: displayList ts

end

/-- A text with a question mark at its end, which is not written twice. -/
def withQuestionMark (text : String) : String :=
  if Text.endsIn text "?" then text else text ++ "?"

/-- A type with the mark of a nullable annotation if it carries one. -/
def displayAnnotated (t : Ty) (isNullable : Bool) : String :=
  if isNullable then withQuestionMark (table.display t) else table.display t

/-- A constraint as it is shown. -/
def displayConstraint : Constraint → String
  | .keyword word => word
  | .type t => table.display t

/-- The clause that lists the constraints of a type parameter; empty if it has none. -/
def constraintClause (p : TypeParameter) : String :=
  if p.constraints.isEmpty then ""
  else "where " ++ p.name ++ " : " ++ ", ".intercalate (p.constraints.map table.displayConstraint)

/-! ### Members -/

/-- The type of a parameter as it is shown. -/
def displayParameterType (p : Parameter) : String :=
  table.displayAnnotated p.type p.isNullable

/-- A parameter as it is shown: its keywords, type and name, in brackets with its default value
if it has one. -/
def displayParameter (p : Parameter) : String :=
  let words :=
    (if p.isThis then ["this"] else []) ++ (if p.isParams then ["params"] else []) ++
      p.refKind.keyword?.toList ++ [table.displayParameterType p] ++
      (if p.name = "" then [] else [p.name])
  let text := " ".intercalate words
  match p.defaultValue with
  | some value => "[" ++ text ++ " = " ++ value ++ "]"
  | none => text

/-- What a method returns, as it is shown. -/
def displayReturn (m : Method) : String :=
  let returned :=
    match m.returnType with
    | some t => table.display t
    | none => "void"
  let annotated := if m.returnIsNullable then withQuestionMark returned else returned
  match m.returnsByRef with
  | some word => if word = "" then annotated else word ++ " " ++ annotated
  | none => annotated

/-- The name of the type that contains a method. -/
def containerName? (m : Method) : Option String :=
  match m.container with
  | some (.named (.declared id) _ _) => some (table.definition id).name
  | some (.named (.unbound name) _ _) => some name
  | _ => none

/-- A method as it is shown. A constructor has the name of its type and returns nothing. -/
def displayMethod (m : Method) : String :=
  let parameters := ", ".intercalate (m.parameters.map table.displayParameter)
  match m.kind with
  | .constructor | .staticConstructor =>
    (table.containerName? m).getD m.name ++ "(" ++ parameters ++ ")"
  | _ =>
    let clauses := (m.typeParameters.map table.constraintClause).filter (· ≠ "")
    table.displayReturn m ++ " " ++ m.name ++ angled (m.typeParameters.map (·.name)) ++ "(" ++
      parameters ++ ")" ++ (if clauses.isEmpty then "" else " " ++ " ".intercalate clauses)

/-- A field, property or event as it is shown. -/
def displayValue (v : ValueMember) : String :=
  (match v.type with
    | some t => table.display t
    | none => "?") ++ " " ++ v.name

end ExtensionCensus.SymbolTable
