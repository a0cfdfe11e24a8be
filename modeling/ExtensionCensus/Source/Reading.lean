import ExtensionCensus.Source.Declaration
import ExtensionCensus.Text.Segment

/-!
# Reading declarations off a tree

Every reader takes the bytes of the source and a node. Several shapes of tree say the same thing,
as a keyword that stands by itself or inside a modifier node, or a child with and without the
name of its field; the readers accept all of them.

* `Modifiers.read`, `readParameters`, `readConstraints` — the parts of signatures.
* `readMember?` — a member of a type's body.
* `TypeDeclaration.read?` — a type with everything nested in it.
* `readItems` — what stands in a file or a namespace.
-/

namespace ExtensionCensus.Source

open Text (Bytes)

/-! ### Names and modifiers -/

/-- The name of a declaration: its field, or the first identifier among its children. -/
def nameNode? (n : Node) : Option Node :=
  n.fieldOrChild? "name" "identifier"

/-- The words that may stand as bare tokens among the modifiers of a type or member. -/
def modifierWords : List String :=
  ["public", "private", "protected", "internal", "static", "abstract", "sealed", "partial",
    "readonly", "unsafe", "file", "virtual", "override", "extern", "new", "async", "const",
    "volatile", "required"]

/-- The modifier words of a declaration. -/
def modifierWordsOf (source : Bytes) (n : Node) : List String :=
  n.children.flatMap fun c =>
    if c.kind = "modifier" then Text.words (c.text source)
    else if !c.isNamed && modifierWords.contains c.kind then [c.kind]
    else []

/-- The accessibility that some modifier words state; two of them together state one of their
own. -/
def accessOf (words : List String) : Option Accessibility :=
  let has (w : String) : Bool := words.contains w
  if has "private" && has "protected" then some .protectedAndInternal
  else if has "protected" && has "internal" then some .protectedOrInternal
  else if has "private" then some .privateAccess
  else if has "protected" then some .protectedAccess
  else if has "internal" then some .internalAccess
  else if has "public" then some .publicAccess
  else none

/-- The modifiers of a declaration. -/
def Modifiers.read (source : Bytes) (n : Node) : Modifiers :=
  let words := modifierWordsOf source n
  { access := accessOf words
    isStatic := words.contains "static"
    isAbstract := words.contains "abstract"
    isConst := words.contains "const" }

/-! ### Type parameters and constraints -/

/-- The type parameter nodes of a declaration. -/
def typeParameterNodes (n : Node) : List Node :=
  match n.fieldOrChild? "type_parameters" "type_parameter_list" with
  | some list => list.children.filter (·.kind = "type_parameter")
  | none => []

/-- A type parameter; the last variance that is written counts. -/
def TypeParameterForm.read (source : Bytes) (n : Node) : TypeParameterForm where
  name := Node.textOf (nameNode? n) source
  variance := n.children.foldl
    (fun found c =>
      if c.kind = "in" || c.kind = "out" then some c.kind
      else if c.kind = "variance_modifier" then some (c.text source)
      else found)
    none

/-- The type parameters of a declaration. -/
def readTypeParameters (source : Bytes) (n : Node) : List TypeParameterForm :=
  (typeParameterNodes n).map (TypeParameterForm.read source)

/-- The constraints that are words and no types. -/
def constraintWords : List String :=
  ["class", "class?", "struct", "unmanaged", "notnull", "new()", "default"]

/-- The written type inside the nodes that only wrap a constraint. -/
def readConstraintType (source : Bytes) (n : Node) : TypeForm :=
  if n.kind = "type_parameter_constraint" || n.kind = "type_constraint" then
    match _h : n.fieldOrFirst? "type" with
    | some inner => readConstraintType source inner
    | none => TypeForm.read source n
  else TypeForm.read source n
termination_by sizeOf n
decreasing_by exact Node.size_lt_of_mem (Node.mem_of_fieldOrFirst? _h)

/-- A constraint. -/
def ConstraintForm.read (source : Bytes) (n : Node) : ConstraintForm :=
  let written := compactText n source
  if constraintWords.contains written || n.kind = "constructor_constraint" then
    .keyword (if Text.startsWith written "new" then "new()" else written)
  else .type (readConstraintType source n)

/-- The place among some nodes of the first one that satisfies `p`, or of the first one that
satisfies `q` if none does. -/
def indexOfFirst? (nodes : List Node) (p q : Node → Bool) : Option Nat :=
  (nodes.findIdx? p).or (nodes.findIdx? q)

/-- A `where` clause: the parameter that it names, and every other named child as a
constraint. -/
def ConstraintClause.read (source : Bytes) (n : Node) : ConstraintClause :=
  let target := indexOfFirst? n.children (·.field = "target") (·.kind = "identifier")
  { target := Node.textOf (target.bind (n.children[·]?)) source
    constraints := (n.children.zipIdx.filter fun (c, i) => c.isNamed && target ≠ some i).map
      fun (c, _) => ConstraintForm.read source c }

/-- The `where` clauses of a declaration. -/
def readConstraints (source : Bytes) (n : Node) : List ConstraintClause :=
  (n.children.filter (·.kind = "type_parameter_constraints_clause")).map
    (ConstraintClause.read source)

/-! ### Parameters -/

/-- The words that may stand as bare tokens among the modifiers of a parameter. -/
def parameterWords : List String :=
  ["this", "ref", "out", "in", "params", "readonly", "scoped"]

/-- A parameter array that stands unwrapped in its list, made into a node of its own. Its parts
keep no field names. -/
def looseArray (parts : List Node) : Node :=
  { kind := "parameter_array"
    isNamed := true
    start := 0
    stop := 0
    field := ""
    children := parts.map fun c => { c with field := "" } }

/-- The node is a parameter. -/
def isParameter (n : Node) : Bool :=
  n.kind = "parameter" || n.kind = "parameter_array"

/-- The node is the bare token that opens an unwrapped parameter array. -/
def opensArray (n : Node) : Bool :=
  n.kind = "params" && !n.isNamed

/-- The parts of an unwrapped parameter array: what follows its opening token up to a comma, a
closing parenthesis or the next such token. -/
def looseParts : List Node → List Node
  | [] => []
  | c :: rest =>
    if isParameter c then looseParts rest
    else if opensArray c || c.kind = "," || c.kind = ")" then []
    else c :: looseParts rest

/-- The parameters among the children of a parameter list. -/
def gatherParameters : List Node → List Node
  | [] => []
  | c :: rest =>
    if isParameter c then c :: gatherParameters rest
    else if opensArray c then looseArray (c :: looseParts rest) :: gatherParameters rest
    else gatherParameters rest

/-- The parameter nodes of a declaration. -/
def parameterNodes (n : Node) : List Node :=
  match n.fieldOrChild? "parameters" "parameter_list" with
  | some list => gatherParameters list.children
  | none => []

/-- The node is a modifier of a parameter. -/
def isParameterModifier (n : Node) : Bool :=
  n.kind = "modifier" || n.kind = "parameter_modifier"

/-- The modifier words of a parameter. -/
def parameterWordsOf (source : Bytes) (n : Node) : List String :=
  n.children.flatMap fun c =>
    if isParameterModifier c then Text.words (c.text source)
    else if !c.isNamed && parameterWords.contains c.kind then [c.kind]
    else []

/-- The way of passing that some modifier words state. -/
def refKindOf (words : List String) : RefKind :=
  let has (w : String) : Bool := words.contains w
  if has "ref" && has "readonly" then .byRefReadonly
  else if has "ref" then .byRef
  else if has "out" then .byOut
  else if has "in" then .byIn
  else .byValue

/-- The default value among the children of a parameter: in a clause of its own, or the first
named child behind an equals sign. -/
def readDefault (source : Bytes) (n : Node) : Option String :=
  (n.children.foldl
    (fun (state : Bool × Option String) c =>
      let (afterEquals, value) := state
      if isParameterModifier c then state
      else if !c.isNamed && parameterWords.contains c.kind then state
      else if c.kind = "equals_value_clause" then
        (afterEquals, some (Node.textOf c.named.head? source))
      else if c.kind = "=" then (true, value)
      else if afterEquals && c.isNamed && value.isNone then (afterEquals, some (c.text source))
      else state)
    (false, none)).2

/-- The child may be the type or the name of a parameter without field names. -/
def isParameterPart (n : Node) : Bool :=
  n.isNamed && !(n.kind = "attribute_list" || isParameterModifier n ||
    n.kind = "equals_value_clause")

/-- The places of a parameter's type and name among its children. Without field names the type is
the first part and the name is the last identifier that is not the type. -/
def parameterPlaces (children : List Node) : Option Nat × Option Nat :=
  let type := (children.findIdx? (·.field = "type")).or (children.findIdx? isParameterPart)
  let identifiers := children.zipIdx.filter fun (c, i) =>
    isParameterPart c && c.kind = "identifier" && type ≠ some i
  let name := (children.findIdx? (·.field = "name")).or (identifiers.getLast?.map (·.2))
  (type, name)

/-- A parameter. -/
def ParameterForm.read (source : Bytes) (n : Node) : ParameterForm :=
  let words := parameterWordsOf source n
  let (type, name) := parameterPlaces n.children
  { name := Node.textOf (name.bind (n.children[·]?)) source
    type := (type.bind (n.children[·]?)).map (TypeForm.read source)
    refKind := refKindOf words
    isThis := words.contains "this"
    isParams := words.contains "params" || n.kind = "parameter_array"
    defaultValue := readDefault source n }

/-- The parameters of a declaration. -/
def readParameters (source : Bytes) (n : Node) : List ParameterForm :=
  (parameterNodes n).map (ParameterForm.read source)

/-! ### Members -/

/-- The return type of a declaration, with what it says about returning by reference. -/
def ReturnForm.read (source : Bytes) (n : Node) : ReturnForm :=
  match (n.field? "type").or (n.field? "returns") with
  | none => { byRef := none, type := none }
  | some t =>
    if t.kind = "ref_type" then
      { byRef := some (if t.hasChild "readonly" then "ref readonly" else "ref")
        type := some (match t.fieldOrLast? "type" with
          | some inner => TypeForm.read source inner
          | none => .missing) }
    else { byRef := none, type := some (TypeForm.read source t) }

/-- The interface that an explicit implementation names. -/
def explicitInterface? (n : Node) : Option Node :=
  n.fieldOrChild? "explicit_interface_specifier" "explicit_interface_specifier"

/-- What every kind of method says in the same way. -/
def readMethod (source : Bytes) (n : Node) (kind : MethodKind) (name : String) : MethodForm :=
  { kind
    name
    modifiers := Modifiers.read source n
    isExplicit := (explicitInterface? n).isSome
    typeParameters := readTypeParameters source n
    parameters := readParameters source n }

/-- A named method. An explicit implementation has the interface in front of its name. -/
def readOrdinary? (source : Bytes) (n : Node) : Option MethodForm :=
  (nameNode? n).map fun nameNode =>
    let name := nameNode.text source
    let qualified :=
      match explicitInterface? n with
      | some e => Text.dropEnd (compactText e source) (· = '.') ++ "." ++ name
      | none => name
    { readMethod source n .ordinary qualified with
      constraints := readConstraints source n
      returns := some (ReturnForm.read source n) }

/-- A constructor; a static one is always private. -/
def readConstructor (source : Bytes) (n : Node) : MethodForm :=
  let m := readMethod source n .constructor ".ctor"
  if m.modifiers.isStatic then
    { m with
      kind := .staticConstructor
      name := ".cctor"
      modifiers := { m.modifiers with access := some .privateAccess } }
  else m

/-- A destructor. -/
def destructorForm : MethodForm :=
  { kind := .destructor, name := "Finalize", modifiers := { access := some .protectedAccess } }

/-- The names that operators have as methods. -/
def operatorNames : List (String × String) :=
  [("+", "op_Addition"), ("-", "op_Subtraction"), ("*", "op_Multiply"), ("/", "op_Division"),
    ("%", "op_Modulus"), ("&", "op_BitwiseAnd"), ("|", "op_BitwiseOr"), ("^", "op_ExclusiveOr"),
    ("<<", "op_LeftShift"), (">>", "op_RightShift"), (">>>", "op_UnsignedRightShift"),
    ("==", "op_Equality"), ("!=", "op_Inequality"), ("<", "op_LessThan"),
    (">", "op_GreaterThan"), ("<=", "op_LessThanOrEqual"), (">=", "op_GreaterThanOrEqual"),
    ("!", "op_LogicalNot"), ("~", "op_OnesComplement"), ("++", "op_Increment"),
    ("--", "op_Decrement"), ("true", "op_True"), ("false", "op_False")]

/-- The names of operators that differ when there is one operand. -/
def unaryOperatorNames : List (String × String) :=
  [("+", "op_UnaryPlus"), ("-", "op_UnaryNegation")]

/-- The method name of an operator with a number of operands. -/
def operatorName (sign : String) (operands : Nat) : String :=
  let unary := if operands = 1 then unaryOperatorNames.lookup sign else none
  (unary.or (operatorNames.lookup sign)).getD ("op_" ++ sign)

/-- An operator. -/
def readOperator (source : Bytes) (n : Node) : MethodForm :=
  let sign :=
    match n.field? "operator" with
    | some o => compactText o source
    | none => ""
  { readMethod source n .operator (operatorName sign (parameterNodes n).length) with
    returns := some (ReturnForm.read source n) }

/-- A conversion. -/
def readConversion (source : Bytes) (n : Node) : MethodForm :=
  let name := if n.hasChild "implicit" then "op_Implicit" else "op_Explicit"
  { readMethod source n .conversion name with returns := some (ReturnForm.read source n) }

/-- The fields or events that one declaration lists. -/
def readVariables? (source : Bytes) (n : Node) (kind : ValueKind) : Option ValueForm :=
  (n.child? "variable_declaration").map fun list =>
    let modifiers := Modifiers.read source n
    { kind
      names := (list.children.filter (·.kind = "variable_declarator")).filterMap fun d =>
        (nameNode? d).map (·.text source)
      type := TypeForm.ofDeclaration? source list
      access := modifiers.access
      isStatic := modifiers.isStatic || modifiers.isConst }

/-- A property or event of a given name. -/
def readValue (source : Bytes) (n : Node) (kind : ValueKind) (name : String) : ValueForm :=
  let modifiers := Modifiers.read source n
  { kind
    names := [name]
    type := TypeForm.ofDeclaration? source n
    access := modifiers.access
    isStatic := modifiers.isStatic }

/-- A member of a type's body, if the node is one. -/
def readMember? (source : Bytes) (n : Node) : Option MemberForm :=
  match n.kind with
  | "method_declaration" => (readOrdinary? source n).map .method
  | "constructor_declaration" => some (.method (readConstructor source n))
  | "destructor_declaration" => some (.method destructorForm)
  | "operator_declaration" => some (.method (readOperator source n))
  | "conversion_operator_declaration" => some (.method (readConversion source n))
  | "field_declaration" => (readVariables? source n .field).map .values
  | "event_field_declaration" => (readVariables? source n .event).map .values
  | "property_declaration" =>
    (nameNode? n).map fun name => .values (readValue source n .property (name.text source))
  | "event_declaration" =>
    (nameNode? n).map fun name => .values (readValue source n .event (name.text source))
  | "indexer_declaration" => some (.values (readValue source n .property "this[]"))
  | _ => none

/-! ### Types -/

/-- What a kind of node declares, if it declares a type. -/
def definitionKind? (n : Node) : Option DefinitionKind :=
  match n.kind with
  | "class_declaration" => some .classType
  | "struct_declaration" => some .structType
  | "interface_declaration" => some .interfaceType
  | "enum_declaration" => some .enumType
  | "record_declaration" => some (if n.hasChild "struct" then .structType else .classType)
  | "record_struct_declaration" => some .structType
  | "delegate_declaration" => some .delegateType
  | _ => none

/-- The body of a type or namespace. -/
def body? (n : Node) : Option Node :=
  n.fieldOrChild? "body" "declaration_list"

/-- The names of an enum's members. -/
def readEnumMembers (source : Bytes) (n : Node) : List String :=
  match n.fieldOrChild? "body" "enum_member_declaration_list" with
  | some body =>
    (body.children.filter (·.kind = "enum_member_declaration")).filterMap fun c =>
      (nameNode? c).map (·.text source)
  | none => []

/-- A type with everything nested in it. A declaration without a name declares nothing, and an
enum has no nested types. -/
def TypeDeclaration.read? (source : Bytes) (n : Node) : Option TypeDeclaration :=
  match definitionKind? n, nameNode? n with
  | some kind, some nameNode =>
    some
      { name := nameNode.text source
        kind
        isRecord := n.kind = "record_declaration" || n.kind = "record_struct_declaration"
        modifiers := Modifiers.read source n
        typeParameters := readTypeParameters source n
        constraints := readConstraints source n
        returns := ReturnForm.read source n
        hasParameterList := n.hasChild "parameter_list"
        parameters := readParameters source n
        enumMembers := readEnumMembers source n
        members :=
          match body? n with
          | some body => body.children.filterMap (readMember? source)
          | none => []
        nested :=
          match _h : body? n with
          | some body =>
            if kind = .enumType then []
            else body.children.attach.filterMap fun ⟨c, _⟩ => TypeDeclaration.read? source c
          | none => [] }
  | _, _ => none
termination_by sizeOf n
decreasing_by
  have := Node.size_lt_of_mem (Node.mem_of_fieldOrChild? _h)
  have := Node.size_lt_of_mem ‹_ ∈ body.children›
  omega

/-! ### Namespaces and using directives -/

/-- The name of a namespace without white space. -/
def namespaceName (source : Bytes) (n : Node) : String :=
  let name := (n.field? "name").or
    (n.children.find? fun c => c.kind = "qualified_name" || c.kind = "identifier")
  Text.compact (Node.textOf name source)

/-- The name that a using directive gives to its target, if it gives one. -/
def usingName? (source : Bytes) (n : Node) : Option String :=
  match n.child? "name_equals" with
  | some equals => some (Node.textOf (equals.child? "identifier") source)
  | none =>
    if n.hasChild "=" then some (Node.textOf (n.fieldOrChild? "alias" "identifier") source)
    else none

/-- The word that starts a name at the global namespace. -/
def globalWord : String := "global::"

/-- A using directive, if it brings in a namespace or a name. -/
def UsingForm.read? (source : Bytes) (n : Node) : Option UsingForm :=
  let isGlobal := n.hasChild "global"
  if n.hasChild "static" then none
  else
    match (n.named.filter fun c => c.kind ≠ "name_equals" && c.kind ≠ "comment").getLast? with
    | none => none
    | some target =>
      let written := compactText target source
      match (usingName? source n).filter (· ≠ "") with
      | some name =>
        some (.named isGlobal name (TypeForm.read source target)
          (Text.replaceAll written globalWord ""))
      | none =>
        some (.space isGlobal
          (if Text.startsWith written globalWord then Text.dropFirst written globalWord.length
           else written))

/-- What stands among the children of a node: of a whole file, or of a namespace's body. -/
def readItems (source : Bytes) (n : Node) : List Item :=
  n.children.attach.filterMap fun ⟨c, _⟩ =>
    match c.kind with
    | "using_directive" => (UsingForm.read? source c).map .using
    | "namespace_declaration" =>
      some (.block (namespaceName source c)
        (match _h : body? c with
          | some body => readItems source body
          | none => []))
    | "file_scoped_namespace_declaration" =>
      some (.fileScoped (namespaceName source c) (readItems source c))
    | "declaration_list" =>
      if n.kind = "file_scoped_namespace_declaration" then some (.group (readItems source c))
      else none
    | _ => (TypeDeclaration.read? source c).map .type
termination_by sizeOf n
decreasing_by
  · have := Node.size_lt_of_mem (Node.mem_of_fieldOrChild? _h)
    have := Node.size_lt_of_mem ‹_ ∈ n.children›
    omega
  · exact Node.size_lt_of_mem ‹_ ∈ n.children›
  · exact Node.size_lt_of_mem ‹_ ∈ n.children›

end ExtensionCensus.Source
