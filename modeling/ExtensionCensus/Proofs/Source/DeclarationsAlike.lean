import ExtensionCensus.Proofs.Source.TypesAlike
import ExtensionCensus.Proofs.Source.Items

/-!
# Trees with the same declarations

Where the readers of declarations find the same children in two trees, all the way down, they read
the same members, types, namespaces and using directives.

* `signatureKinds`, `partKinds` — the kinds of nodes with modifiers or parameters among their
  children, and the kinds of these children;
* `TypeDeclaration.read?_eq` — the reader of types, as an equation that does not mention where a
  nested declaration comes from;
* `readItem?_block`, `readItem?_fileScoped`, `readItem?_list` — what namespaces are read as;
* `DeclarationsAlike` — a relation between trees that keeps every child that the readers of
  declarations ask for, and the modifiers and parameters of every declaration;
* `DeclarationsAlike.member?_eq`, `DeclarationsAlike.declaration?_eq`,
  `DeclarationsAlike.items_eq` — **related files are read as the same items**.
-/

namespace ExtensionCensus.Source

open Text (Bytes)

/-! ### Kinds and fields -/

/-- The kinds of nodes that declare a type or a member. -/
def declarationKinds : List String :=
  ["class_declaration", "struct_declaration", "interface_declaration", "enum_declaration",
    "record_declaration", "record_struct_declaration", "delegate_declaration",
    "method_declaration", "constructor_declaration", "destructor_declaration",
    "operator_declaration", "conversion_operator_declaration", "field_declaration",
    "event_field_declaration", "property_declaration", "event_declaration",
    "indexer_declaration", "accessor_declaration"]

/-- The kinds of nodes that list parameters. -/
def parameterListKinds : List String :=
  ["parameter_list", "bracketed_parameter_list"]

/-- The kinds of nodes that are types. -/
def typeKinds : List String :=
  ["predefined_type", "identifier", "generic_name", "qualified_name", "alias_qualified_name",
    "nullable_type", "array_type", "pointer_type", "function_pointer_type", "tuple_type",
    "ref_type", "scoped_type", "implicit_type"]

/-- The kinds of modifiers: nodes of their own, and bare tokens. -/
def wordKinds : List String :=
  ["modifier", "parameter_modifier"] ++ modifierWords ++ parameterWords

/-- The kinds of nodes among whose children modifiers or parameters may stand. -/
def signatureKinds : List String :=
  "parameter" :: "parameter_array" :: (declarationKinds ++ parameterListKinds)

/-- The kinds of modifiers, of parameter arrays and of their parts. -/
def partKinds : List String :=
  wordKinds ++ "parameter_array" :: typeKinds

/-- The names of the fields that readers ask for. -/
def fieldNames : List String :=
  ["name", "type", "returns", "parameters", "type_parameters", "body",
    "explicit_interface_specifier", "operator", "qualifier", "alias", "target"]

theorem not_list_of_declaration {n : Node} (h : n.kind ∈ declarationKinds) :
    n.kind ∉ parameterListKinds := by
  have hall : ∀ kind ∈ declarationKinds, kind ∉ parameterListKinds := by decide +kernel
  exact hall _ h

theorem not_list_of_plain {n : Node} (h : n.kind ∉ signatureKinds) :
    n.kind ∉ parameterListKinds :=
  fun hlist => h (List.mem_cons_of_mem _ (List.mem_cons_of_mem _ (List.mem_append_right _ hlist)))

/-! ### The readers of declarations -/

theorem readConstraintType_eq (source : Bytes) (n : Node) : readConstraintType source n =
    if n.kind = "type_parameter_constraint" || n.kind = "type_constraint" then
      ((n.fieldOrFirst? "type").map (readConstraintType source)).getD (TypeForm.read source n)
    else TypeForm.read source n := by
  rw [readConstraintType]
  split
  · split
    · next inner hinner => rw [hinner]; rfl
    · next hnone => rw [hnone]; rfl
  · rfl

/-- Only a declaration is read as a member. -/
theorem readMember?_of_not_declaration (source : Bytes) {n : Node} (h : n.kind ∉ declarationKinds) :
    readMember? source n = none := by
  unfold readMember?
  split
  all_goals first
    | rfl
    | next hk => exact absurd (by rw [hk]; decide) h

/-- Only a declaration declares a type. -/
theorem definitionKind?_of_not_declaration {n : Node} (h : n.kind ∉ declarationKinds) :
    definitionKind? n = none := by
  unfold definitionKind?
  split
  all_goals first
    | rfl
    | next hk => exact absurd (by rw [hk]; decide) h

/-- What stands in the body of a declaration. -/
def bodyNodes (n : Node) : List Node :=
  match body? n with
  | some body => body.children
  | none => []

theorem filterMap_bodyNodes {α : Type} (f : Node → Option α) (n : Node) :
    (match body? n with
      | some body => body.children.filterMap f
      | none => []) = (bodyNodes n).filterMap f := by
  rw [bodyNodes]
  cases body? n <;> rfl

theorem size_lt_of_mem_bodyNodes {c n : Node} (h : c ∈ bodyNodes n) : sizeOf c < sizeOf n := by
  rw [bodyNodes] at h
  split at h
  · next body hbody =>
    have := Node.size_lt_of_mem (Node.mem_of_fieldOrChild? hbody)
    have := Node.size_lt_of_mem h
    omega
  · cases h

/-- A type with everything nested in it, by its kind and name. -/
theorem TypeDeclaration.read?_eq (source : Bytes) (n : Node) : TypeDeclaration.read? source n =
    (definitionKind? n).bind fun kind => (nameNode? n).map fun nameNode =>
      { name := nameNode.text source
        kind
        isRecord := n.kind = "record_declaration" || n.kind = "record_struct_declaration"
        modifiers := Modifiers.read source n
        typeParameters := readTypeParameters source n
        constraints := readConstraints source n
        returns := ReturnForm.read source n
        hasParameterList := n.hasChild "parameter_list"
        parameters := readParameters source n
        enumMembers := readEnumMembers source n
        members := (bodyNodes n).filterMap (readMember? source)
        nested := if kind = .enumType then []
          else (bodyNodes n).filterMap (TypeDeclaration.read? source) } := by
  rw [TypeDeclaration.read?]
  cases definitionKind? n with
  | none => rfl
  | some kind =>
    cases nameNode? n with
    | none => rfl
    | some nameNode =>
      refine congrArg some ?_
      congr 1
      · exact filterMap_bodyNodes _ n
      · rw [bodyNodes]
        cases body? n with
        | none => exact (ite_self _).symm
        | some body =>
          refine congrArg (ite _ []) ?_
          show _ = body.children.filterMap (read? source)
          conv => rhs; rw [← List.attach_map_subtype_val body.children, List.filterMap_map]
          rfl

theorem read?_of_not_declaration (source : Bytes) {n : Node} (h : n.kind ∉ declarationKinds) :
    TypeDeclaration.read? source n = none := by
  rw [TypeDeclaration.read?_eq, definitionKind?_of_not_declaration h]
  rfl

/-- The kind of the body of a namespace. -/
def bodyKind (n : Node) : String :=
  match body? n with
  | some body => body.kind
  | none => ""

/-- The items in the body of a namespace. -/
def bodyItems (source : Bytes) (n : Node) : List Item :=
  (bodyNodes n).filterMap (readItem? source (bodyKind n))

theorem readItem?_block {source : Bytes} {around : String} {c : Node}
    (hk : c.kind = "namespace_declaration") :
    readItem? source around c = some (.block (namespaceName source c) (bodyItems source c)) := by
  simp only [readItem?, hk, bodyItems, bodyNodes, bodyKind]
  cases body? c with
  | none => rfl
  | some body => exact congrArg (fun items => some (Item.block _ items)) (readItems_eq source body)

theorem readItem?_fileScoped {source : Bytes} {around : String} {c : Node}
    (hk : c.kind = "file_scoped_namespace_declaration") :
    readItem? source around c =
      some (.fileScoped (namespaceName source c) (readItems source c)) := by
  simp only [readItem?, hk]

theorem readItem?_list {source : Bytes} {c : Node} (hk : c.kind = "declaration_list") :
    readItem? source "file_scoped_namespace_declaration" c =
      some (.group (readItems source c)) := by
  simp only [readItem?, hk, ↓reduceIte]

/-- The kinds of nodes that stand between declarations and declare nothing. -/
def silentKinds : List String :=
  "comment" :: partKinds

theorem not_declaration_of_silent {c : Node} (h : c.kind ∈ silentKinds) :
    c.kind ∉ declarationKinds := by
  have hall : ∀ kind ∈ silentKinds, kind ∉ declarationKinds := by decide +kernel
  exact hall _ h

theorem readItem?_of_silent (source : Bytes) (around : String) {c : Node}
    (h : c.kind ∈ silentKinds) : readItem? source around c = none := by
  rw [readItem?]
  split
  · next hk => exact absurd (hk ▸ h) (by decide)
  · next hk => exact absurd (hk ▸ h) (by decide)
  · next hk => exact absurd (hk ▸ h) (by decide)
  · next hk => exact absurd (hk ▸ h) (by decide)
  · rw [read?_of_not_declaration source (not_declaration_of_silent h)]
    rfl

/-- The name that a using directive gives, in a node of its own or behind no more than a sign. -/
theorem usingName?_or (source : Bytes) (n : Node) : usingName? source n =
    ((n.child? "name_equals").map fun equals => Node.textOf (equals.child? "identifier") source).or
      (if n.hasChild "=" then some (Node.textOf (n.fieldOrChild? "alias" "identifier") source)
        else none) := by
  rw [usingName?]
  cases n.child? "name_equals" <;> rfl

/-! ### What they ask for -/

/-- A relation between the nodes of trees over two sources that keeps every child that the readers of
declarations ask for, and the modifiers and parameters that declarations are read with. -/
structure DeclarationsAlike (source source' : Bytes) (R : Node → Node → Prop) : Prop
    extends TypesAlike source source' R where
  isNamed_eq {n n' : Node} : R n n' → n'.isNamed = n.isNamed
  field_eq {n n' : Node} : R n n' → n'.field = n.field
  field {n n' : Node} : R n n' → n.kind ∉ parameterListKinds → ∀ name ∈ fieldNames,
    Option.Rel R (n.field? name) (n'.field? name)
  child {n n' : Node} : R n n' → n.kind ∉ parameterListKinds →
    ∀ kind : String, kind ∉ "comment" :: wordKinds → Option.Rel R (n.child? kind) (n'.child? kind)
  ofKind {n n' : Node} : R n n' → ∀ kind : String, kind ∉ silentKinds →
    List.Forall₂ R (n.children.filter (·.kind = kind)) (n'.children.filter (·.kind = kind))
  plain {n n' : Node} {q : Node → Bool} : R n n' → n.kind ∉ signatureKinds →
    (∀ {c c' : Node}, R c c' → q c' = q c) → (∀ {k : Node}, k.isComment = true → q k = false) →
    List.Forall₂ R (n.children.filter q) (n'.children.filter q)
  clause {n n' : Node} : R n n' → n.kind = "type_parameter_constraints_clause" →
    List.Forall₂ R n.children n'.children
  variance {n n' : Node} : R n n' → n.kind = "type_parameter" →
    (TypeParameterForm.read source' n').variance = (TypeParameterForm.read source n).variance
  inside {α : Type} {n n' : Node} {f g : Node → Option α} : R n n' →
    (∀ c : Node, c.kind ∈ silentKinds → g c = none ∧ f c = none) →
    (∀ c ∈ n.children, ∀ c', R c c' → g c' = f c) →
    n'.children.filterMap g = n.children.filterMap f
  modifiers_eq {n n' : Node} : R n n' → n.kind ∈ declarationKinds →
    Modifiers.read source' n' = Modifiers.read source n
  parameters_eq {n n' : Node} : R n n' → n.kind ∈ declarationKinds →
    readParameters source' n' = readParameters source n

theorem rel_head? {R : Node → Node → Prop} {old new : List Node} (h : List.Forall₂ R old new) :
    Option.Rel R old.head? new.head? := by
  cases h with
  | nil => exact .none
  | cons hc _ => exact .some hc

theorem rel_getElem? {R : Node → Node → Prop} {old new : List Node} (h : List.Forall₂ R old new)
    (i : Nat) : Option.Rel R old[i]? new[i]? := by
  induction h generalizing i with
  | nil => exact .none
  | cons hc _ ih =>
    cases i with
    | zero => exact .some hc
    | succ i => exact ih i

theorem forall₂_zipIdx {R : Node → Node → Prop} {old new : List Node} (h : List.Forall₂ R old new)
    (k : Nat) : List.Forall₂ (fun x y => R x.1 y.1 ∧ y.2 = x.2) (old.zipIdx k) (new.zipIdx k) := by
  induction h generalizing k with
  | nil => exact .nil
  | cons hc _ ih => exact .cons ⟨hc, rfl⟩ (ih (k + 1))

namespace DeclarationsAlike

variable {source source' : Bytes} {R : Node → Node → Prop} {n n' : Node}

section

variable (alike : DeclarationsAlike source source' R) (h : R n n')
include alike h

theorem fieldOrChild (hlist : n.kind ∉ parameterListKinds) (name kind : String)
    (hname : name ∈ fieldNames) (hkind : kind ∉ "comment" :: wordKinds) :
    Option.Rel R (n.fieldOrChild? name kind) (n'.fieldOrChild? name kind) :=
  rel_or (alike.field h hlist name hname) (alike.child h hlist kind hkind)

theorem hasChild_eq (hlist : n.kind ∉ parameterListKinds) (kind : String)
    (hkind : kind ∉ "comment" :: wordKinds) : n'.hasChild kind = n.hasChild kind := by
  rw [Node.hasChild, Node.hasChild, ← List.isSome_find?, ← List.isSome_find?]
  exact isSome_eq_of_rel (alike.child h hlist kind hkind)

/-- Where no modifiers and parameters stand, the first child of any sort is the same. -/
theorem found (hk : n.kind ∉ signatureKinds) {q : Node → Bool}
    (hq : ∀ {c c' : Node}, R c c' → q c' = q c)
    (hcomment : ∀ {k : Node}, k.isComment = true → q k = false) :
    Option.Rel R (n.children.find? q) (n'.children.find? q) := by
  rw [← List.head?_filter, ← List.head?_filter]
  exact rel_head? (alike.plain h hk hq hcomment)

/-- Where no modifiers and parameters stand, there are children of the same kinds. -/
theorem hasToken_eq (hk : n.kind ∉ signatureKinds) (kind : String) (hkind : kind ≠ "comment") :
    n'.hasChild kind = n.hasChild kind := by
  rw [Node.hasChild, Node.hasChild, ← List.isSome_find?, ← List.isSome_find?]
  exact isSome_eq_of_rel (alike.found h hk (fun hc => by rw [alike.kind_eq hc])
    fun hcomment => Node.kind_ne_of_isComment hcomment hkind)

/-! ### Names, type parameters and constraints -/

theorem rel_nameNode? (hlist : n.kind ∉ parameterListKinds) :
    Option.Rel R (nameNode? n) (nameNode? n') :=
  alike.fieldOrChild h hlist _ _ (by decide) (by decide)

theorem rel_typeField (hlist : n.kind ∉ parameterListKinds) :
    Option.Rel R ((n.field? "type").or (n.field? "returns"))
      ((n'.field? "type").or (n'.field? "returns")) :=
  rel_or (alike.field h hlist "type" (by decide)) (alike.field h hlist "returns" (by decide))

theorem typeParameter_eq (hk : n.kind = "type_parameter") :
    TypeParameterForm.read source' n' = TypeParameterForm.read source n := by
  have hname := alike.textOf_eq (alike.rel_nameNode? h (by rw [hk]; decide))
  exact congrArg₂ TypeParameterForm.mk hname (alike.variance h hk)

theorem typeParameters_eq (hlist : n.kind ∉ parameterListKinds) :
    readTypeParameters source' n' = readTypeParameters source n := by
  have hrel := alike.fieldOrChild h hlist "type_parameters" "type_parameter_list" (by decide)
    (by decide)
  rw [readTypeParameters, readTypeParameters, typeParameterNodes, typeParameterNodes]
  generalize n.fieldOrChild? "type_parameters" "type_parameter_list" = old at hrel ⊢
  generalize n'.fieldOrChild? "type_parameters" "type_parameter_list" = new at hrel ⊢
  cases hrel with
  | none => rfl
  | some hnodes =>
    refine map_eq_of_forall₂ (alike.ofKind hnodes "type_parameter" (by decide)) fun p hp p' hrel => ?_
    exact alike.typeParameter_eq hrel (by simpa using (List.mem_filter.mp hp).2)

end

/-- The type of a constraint is read in the same way. -/
theorem constraintType_eq (alike : DeclarationsAlike source source' R) (n : Node) (n' : Node)
    (h : R n n') : readConstraintType source' n' = readConstraintType source n := by
  rw [readConstraintType_eq, readConstraintType_eq, alike.kind_eq h, alike.read_type h]
  split
  · next hk =>
    have hkind : n.kind ∈ firstOperandKinds := by
      rcases Bool.or_eq_true_iff.mp hk with hk | hk
      · rw [of_decide_eq_true hk]; decide
      · rw [of_decide_eq_true hk]; decide
    rw [map_eq_of_rel (alike.first h hkind) fun c _hc c' hrel => constraintType_eq alike c c' hrel]
  · rfl
termination_by sizeOf n
decreasing_by exact Node.size_lt_of_mem (Node.mem_of_fieldOrFirst? _hc)

section

variable (alike : DeclarationsAlike source source' R) (h : R n n')
include alike h

theorem constraint_eq : ConstraintForm.read source' n' = ConstraintForm.read source n := by
  rw [ConstraintForm.read, ConstraintForm.read, alike.compactText_eq h, alike.kind_eq h,
    alike.constraintType_eq n n' h]

theorem clause_eq (hk : n.kind = "type_parameter_constraints_clause") :
    ConstraintClause.read source' n' = ConstraintClause.read source n := by
  have hchildren := alike.clause h hk
  have htarget : indexOfFirst? n'.children (·.field = "target") (·.kind = "identifier") =
      indexOfFirst? n.children (·.field = "target") (·.kind = "identifier") := by
    rw [indexOfFirst?, indexOfFirst?,
      findIdx?_eq_of_forall₂ hchildren fun hc => by rw [alike.field_eq hc],
      findIdx?_eq_of_forall₂ hchildren fun hc => by rw [alike.kind_eq hc]]
  rw [ConstraintClause.read, ConstraintClause.read]
  simp only [htarget, ConstraintClause.mk.injEq]
  constructor
  · cases indexOfFirst? n.children (·.field = "target") (·.kind = "identifier") with
    | none => rfl
    | some i => exact alike.textOf_eq (rel_getElem? hchildren i)
  · refine map_eq_of_forall₂ (List.rel_filter (fun x y hxy => ?_) (forall₂_zipIdx hchildren 0))
      fun x _ y hxy => alike.constraint_eq hxy.1
    obtain ⟨hc, hi⟩ := hxy
    simp only [alike.isNamed_eq hc, hi]

theorem constraints_eq : readConstraints source' n' = readConstraints source n := by
  refine map_eq_of_forall₂ (alike.ofKind h "type_parameter_constraints_clause" (by decide))
    fun clause hclause clause' hrel => alike.clause_eq hrel ?_
  simpa using (List.mem_filter.mp hclause).2

/-! ### Members -/

theorem ofDeclaration?_eq (hlist : n.kind ∉ parameterListKinds) :
    TypeForm.ofDeclaration? source' n' = TypeForm.ofDeclaration? source n :=
  alike.map_read_eq (alike.rel_typeField h hlist)

theorem returns_eq (hlist : n.kind ∉ parameterListKinds) :
    ReturnForm.read source' n' = ReturnForm.read source n := by
  have ht := alike.rel_typeField h hlist
  rw [ReturnForm.read, ReturnForm.read]
  generalize (n.field? "type").or (n.field? "returns") = t at ht ⊢
  generalize (n'.field? "type").or (n'.field? "returns") = t' at ht ⊢
  cases ht with
  | none => rfl
  | @some t t' ht =>
    simp only [alike.kind_eq ht, alike.read_type ht]
    split
    · next hk =>
      have hinner := alike.last ht (by rw [hk]; decide)
      rw [alike.hasToken_eq ht (by rw [hk]; decide) "readonly" (by decide)]
      generalize t.fieldOrLast? "type" = inner at hinner ⊢
      generalize t'.fieldOrLast? "type" = inner' at hinner ⊢
      cases hinner with
      | none => rfl
      | some hinner => simp only [alike.read_type hinner]
    · rfl

theorem rel_explicitInterface? (hlist : n.kind ∉ parameterListKinds) :
    Option.Rel R (explicitInterface? n) (explicitInterface? n') :=
  alike.fieldOrChild h hlist _ _ (by decide) (by decide)

theorem method_eq (hn : n.kind ∈ declarationKinds) (kind : MethodKind) (name : String) :
    readMethod source' n' kind name = readMethod source n kind name := by
  have hlist := not_list_of_declaration hn
  rw [readMethod, readMethod, alike.modifiers_eq h hn, alike.typeParameters_eq h hlist,
    alike.parameters_eq h hn, isSome_eq_of_rel (alike.rel_explicitInterface? h hlist)]

theorem ordinary?_eq (hn : n.kind ∈ declarationKinds) :
    readOrdinary? source' n' = readOrdinary? source n := by
  have hlist := not_list_of_declaration hn
  refine map_eq_of_rel (alike.rel_nameNode? h hlist) fun name _ name' hname => ?_
  have he := alike.rel_explicitInterface? h hlist
  simp only [alike.text_eq hname, alike.method_eq h hn, alike.constraints_eq h,
    alike.returns_eq h hlist]
  generalize explicitInterface? n = e at he ⊢
  generalize explicitInterface? n' = e' at he ⊢
  cases he with
  | none => rfl
  | some he => simp only [alike.compactText_eq he]

theorem constructor_eq (hn : n.kind ∈ declarationKinds) :
    readConstructor source' n' = readConstructor source n := by
  rw [readConstructor, readConstructor, alike.method_eq h hn]

theorem length_parameterNodes (hn : n.kind ∈ declarationKinds) :
    (parameterNodes n').length = (parameterNodes n).length := by
  simpa [readParameters] using congrArg List.length (alike.parameters_eq h hn)

theorem operator_eq (hn : n.kind ∈ declarationKinds) :
    readOperator source' n' = readOperator source n := by
  have hlist := not_list_of_declaration hn
  have hsign := alike.field h hlist "operator" (by decide)
  rw [readOperator, readOperator, alike.returns_eq h hlist, alike.length_parameterNodes h hn]
  simp only [alike.method_eq h hn]
  generalize n.field? "operator" = o at hsign ⊢
  generalize n'.field? "operator" = o' at hsign ⊢
  cases hsign with
  | none => rfl
  | some ho => simp only [alike.compactText_eq ho]

theorem conversion_eq (hn : n.kind ∈ declarationKinds) :
    readConversion source' n' = readConversion source n := by
  have hlist := not_list_of_declaration hn
  rw [readConversion, readConversion, alike.returns_eq h hlist,
    alike.hasChild_eq h hlist "implicit" (by decide)]
  simp only [alike.method_eq h hn]

theorem names_eq (kind : String) (hkind : kind ∉ silentKinds) (hlist : kind ∉ parameterListKinds) :
    ((n'.children.filter (·.kind = kind)).filterMap fun c => (nameNode? c).map (·.text source')) =
      (n.children.filter (·.kind = kind)).filterMap fun c => (nameNode? c).map (·.text source) := by
  refine filterMap_eq_of_forall₂ (alike.ofKind h kind hkind) fun c hc c' hrel => ?_
  have hc : c.kind = kind := by simpa using (List.mem_filter.mp hc).2
  exact map_eq_of_rel (alike.rel_nameNode? hrel (hc ▸ hlist)) fun _ _ _ hname => alike.text_eq hname

theorem variables?_eq (hn : n.kind ∈ declarationKinds) (kind : ValueKind) :
    readVariables? source' n' kind = readVariables? source n kind := by
  refine map_eq_of_rel (alike.child h (not_list_of_declaration hn) "variable_declaration"
    (by decide)) fun list hlist list' hrel => ?_
  have hk : list.kind = "variable_declaration" := by simpa using List.find?_some hlist
  rw [alike.modifiers_eq h hn, alike.names_eq hrel "variable_declarator" (by decide) (by decide),
    alike.ofDeclaration?_eq hrel (by rw [hk]; decide)]

theorem value_eq (hn : n.kind ∈ declarationKinds) (kind : ValueKind) (name : String) :
    readValue source' n' kind name = readValue source n kind name := by
  rw [readValue, readValue, alike.modifiers_eq h hn,
    alike.ofDeclaration?_eq h (not_list_of_declaration hn)]

/-- A member is read as the same member. -/
theorem member?_eq : readMember? source' n' = readMember? source n := by
  by_cases hn : n.kind ∈ declarationKinds
  · have hvalue (kind : ValueKind) :
        (nameNode? n').map (fun name =>
            MemberForm.values (readValue source' n' kind (name.text source'))) =
          (nameNode? n).map fun name =>
            MemberForm.values (readValue source n kind (name.text source)) :=
      map_eq_of_rel (alike.rel_nameNode? h (not_list_of_declaration hn)) fun name _ name' hname => by
        rw [alike.value_eq h hn, alike.text_eq hname]
    rw [readMember?, readMember?, alike.kind_eq h, alike.ordinary?_eq h hn,
      alike.constructor_eq h hn, alike.operator_eq h hn, alike.conversion_eq h hn,
      alike.variables?_eq h hn, alike.variables?_eq h hn, hvalue, hvalue, alike.value_eq h hn]
  · rw [readMember?_of_not_declaration source hn,
      readMember?_of_not_declaration source' (alike.kind_eq h ▸ hn)]

/-! ### Types -/

theorem definitionKind?_eq (hn : n.kind ∈ declarationKinds) :
    definitionKind? n' = definitionKind? n := by
  rw [definitionKind?, definitionKind?, alike.kind_eq h,
    alike.hasChild_eq h (not_list_of_declaration hn) "struct" (by decide)]

theorem rel_body? (hlist : n.kind ∉ parameterListKinds) :
    Option.Rel R (body? n) (body? n') :=
  alike.fieldOrChild h hlist _ _ (by decide) (by decide)

/-- What stands in a body is read in the same way. -/
theorem filterMap_bodyNodes_eq {α : Type} {f g : Node → Option α}
    (hlist : n.kind ∉ parameterListKinds)
    (hsilent : ∀ c : Node, c.kind ∈ silentKinds → g c = none ∧ f c = none)
    (hf : ∀ c ∈ bodyNodes n, ∀ c', R c c' → g c' = f c) :
    (bodyNodes n').filterMap g = (bodyNodes n).filterMap f := by
  have hbody := alike.rel_body? h hlist
  rw [bodyNodes] at hf ⊢
  rw [bodyNodes]
  generalize body? n = body at hbody hf ⊢
  generalize body? n' = body' at hbody ⊢
  cases hbody with
  | none => rfl
  | some hbody => exact alike.inside hbody hsilent hf

theorem enumMembers_eq (hlist : n.kind ∉ parameterListKinds) :
    readEnumMembers source' n' = readEnumMembers source n := by
  have hbody := alike.fieldOrChild h hlist "body" "enum_member_declaration_list" (by decide)
    (by decide)
  rw [readEnumMembers, readEnumMembers]
  generalize n.fieldOrChild? "body" "enum_member_declaration_list" = body at hbody ⊢
  generalize n'.fieldOrChild? "body" "enum_member_declaration_list" = body' at hbody ⊢
  cases hbody with
  | none => rfl
  | some hbody => exact alike.names_eq hbody "enum_member_declaration" (by decide) (by decide)

end

/-- A type is read as the same type, with the same types nested in it. -/
theorem declaration?_eq (alike : DeclarationsAlike source source' R) (n : Node) (n' : Node)
    (h : R n n') : TypeDeclaration.read? source' n' = TypeDeclaration.read? source n := by
  by_cases hn : n.kind ∈ declarationKinds
  · have hlist := not_list_of_declaration hn
    have hmembers : (bodyNodes n').filterMap (readMember? source') =
        (bodyNodes n).filterMap (readMember? source) :=
      alike.filterMap_bodyNodes_eq h hlist
        (fun c hc => ⟨readMember?_of_not_declaration _ (not_declaration_of_silent hc),
          readMember?_of_not_declaration _ (not_declaration_of_silent hc)⟩)
        fun _ _ _ hc => alike.member?_eq hc
    have hnested : (bodyNodes n').filterMap (TypeDeclaration.read? source') =
        (bodyNodes n).filterMap (TypeDeclaration.read? source) :=
      alike.filterMap_bodyNodes_eq h hlist
        (fun c hc => ⟨read?_of_not_declaration _ (not_declaration_of_silent hc),
          read?_of_not_declaration _ (not_declaration_of_silent hc)⟩)
        fun c _hc c' hrel => declaration?_eq alike c c' hrel
    rw [TypeDeclaration.read?_eq, TypeDeclaration.read?_eq, alike.definitionKind?_eq h hn]
    refine congrArg _ (funext fun kind =>
      map_eq_of_rel (alike.rel_nameNode? h hlist) fun name _ name' hname => ?_)
    rw [alike.text_eq hname, alike.kind_eq h, alike.modifiers_eq h hn,
      alike.typeParameters_eq h hlist, alike.constraints_eq h, alike.returns_eq h hlist,
      alike.hasChild_eq h hlist "parameter_list" (by decide), alike.parameters_eq h hn,
      alike.enumMembers_eq h hlist, hmembers, hnested]
  · rw [read?_of_not_declaration source hn, read?_of_not_declaration source' (alike.kind_eq h ▸ hn)]
termination_by sizeOf n
decreasing_by exact size_lt_of_mem_bodyNodes _hc

/-! ### Namespaces and using directives -/

section

variable (alike : DeclarationsAlike source source' R) (h : R n n')
include alike h

theorem namespaceName_eq (hk : n.kind ∉ signatureKinds) :
    namespaceName source' n' = namespaceName source n := by
  have hchild := alike.found h hk
    (q := fun c => decide (c.kind = "qualified_name") || decide (c.kind = "identifier"))
    (fun hc => by rw [alike.kind_eq hc]) fun hcomment => by
      rw [Node.kind_of_isComment hcomment]
      decide
  rw [namespaceName, namespaceName,
    alike.textOf_eq (rel_or (alike.field h (not_list_of_plain hk) "name" (by decide)) hchild)]

theorem usingName?_eq (hk : n.kind = "using_directive") :
    usingName? source' n' = usingName? source n := by
  have hlist : n.kind ∉ parameterListKinds := by rw [hk]; decide
  rw [usingName?_or, usingName?_or, alike.hasChild_eq h hlist "=" (by decide),
    alike.textOf_eq (alike.fieldOrChild h hlist "alias" "identifier" (by decide) (by decide)),
    map_eq_of_rel (alike.child h hlist "name_equals" (by decide))
      fun equals hequals equals' hrel => ?_]
  have hkind : equals.kind = "name_equals" := by simpa using List.find?_some hequals
  exact alike.textOf_eq (alike.child hrel (by rw [hkind]; decide) "identifier" (by decide))

/-- A using directive is read as the same one: it leaves comments out. -/
theorem using?_eq (hk : n.kind = "using_directive") :
    UsingForm.read? source' n' = UsingForm.read? source n := by
  have hplain : n.kind ∉ signatureKinds := by rw [hk]; decide
  have htarget : Option.Rel R
      (n.named.filter fun c => c.kind ≠ "name_equals" && c.kind ≠ "comment").getLast?
      (n'.named.filter fun c => c.kind ≠ "name_equals" && c.kind ≠ "comment").getLast? := by
    rw [Node.named, Node.named, List.filter_filter, List.filter_filter]
    refine rel_getLast? (alike.plain h hplain
      (fun hc => by rw [alike.isNamed_eq hc, alike.kind_eq hc]) fun hcomment => ?_)
    simp [Node.kind_of_isComment hcomment]
  rw [UsingForm.read?, UsingForm.read?, alike.hasToken_eq h hplain "global" (by decide),
    alike.hasToken_eq h hplain "static" (by decide), alike.usingName?_eq h hk]
  generalize (n.named.filter _).getLast? = target at htarget ⊢
  generalize (n'.named.filter _).getLast? = target' at htarget ⊢
  cases htarget with
  | none => rfl
  | some htarget => simp only [alike.compactText_eq htarget, alike.read_type htarget]

/-! ### Items -/

/-- What stands in a file is read in the same way if it is in what lies inside, and if a list of
declarations stands under a file-scoped namespace in both files or in none. -/
theorem item?_eq {around around' : String}
    (haround : n.kind = "declaration_list" → (around = "file_scoped_namespace_declaration" ↔
      around' = "file_scoped_namespace_declaration"))
    (hinside : readItems source' n' = readItems source n)
    (hbody : ∀ body ∈ body? n, ∀ body', R body body' →
      readItems source' body' = readItems source body) :
    readItem? source' around' n' = readItem? source around n := by
  rw [readItem?, readItem?, alike.kind_eq h, hinside, alike.declaration?_eq n n' h]
  split
  · next hk => rw [alike.using?_eq h hk]
  · next hk =>
    have hbodies := alike.rel_body? h (by rw [hk]; decide)
    rw [alike.namespaceName_eq h (by rw [hk]; decide)]
    generalize body? n = body at hbodies hbody ⊢
    generalize body? n' = body' at hbodies ⊢
    cases hbodies with
    | none => rfl
    | some hrel => simp only [hbody _ rfl _ hrel]
  · next hk => rw [alike.namespaceName_eq h (by rw [hk]; decide)]
  · next hk => simp only [haround hk]
  · rfl

end

/-- **A file is read as the same items.** -/
theorem items_eq (alike : DeclarationsAlike source source' R) (n : Node) (n' : Node)
    (h : R n n') : readItems source' n' = readItems source n := by
  rw [readItems_eq, readItems_eq, alike.kind_eq h]
  refine alike.inside h (fun c hc => ⟨readItem?_of_silent _ _ hc, readItem?_of_silent _ _ hc⟩)
    fun c hc c' hrel => ?_
  have := Node.size_lt_of_mem hc
  exact alike.item?_eq hrel (fun _ => Iff.rfl) (items_eq alike c c' hrel)
    fun body _hbody body' hrel' => items_eq alike body body' hrel'
termination_by sizeOf n
decreasing_by
  · exact this
  · have := Node.size_lt_of_mem (Node.mem_of_fieldOrChild? _hbody)
    omega

end DeclarationsAlike

end ExtensionCensus.Source
