import ExtensionCensus.Source.Node

/-!
# Written types

What a type expression says as it stands in a source, before any name in it is resolved.

* `TypeForm`, `NamePart` — the shapes of written types, and the parts of a dotted name.
* `TypeForm.read` — the written type of a node. Reading always succeeds: where a shape lacks its
  operand the form is `missing`, which matters only if that type is ever resolved.
-/

namespace ExtensionCensus.Source

open Text (Bytes)

mutual

/-- A type as written. -/
inductive TypeForm where
  | missing
  | predefined (word : String)
  | name (parts : List NamePart)
  | nullable (underlying : TypeForm)
  | array (element : TypeForm) (ranks : List Nat)
  | pointer (target : TypeForm)
  | functionPointer (signature : String)
  | tuple (elements : List TypeForm) (written : String)
  | wrapped (inner : TypeForm)
  | inferred
  | other (kind text : String)

/-- One part of a dotted name: an identifier and its type arguments. The part that names an
alias before `::` keeps the two colons. -/
inductive NamePart where
  | mk (name : String) (args : List TypeForm)

end

instance : Inhabited TypeForm := ⟨.missing⟩

/-- Whether the form is one with a question mark. -/
def TypeForm.isNullable : TypeForm → Bool
  | .nullable _ => true
  | _ => false

/-- The number of dimensions that an array rank specifier writes. -/
def rankOf (n : Node) (source : Bytes) : Nat :=
  (n.text source).toList.count ',' + 1

/-- The text of a node without white space. -/
def compactText (n : Node) (source : Bytes) : String :=
  Text.compact (n.text source)

/-- The two halves of a qualified name: its fields, or its first and last named children. -/
def qualifiedHalves? (n : Node) : Option (Node × Node) :=
  match n.field? "qualifier", n.field? "name" with
  | some qualifier, some name => some (qualifier, name)
  | _, _ =>
    match n.named.head?, n.named.getLast? with
    | some qualifier, some name => some (qualifier, name)
    | _, _ => none

theorem mem_of_qualifiedHalves? {n : Node} {halves : Node × Node}
    (h : qualifiedHalves? n = some halves) :
    halves.1 ∈ n.children ∧ halves.2 ∈ n.children := by
  unfold qualifiedHalves? at h
  split at h
  · next hq hn =>
    cases h
    exact ⟨Node.mem_of_field? hq, Node.mem_of_field? hn⟩
  · split at h
    · next hq hn =>
      cases h
      exact ⟨Node.mem_of_named (List.mem_of_head? hq), Node.mem_of_named (List.mem_of_getLast? hn)⟩
    · cases h

mutual

/-- The written type of a node. -/
def TypeForm.read (source : Bytes) (n : Node) : TypeForm :=
  match n.kind with
  | "predefined_type" => .predefined (n.text source)
  | "identifier" | "generic_name" | "qualified_name" | "alias_qualified_name" =>
    match readParts source n with
    | some parts => .name parts
    | none => .missing
  | "nullable_type" => .nullable (readOperand source n (n.fieldOrFirst? "type") fun _ h =>
      Node.mem_of_fieldOrFirst? h)
  | "array_type" =>
    .array (readOperand source n (n.fieldOrFirst? "type") fun _ h => Node.mem_of_fieldOrFirst? h)
      ((n.children.filter (·.kind = "array_rank_specifier")).map (rankOf · source))
  | "pointer_type" => .pointer (readOperand source n (n.fieldOrFirst? "type") fun _ h =>
      Node.mem_of_fieldOrFirst? h)
  | "function_pointer_type" => .functionPointer (n.text source)
  | "tuple_type" =>
    .tuple ((n.children.attach.filter fun e => e.1.isNamed && e.1.kind = "tuple_element").map
      fun ⟨e, _⟩ => readOperand source e (e.fieldOrFirst? "type") fun _ h =>
        Node.mem_of_fieldOrFirst? h) (compactText n source)
  | "ref_type" | "scoped_type" =>
    .wrapped (readOperand source n (n.fieldOrLast? "type") fun _ h => Node.mem_of_fieldOrLast? h)
  | "implicit_type" => .inferred
  | _ => .other n.kind (n.text source)
termination_by 3 * sizeOf n + 2
decreasing_by
  all_goals try have := Node.size_lt_of_mem ‹_ ∈ n.children›
  all_goals omega

/-- The written type of a child that may be missing. -/
def readOperand (source : Bytes) (n : Node) (child : Option Node)
    (isChild : ∀ c, child = some c → c ∈ n.children) : TypeForm :=
  match child with
  | some c => TypeForm.read source c
  | none => .missing
termination_by 3 * sizeOf n + 1
decreasing_by
  have := Node.size_lt_of_mem (isChild _ rfl)
  omega

/-- The parts of a dotted name, unless one that it is made of is missing. -/
def readParts (source : Bytes) (n : Node) : Option (List NamePart) :=
  match n.kind with
  | "qualified_name" =>
    match _h : qualifiedHalves? n with
    | some (qualifier, name) =>
      (readParts source qualifier).bind fun front => (readParts source name).map (front ++ ·)
    | none => none
  | "alias_qualified_name" =>
    match n.fieldOrFirst? "alias", _h : n.fieldOrLast? "name" with
    | some aliasNode, some name =>
      (readParts source name).map (.mk (aliasNode.text source ++ "::") [] :: ·)
    | _, _ => none
  | "generic_name" =>
    some [.mk (Node.textOf (n.fieldOrChild? "name" "identifier") source)
      (match _h : n.child? "type_argument_list" with
        | some list => list.named.attach.map fun ⟨a, _⟩ => TypeForm.read source a
        | none => [])]
  | _ => some [.mk (n.text source) []]
termination_by 3 * sizeOf n
decreasing_by
  · have := Node.size_lt_of_mem (mem_of_qualifiedHalves? _h).1; simp at this; omega
  · have := Node.size_lt_of_mem (mem_of_qualifiedHalves? _h).2; simp at this; omega
  · have := Node.size_lt_of_mem (Node.mem_of_fieldOrLast? _h); omega
  · have := Node.size_lt_of_mem (Node.mem_of_child? _h)
    have := Node.size_lt_of_mem (Node.mem_of_named ‹_ ∈ list.named›)
    omega

end

/-- The written type of a declaration's node: what it declares or returns. -/
def TypeForm.ofDeclaration? (source : Bytes) (n : Node) : Option TypeForm :=
  ((n.field? "type").or (n.field? "returns")).map (TypeForm.read source)

end ExtensionCensus.Source
