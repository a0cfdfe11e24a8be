import ExtensionCensus.Proofs.Source.Written

/-!
# Operands

A node for a shape of types, such as an array or a pointer, has a child for the type that the shape
is put on.  Where a tree lacks that child, what is read off it lacks an operand.

* `TypeForm.Complete` — no operand is missing in a written type, and `MethodForm.Complete`,
  `TypeDeclaration.Complete`, … — nor in a declaration;
* `Node.hasOperands` — no operand is missing in a tree;
* `complete_read` — types that are read off such a tree;
* `complete_readItems` — **nothing that is read off such a tree lacks an operand**.
-/

namespace ExtensionCensus.Source

open Text (Bytes)

/-! ### What is written -/

mutual

/-- No operand is missing in a written type. -/
inductive TypeForm.Complete : TypeForm → Prop where
  | predefined (word : String) : TypeForm.Complete (.predefined word)
  | name {parts : List NamePart} (h : ∀ part ∈ parts, NamePart.Complete part) :
      TypeForm.Complete (.name parts)
  | nullable {underlying : TypeForm} (h : TypeForm.Complete underlying) :
      TypeForm.Complete (.nullable underlying)
  | array {element : TypeForm} (ranks : List Nat) (h : TypeForm.Complete element) :
      TypeForm.Complete (.array element ranks)
  | pointer {target : TypeForm} (h : TypeForm.Complete target) :
      TypeForm.Complete (.pointer target)
  | functionPointer (signature : String) : TypeForm.Complete (.functionPointer signature)
  | tuple {elements : List TypeForm} (written : String)
      (h : ∀ element ∈ elements, TypeForm.Complete element) :
      TypeForm.Complete (.tuple elements written)
  | wrapped {inner : TypeForm} (h : TypeForm.Complete inner) : TypeForm.Complete (.wrapped inner)
  | inferred : TypeForm.Complete .inferred
  | other (kind text : String) : TypeForm.Complete (.other kind text)

/-- No operand is missing in the arguments of a part of a name. -/
inductive NamePart.Complete : NamePart → Prop where
  | mk (name : String) {args : List TypeForm} (h : ∀ arg ∈ args, TypeForm.Complete arg) :
      NamePart.Complete (.mk name args)

end

/-- No operand is missing in a constraint. -/
abbrev ConstraintForm.Complete (c : ConstraintForm) : Prop :=
  c.All TypeForm.Complete

/-- No operand is missing in a `where` clause. -/
abbrev ConstraintClause.Complete (c : ConstraintClause) : Prop :=
  c.All TypeForm.Complete

/-- No operand is missing in a type that may be written. -/
def CompleteIfWritten (type : Option TypeForm) : Prop :=
  ∀ t ∈ type, t.Complete

/-- No operand is missing in a method. -/
abbrev MethodForm.Complete (m : MethodForm) : Prop :=
  m.All TypeForm.Complete

/-- No operand is missing in a member. -/
abbrev MemberForm.Complete (m : MemberForm) : Prop :=
  m.All TypeForm.Complete

/-- No operand is missing in a part of a type, but for the types nested in it. -/
abbrev TypeDeclaration.Complete (d : TypeDeclaration) : Prop :=
  d.All TypeForm.Complete

/-! ### Trees -/

/-- The kinds of nodes that put a shape on a type. -/
def shapeKinds : List String :=
  ["nullable_type", "array_type", "pointer_type", "ref_type", "scoped_type", "tuple_element"]

namespace Node

/-- The children that a node of its kind is made of are there. -/
def hasOperand (n : Node) : Bool :=
  if shapeKinds.contains n.kind then (n.field? "type").isSome || !n.named.isEmpty
  else if n.kind = "qualified_name" then
    ((n.field? "qualifier").isSome && (n.field? "name").isSome) || !n.named.isEmpty
  else if n.kind = "alias_qualified_name" then
    ((n.field? "alias").isSome && (n.field? "name").isSome) || !n.named.isEmpty
  else true

/-- No operand is missing in a tree. -/
def hasOperands (n : Node) : Bool :=
  n.hasOperand && n.children.attach.all fun ⟨c, _⟩ => c.hasOperands
termination_by sizeOf n
decreasing_by exact size_lt_of_mem ‹_ ∈ n.children›

theorem hasOperands_iff {n : Node} :
    n.hasOperands = true ↔ n.hasOperand = true ∧ ∀ c ∈ n.children, c.hasOperands = true := by
  rw [hasOperands, Bool.and_eq_true, List.all_eq_true]
  simp

theorem hasOperands_of_mem {n c : Node} (h : n.hasOperands = true) (hc : c ∈ n.children) :
    c.hasOperands = true :=
  (hasOperands_iff.mp h).2 c hc

/-- A node stays as complete when it loses the name of its field. -/
theorem hasOperands_field {n : Node} (h : n.hasOperands = true) (field : String) :
    { n with field := field }.hasOperands = true := by
  obtain ⟨hown, hinside⟩ := hasOperands_iff.mp h
  exact hasOperands_iff.mpr ⟨hown, hinside⟩

theorem exists_fieldOrFirst? {n : Node} {name : String}
    (h : ((n.field? name).isSome || !n.named.isEmpty) = true) :
    ∃ c, n.fieldOrFirst? name = some c := by
  rw [← Option.isSome_iff_exists, fieldOrFirst?, Option.isSome_or]
  cases hn : n.named with
  | nil => simpa [hn] using h
  | cons c rest => simp

theorem exists_fieldOrLast? {n : Node} {name : String}
    (h : ((n.field? name).isSome || !n.named.isEmpty) = true) :
    ∃ c, n.fieldOrLast? name = some c := by
  rw [← Option.isSome_iff_exists, fieldOrLast?, Option.isSome_or]
  cases hn : n.named with
  | nil => simpa [hn] using h
  | cons c rest => simp

/-- A node that puts a shape on a type has a child for it. -/
theorem operand_of_shape {n : Node} (h : n.hasOperands = true) (hk : n.kind ∈ shapeKinds) :
    ((n.field? "type").isSome || !n.named.isEmpty) = true := by
  have hown := (hasOperands_iff.mp h).1
  rw [hasOperand, if_pos (List.contains_iff_mem.mpr hk)] at hown
  exact hown

/-- Of a node that has two fields, or a named child, both halves are there. -/
theorem halves_of_operand {n : Node} {first second : String}
    (h : (((n.field? first).isSome && (n.field? second).isSome) || !n.named.isEmpty) = true) :
    ((n.field? first).isSome || !n.named.isEmpty) = true ∧
      ((n.field? second).isSome || !n.named.isEmpty) = true := by
  rcases Bool.or_eq_true_iff.mp h with hboth | hnamed
  · obtain ⟨hfirst, hsecond⟩ := Bool.and_eq_true_iff.mp hboth
    exact ⟨by rw [hfirst, Bool.true_or], by rw [hsecond, Bool.true_or]⟩
  · exact ⟨by rw [hnamed, Bool.or_true], by rw [hnamed, Bool.or_true]⟩

end Node

/-! ### Types that are read -/

/-- A qualified name in a tree that lacks no operand has its two halves. -/
theorem exists_qualifiedHalves? {n : Node} (h : n.hasOperands = true)
    (hk : n.kind = "qualified_name") : ∃ halves, qualifiedHalves? n = some halves := by
  have hown := (Node.hasOperands_iff.mp h).1
  rw [Node.hasOperand, hk] at hown
  rw [qualifiedHalves?]
  split
  · next qualifier name _ _ => exact ⟨(qualifier, name), rfl⟩
  · next hfields =>
    cases hn : n.named with
    | cons first rest =>
      rw [List.head?_cons, List.getLast?_cons]
      exact ⟨_, rfl⟩
    | nil =>
      -- without a named child both fields are there
      have hboth : ((n.field? "qualifier").isSome && (n.field? "name").isSome) = true := by
        simpa [shapeKinds, hn] using hown
      obtain ⟨hqualifier, hname⟩ := Bool.and_eq_true_iff.mp hboth
      obtain ⟨qualifier, hqualifier⟩ := Option.isSome_iff_exists.mp hqualifier
      obtain ⟨name, hname⟩ := Option.isSome_iff_exists.mp hname
      exact absurd hname (hfields qualifier name hqualifier)

/-- A name behind an alias in such a tree has its two halves. -/
theorem exists_aliasHalves {n : Node} (h : n.hasOperands = true)
    (hk : n.kind = "alias_qualified_name") :
    (∃ c, n.fieldOrFirst? "alias" = some c) ∧ ∃ c, n.fieldOrLast? "name" = some c := by
  have hown := (Node.hasOperands_iff.mp h).1
  rw [Node.hasOperand, hk] at hown
  obtain ⟨halias, hname⟩ := Node.halves_of_operand hown
  exact ⟨Node.exists_fieldOrFirst? halias, Node.exists_fieldOrLast? hname⟩

section

variable {source : Bytes}

mutual

/-- What is read off a type in a tree that lacks no operand is complete. -/
theorem complete_read (n : Node) (h : n.hasOperands = true) : (TypeForm.read source n).Complete := by
  have hshape : n.kind ∈ shapeKinds → ∀ child,
      (((n.field? "type").isSome || !n.named.isEmpty) = true → ∃ c, child = some c) →
      ∀ isChild, (readOperand source n child isChild).Complete := by
    intro hk child hchild isChild
    exact complete_readOperand n h child isChild (hchild (Node.operand_of_shape h hk))
  have hname : (match readParts source n with
      | some parts => TypeForm.name parts
      | none => .missing).Complete := by
    obtain ⟨parts, hparts, hcomplete⟩ := complete_readParts n h
    rw [hparts]
    exact .name hcomplete
  rw [TypeForm.read]
  split
  · exact .predefined _
  · exact hname
  · exact hname
  · exact hname
  · exact hname
  · next hk => exact .nullable (hshape (by rw [hk]; decide) _ Node.exists_fieldOrFirst? _)
  · next hk => exact .array _ (hshape (by rw [hk]; decide) _ Node.exists_fieldOrFirst? _)
  · next hk => exact .pointer (hshape (by rw [hk]; decide) _ Node.exists_fieldOrFirst? _)
  · exact .functionPointer _
  · refine .tuple _ fun element helement => ?_
    obtain ⟨⟨e, hmem⟩, hfilter, rfl⟩ := List.mem_map.mp helement
    have he := Node.hasOperands_of_mem h hmem
    have hk : e.kind = "tuple_element" := by
      simpa using (Bool.and_eq_true_iff.mp (List.mem_filter.mp hfilter).2).2
    exact complete_readOperand e he _ _
      (Node.exists_fieldOrFirst? (Node.operand_of_shape he (by rw [hk]; decide)))
  · next hk => exact .wrapped (hshape (by rw [hk]; decide) _ Node.exists_fieldOrLast? _)
  · next hk => exact .wrapped (hshape (by rw [hk]; decide) _ Node.exists_fieldOrLast? _)
  · exact .inferred
  · exact .other _ _
termination_by 3 * sizeOf n + 2
decreasing_by
  · omega
  · omega
  · have := Node.size_lt_of_mem hmem
    omega

theorem complete_readOperand (n : Node) (h : n.hasOperands = true) (child : Option Node)
    (isChild : ∀ c, child = some c → c ∈ n.children) (hchild : ∃ c, child = some c) :
    (readOperand source n child isChild).Complete := by
  obtain ⟨c, rfl⟩ := hchild
  have hc := isChild c rfl
  rw [readOperand]
  exact complete_read c (Node.hasOperands_of_mem h hc)
termination_by 3 * sizeOf n + 1
decreasing_by
  have := Node.size_lt_of_mem hc
  omega

/-- The parts of a name in such a tree are there, and complete. -/
theorem complete_readParts (n : Node) (h : n.hasOperands = true) :
    ∃ parts, readParts source n = some parts ∧ ∀ part ∈ parts, part.Complete := by
  rw [readParts]
  split
  · next hk =>
    obtain ⟨⟨qualifier, name⟩, hhalves⟩ := exists_qualifiedHalves? h hk
    obtain ⟨hqualifier, hname⟩ : qualifier ∈ n.children ∧ name ∈ n.children :=
      mem_of_qualifiedHalves? hhalves
    obtain ⟨front, hfront, hcomplete⟩ :=
      complete_readParts qualifier (Node.hasOperands_of_mem h hqualifier)
    obtain ⟨back, hback, hcomplete'⟩ := complete_readParts name (Node.hasOperands_of_mem h hname)
    refine ⟨front ++ back, ?_, fun part hp => ?_⟩
    · split
      · next hsome =>
        rw [hhalves] at hsome
        cases hsome
        rw [hfront, hback]
        rfl
      · next hnone =>
        rw [hhalves] at hnone
        cases hnone
    · rcases List.mem_append.mp hp with hp | hp
      · exact hcomplete part hp
      · exact hcomplete' part hp
  · next hk =>
    obtain ⟨⟨aliasNode, halias⟩, name, hname⟩ := exists_aliasHalves h hk
    have hmem := Node.mem_of_fieldOrLast? hname
    obtain ⟨back, hback, hcomplete⟩ := complete_readParts name (Node.hasOperands_of_mem h hmem)
    refine ⟨.mk (aliasNode.text source ++ "::") [] :: back, ?_, fun part hp => ?_⟩
    · split
      · next hsome hsome' =>
        rw [halias] at hsome
        rw [hname] at hsome'
        cases hsome
        cases hsome'
        rw [hback]
        rfl
      · next hnone => exact absurd hname (hnone _ _ halias)
    · rcases List.mem_cons.mp hp with rfl | hp
      · exact .mk _ fun arg harg => by cases harg
      · exact hcomplete part hp
  · refine ⟨_, rfl, fun part hp => ?_⟩
    rw [List.mem_singleton.mp hp]
    refine .mk _ fun arg harg => ?_
    split at harg
    · next list hlist =>
      obtain ⟨⟨a, hmem⟩, -, rfl⟩ := List.mem_map.mp harg
      have hchild := Node.mem_of_child? hlist
      have hargument := Node.mem_of_named hmem
      exact complete_read a
        (Node.hasOperands_of_mem (Node.hasOperands_of_mem h hchild) hargument)
    · cases harg
  · refine ⟨_, rfl, fun part hp => ?_⟩
    rw [List.mem_singleton.mp hp]
    exact .mk _ fun arg harg => by cases harg
termination_by 3 * sizeOf n
decreasing_by
  · have := Node.size_lt_of_mem hqualifier
    omega
  · have := Node.size_lt_of_mem hname
    omega
  · have := Node.size_lt_of_mem hmem
    omega
  · have := Node.size_lt_of_mem hchild
    have := Node.size_lt_of_mem hargument
    omega

end

/-! ### What is read -/

/-- Nodes of a tree that lacks no operand. -/
theorem yields_complete : Yields source (fun n => n.hasOperands = true) TypeForm.Complete where
  child h hc := Node.hasOperands_of_mem h hc
  field h name := Node.hasOperands_field h name
  type h := complete_read _ h
  missing h hkind hnone := by
    obtain ⟨inner, hinner⟩ :=
      Node.exists_fieldOrLast? (Node.operand_of_shape h (by rw [hkind]; decide))
    rw [hinner] at hnone
    cases hnone

/-- **Nothing that is read off a tree that lacks no operand lacks one.** -/
theorem complete_readItems {n : Node} (h : n.hasOperands = true) :
    ∀ item ∈ readItems source n, item.All TypeForm.Complete :=
  yields_complete.readItems n h

end

end ExtensionCensus.Source
