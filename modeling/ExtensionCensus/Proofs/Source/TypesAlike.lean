import ExtensionCensus.Proofs.Source.Comment

/-!
# Trees with the same types

The readers of types ask a node for some of its children and read on there. Where they find the same
children in two trees, all the way down, they read the same types.

* `read_eq`, `readParts_eq` — the readers of types, as equations that do not mention where a child
  comes from;
* `TypesAlike` — a relation between trees that keeps every child that the readers of types ask for;
* `TypesAlike.read_type` — **related types are read as the same type**.
-/

namespace ExtensionCensus.Source

open Text (Bytes)

/-! ### The readers of types -/

/-- The written type of a child that may be missing. -/
def readChild (source : Bytes) (child : Option Node) : TypeForm :=
  (child.map (TypeForm.read source)).getD .missing

theorem readOperand_eq (source : Bytes) (n : Node) (child : Option Node)
    (isChild : ∀ c, child = some c → c ∈ n.children) :
    readOperand source n child isChild = readChild source child := by
  cases child with
  | none => rw [readOperand.eq_2]; rfl
  | some c => rw [readOperand.eq_1]; rfl

/-- The elements of a tuple, wherever they come from. -/
theorem map_attach_filter {α : Type} (q : Node → Bool) (f : Node → α) (nodes : List Node) :
    (nodes.attach.filter fun e => q e.1).map (fun e => f e.1) = (nodes.filter q).map f := by
  conv => rhs; rw [← List.attach_map_subtype_val nodes, List.filter_map, List.map_map]
  rfl

/-- The written type of a node, by its kind. -/
theorem read_eq (source : Bytes) (n : Node) : TypeForm.read source n =
    match n.kind with
    | "predefined_type" => .predefined (n.text source)
    | "identifier" | "generic_name" | "qualified_name" | "alias_qualified_name" =>
      match readParts source n with
      | some parts => .name parts
      | none => .missing
    | "nullable_type" => .nullable (readChild source (n.fieldOrFirst? "type"))
    | "array_type" => .array (readChild source (n.fieldOrFirst? "type"))
        ((n.children.filter (·.kind = "array_rank_specifier")).map (rankOf · source))
    | "pointer_type" => .pointer (readChild source (n.fieldOrFirst? "type"))
    | "function_pointer_type" => .functionPointer (n.text source)
    | "tuple_type" =>
      .tuple ((n.children.filter fun e => e.isNamed && e.kind = "tuple_element").map fun e =>
        readChild source (e.fieldOrFirst? "type")) (compactText n source)
    | "ref_type" | "scoped_type" => .wrapped (readChild source (n.fieldOrLast? "type"))
    | "implicit_type" => .inferred
    | _ => .other n.kind (n.text source) := by
  rw [TypeForm.read]
  simp only [readOperand_eq]
  rewrite [← map_attach_filter (fun e => e.isNamed && decide (e.kind = "tuple_element"))
    fun e => readChild source (e.fieldOrFirst? "type")]
  rfl

/-- The parts of a dotted name, by the kind of its node. -/
theorem readParts_eq (source : Bytes) (n : Node) : readParts source n =
    match n.kind with
    | "qualified_name" => (qualifiedHalves? n).bind fun halves =>
      (readParts source halves.1).bind fun front => (readParts source halves.2).map (front ++ ·)
    | "alias_qualified_name" => (n.fieldOrFirst? "alias").bind fun aliasNode =>
      (n.fieldOrLast? "name").bind fun name =>
        (readParts source name).map (.mk (aliasNode.text source ++ "::") [] :: ·)
    | "generic_name" =>
      some [.mk (Node.textOf (n.fieldOrChild? "name" "identifier") source)
        (((n.child? "type_argument_list").map fun list =>
          list.named.map (TypeForm.read source)).getD [])]
    | _ => some [.mk (n.text source) []] := by
  rw [readParts]
  by_cases hq : n.kind = "qualified_name"
  · simp only [hq]
    split
    · next hhalves => rw [hhalves]; rfl
    · next hnone => rw [hnone]; rfl
  by_cases ha : n.kind = "alias_qualified_name"
  · simp only [ha]
    split
    · next halias hname => rw [halias, hname]; rfl
    · next hmissing =>
      cases halias : n.fieldOrFirst? "alias" with
      | none => rfl
      | some aliasNode =>
        cases hname : n.fieldOrLast? "name" with
        | none => rfl
        | some name => exact absurd hname (hmissing aliasNode name halias)
  by_cases hg : n.kind = "generic_name"
  · simp only [hg]
    split
    · next list hlist =>
      rw [hlist]
      exact congrArg (fun args => some [NamePart.mk _ args]) List.attach_map_val
    · next hnone => rw [hnone]; rfl
  · calc
      _ = some [.mk (n.text source) []] := by split <;> first | contradiction | rfl
      _ = _ := by split <;> first | contradiction | rfl

theorem qualifiedHalves?_eq (n : Node) : qualifiedHalves? n =
    ((n.field? "qualifier").bind fun qualifier => (n.field? "name").map (qualifier, ·)).or
      (n.named.head?.bind fun qualifier => n.named.getLast?.map (qualifier, ·)) := by
  rw [qualifiedHalves?]
  cases n.field? "qualifier" <;> cases n.field? "name" <;> cases n.named.head? <;>
    cases n.named.getLast? <;> rfl

/-! ### What they ask for -/

/-- Two nodes, each related to one of two others. -/
def Both (R : Node → Node → Prop) (x y : Node × Node) : Prop :=
  R x.1 y.1 ∧ R x.2 y.2

theorem rel_both {R : Node → Node → Prop} {a a' b b' : Option Node} (h : Option.Rel R a a')
    (h' : Option.Rel R b b') :
    Option.Rel (Both R) (a.bind fun x => b.map (x, ·)) (a'.bind fun x => b'.map (x, ·)) := by
  cases h with
  | none => exact .none
  | some hx =>
    cases h' with
    | none => exact .none
    | some hy => exact .some ⟨hx, hy⟩

/-- A relation between the nodes of trees over two sources that keeps every child that the readers of
types ask for. -/
structure TypesAlike (source source' : Bytes) (R : Node → Node → Prop) : Prop where
  kind_eq {n n' : Node} : R n n' → n'.kind = n.kind
  text_eq {n n' : Node} : R n n' → n'.text source' = n.text source
  first {n n' : Node} : R n n' → n.kind ∈ firstOperandKinds →
    Option.Rel R (n.fieldOrFirst? "type") (n'.fieldOrFirst? "type")
  last {n n' : Node} : R n n' → n.kind ∈ lastOperandKinds →
    Option.Rel R (n.fieldOrLast? "type") (n'.fieldOrLast? "type")
  halves {n n' : Node} : R n n' → n.kind = "qualified_name" →
    Option.Rel (Both R) (qualifiedHalves? n) (qualifiedHalves? n')
  aliasName {n n' : Node} : R n n' → n.kind = "alias_qualified_name" →
    Option.Rel R (n.fieldOrFirst? "alias") (n'.fieldOrFirst? "alias")
  aliased {n n' : Node} : R n n' → n.kind = "alias_qualified_name" →
    Option.Rel R (n.fieldOrLast? "name") (n'.fieldOrLast? "name")
  genericName {n n' : Node} : R n n' → n.kind = "generic_name" →
    Option.Rel R (n.fieldOrChild? "name" "identifier") (n'.fieldOrChild? "name" "identifier")
  argumentList {n n' : Node} : R n n' → n.kind = "generic_name" →
    Option.Rel R (n.child? "type_argument_list") (n'.child? "type_argument_list")
  arguments {n n' : Node} : R n n' → n.kind = "type_argument_list" →
    List.Forall₂ R n.named n'.named
  ranks {n n' : Node} : R n n' → n.kind = "array_type" →
    List.Forall₂ R (n.children.filter (·.kind = "array_rank_specifier"))
      (n'.children.filter (·.kind = "array_rank_specifier"))
  elements {n n' : Node} : R n n' → n.kind = "tuple_type" →
    List.Forall₂ R (n.children.filter fun e => e.isNamed && e.kind = "tuple_element")
      (n'.children.filter fun e => e.isNamed && e.kind = "tuple_element")

/-! ### Related types -/

namespace TypesAlike

variable {source source' : Bytes} {R : Node → Node → Prop} {n n' : Node}

theorem compactText_eq (alike : TypesAlike source source' R) (h : R n n') :
    compactText n' source' = compactText n source := by
  rw [compactText, compactText, alike.text_eq h]

theorem textOf_eq (alike : TypesAlike source source' R) {a b : Option Node}
    (h : Option.Rel R a b) : Node.textOf b source' = Node.textOf a source := by
  cases h with
  | none => rfl
  | some hc => exact alike.text_eq hc

/-- The parts of names are read in the same way if types and names are at the children. -/
theorem readParts_of_children (alike : TypesAlike source source' R)
    (hinside : ∀ c, sizeOf c < sizeOf n → ∀ c', R c c' →
      TypeForm.read source' c' = TypeForm.read source c ∧ readParts source' c' = readParts source c)
    (h : R n n') : readParts source' n' = readParts source n := by
  rw [readParts_eq, readParts_eq, alike.kind_eq h]
  split
  · next hk =>
    refine bind_eq_of_rel (alike.halves h hk) fun halves hhalves halves' hboth => ?_
    obtain ⟨hqualifier, hname⟩ := mem_of_qualifiedHalves? hhalves
    rw [(hinside _ (Node.size_lt_of_mem hqualifier) _ hboth.1).2,
      (hinside _ (Node.size_lt_of_mem hname) _ hboth.2).2]
  · next hk =>
    refine bind_eq_of_rel (alike.aliasName h hk) fun aliasNode _ aliasNode' halias => ?_
    refine bind_eq_of_rel (alike.aliased h hk) fun name hname name' hrel => ?_
    rw [alike.text_eq halias,
      (hinside name (Node.size_lt_of_mem (Node.mem_of_fieldOrLast? hname)) _ hrel).2]
  · next hk =>
    rw [alike.textOf_eq (alike.genericName h hk),
      map_eq_of_rel (alike.argumentList h hk) fun list hlist list' hrel => ?_]
    have hkind : list.kind = "type_argument_list" := by
      simpa using List.find?_some hlist
    refine map_eq_of_forall₂ (alike.arguments hrel hkind) fun a ha a' harg => (hinside a ?_ a' harg).1
    have := Node.size_lt_of_mem (Node.mem_of_child? hlist)
    have := Node.size_lt_of_mem (Node.mem_of_named ha)
    omega
  · rw [alike.text_eq h]

/-- The child that a shape is put on is read in the same way. -/
theorem readChild_of_children {a b : Option Node}
    (hinside : ∀ c, sizeOf c < sizeOf n → ∀ c', R c c' →
      TypeForm.read source' c' = TypeForm.read source c ∧ readParts source' c' = readParts source c)
    (hmem : ∀ c, a = some c → c ∈ n.children) (h : Option.Rel R a b) :
    readChild source' b = readChild source a :=
  congrArg (·.getD TypeForm.missing) <| map_eq_of_rel h fun c hc c' hrel =>
    (hinside c (Node.size_lt_of_mem (hmem c hc)) c' hrel).1

/-- A written type and the parts of a dotted name are read in the same way. -/
theorem read_type_and_parts (alike : TypesAlike source source' R) (n : Node) (n' : Node)
    (h : R n n') :
    TypeForm.read source' n' = TypeForm.read source n ∧
      readParts source' n' = readParts source n := by
  have hinside : ∀ c, sizeOf c < sizeOf n → ∀ c', R c c' →
      TypeForm.read source' c' = TypeForm.read source c ∧
        readParts source' c' = readParts source c :=
    fun c _hlt c' hc => read_type_and_parts alike c c' hc
  have hparts := alike.readParts_of_children hinside h
  have hfirst : n.kind ∈ firstOperandKinds →
      readChild source' (n'.fieldOrFirst? "type") = readChild source (n.fieldOrFirst? "type") :=
    fun hk => readChild_of_children hinside (fun _ hc => Node.mem_of_fieldOrFirst? hc)
      (alike.first h hk)
  have hlast : n.kind ∈ lastOperandKinds →
      readChild source' (n'.fieldOrLast? "type") = readChild source (n.fieldOrLast? "type") :=
    fun hk => readChild_of_children hinside (fun _ hc => Node.mem_of_fieldOrLast? hc)
      (alike.last h hk)
  refine ⟨?_, hparts⟩
  rw [read_eq, read_eq, alike.kind_eq h, hparts, alike.text_eq h]
  split
  · rfl
  · rfl
  · rfl
  · rfl
  · rfl
  · next hk => rw [hfirst (by rw [hk]; decide)]
  · next hk =>
    rw [hfirst (by rw [hk]; decide), map_eq_of_forall₂ (alike.ranks h hk) fun c _ c' hc => ?_]
    rw [rankOf, rankOf, alike.text_eq hc]
  · next hk => rw [hfirst (by rw [hk]; decide)]
  · rfl
  · next hk =>
    rw [alike.compactText_eq h, map_eq_of_forall₂ (alike.elements h hk) fun e he e' hrel => ?_]
    obtain ⟨hmem, he⟩ := List.mem_filter.mp he
    have hkind : e.kind = "tuple_element" := by
      simpa using (Bool.and_eq_true_iff.mp he).2
    have hsmall := Node.size_lt_of_mem hmem
    exact readChild_of_children (fun c hlt c' hc => hinside c (by omega) c' hc)
      (fun _ hc => Node.mem_of_fieldOrFirst? hc) (alike.first hrel (by rw [hkind]; decide))
  · next hk => rw [hlast (by rw [hk]; decide)]
  · next hk => rw [hlast (by rw [hk]; decide)]
  · rfl
  · rfl
termination_by sizeOf n
decreasing_by exact _hlt

/-- **A type is read as the same type.** -/
theorem read_type (alike : TypesAlike source source' R) (h : R n n') :
    TypeForm.read source' n' = TypeForm.read source n :=
  (alike.read_type_and_parts n n' h).1

theorem map_read_eq (alike : TypesAlike source source' R) {a b : Option Node}
    (h : Option.Rel R a b) : b.map (TypeForm.read source') = a.map (TypeForm.read source) :=
  map_eq_of_rel h fun _ _ _ hc => alike.read_type hc

end TypesAlike

end ExtensionCensus.Source
