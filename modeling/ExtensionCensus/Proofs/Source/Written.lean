import ExtensionCensus.Source.Reading

/-!
# Everything that is written

A statement on written types is carried over to all that is read off a tree: to signatures, to the
members of types and to the items of a file.

* `MethodForm.All`, `TypeDeclaration.AllInside`, `Item.All`, … — every written type has a property;
* `Yields` — what is read off the nodes of a kind has the property, and such nodes have such children;
* `Yields.readMember?`, `Yields.read?` — members and declarations that are read;
* `Yields.readItems` — **every type in what is read off a tree has the property**.
-/

namespace ExtensionCensus.Source

open Text (Bytes)

/-! ### Written types in what is declared -/

section

variable (P : TypeForm → Prop)

/-- The type of a constraint has the property, if it is one. -/
def ConstraintForm.All : ConstraintForm → Prop
  | .keyword _ => True
  | .type t => P t

/-- The types in a `where` clause have the property. -/
def ConstraintClause.All (c : ConstraintClause) : Prop :=
  ∀ form ∈ c.constraints, form.All P

/-- The types in a signature have the property. -/
structure MethodForm.All (m : MethodForm) : Prop where
  constraints : ∀ c ∈ m.constraints, c.All P
  returns : ∀ r ∈ m.returns, ∀ t ∈ r.type, P t
  parameters : ∀ p ∈ m.parameters, ∀ t ∈ p.type, P t

/-- The types in a member have the property. -/
def MemberForm.All : MemberForm → Prop
  | .method m => m.All P
  | .values v => ∀ t ∈ v.type, P t

/-- A part of a type is read off a node, and the types in it have the property, but for those in
nested types. -/
structure TypeDeclaration.All (d : TypeDeclaration) : Prop where
  read : ∃ source n, TypeDeclaration.read? source n = some d
  constraints : ∀ c ∈ d.constraints, c.All P
  returns : ∀ t ∈ d.returns.type, P t
  parameters : ∀ p ∈ d.parameters, ∀ t ∈ p.type, P t
  members : ∀ m ∈ d.members, m.All P

/-- The types in a part of a type and in what is nested in it have the property. -/
inductive TypeDeclaration.AllInside : TypeDeclaration → Prop where
  | mk {d : TypeDeclaration} (own : d.All P)
      (nested : ∀ e ∈ d.nested, TypeDeclaration.AllInside e) : TypeDeclaration.AllInside d

/-- What a using directive gives a name to has the property. -/
def UsingForm.All : UsingForm → Prop
  | .space _ _ => True
  | .named _ _ target _ => P target

/-- The types in an item and in what stands in it have the property. -/
inductive Item.All : Item → Prop where
  | using {form : UsingForm} (h : form.All P) : Item.All (.using form)
  | block (name : String) {items : List Item} (h : ∀ item ∈ items, Item.All item) :
      Item.All (.block name items)
  | fileScoped (name : String) {items : List Item} (h : ∀ item ∈ items, Item.All item) :
      Item.All (.fileScoped name items)
  | group {items : List Item} (h : ∀ item ∈ items, Item.All item) : Item.All (.group items)
  | type {d : TypeDeclaration} (h : d.AllInside P) : Item.All (.type d)

end

/-! ### Nodes that are read -/

/-- The types that are read off some nodes have the property, and the nodes below those are again
such nodes. -/
structure Yields (source : Bytes) (Q : Node → Prop) (P : TypeForm → Prop) : Prop where
  child : ∀ {n c : Node}, Q n → c ∈ n.children → Q c
  field : ∀ {n : Node}, Q n → ∀ name, Q { n with field := name }
  type : ∀ {n : Node}, Q n → P (TypeForm.read source n)
  missing : ∀ {n : Node}, Q n → n.kind = "ref_type" → n.fieldOrLast? "type" = none → P .missing

namespace Yields

variable {source : Bytes} {Q : Node → Prop} {P : TypeForm → Prop}

/-! ### Signatures that are read -/

theorem readConstraintType (h : Yields source Q P) (n : Node) (hn : Q n) :
    P (Source.readConstraintType source n) := by
  rw [Source.readConstraintType]
  split
  · split
    · next inner hinner =>
      have hmem := Node.mem_of_fieldOrFirst? hinner
      exact readConstraintType h inner (h.child hn hmem)
    · exact h.type hn
  · exact h.type hn
termination_by sizeOf n
decreasing_by exact Node.size_lt_of_mem hmem

theorem readConstraints (h : Yields source Q P) {n : Node} (hn : Q n) :
    ∀ c ∈ Source.readConstraints source n, c.All P := by
  intro c hc form hform
  obtain ⟨clause, hclause, rfl⟩ := List.mem_map.mp hc
  have hclause' := h.child hn (List.mem_filter.mp hclause).1
  obtain ⟨⟨child, i⟩, hchild, rfl⟩ := List.mem_map.mp hform
  have hmem : child ∈ clause.children :=
    (List.mem_zipIdx' (List.mem_filter.mp hchild).1).2 ▸ List.getElem_mem _
  show (ConstraintForm.read source child).All P
  rw [ConstraintForm.read]
  split
  · trivial
  · exact h.readConstraintType child (h.child hclause' hmem)

/-- What may be read off a child of a node, if the node has it. -/
theorem map_read (h : Yields source Q P) {child : Option Node} (hq : ∀ c, child = some c → Q c) :
    ∀ t ∈ child.map (TypeForm.read source), P t := by
  intro t ht
  obtain ⟨c, hc, rfl⟩ := Option.map_eq_some_iff.mp ht
  exact h.type (hq c hc)

theorem readParameter (h : Yields source Q P) {n : Node} (hn : ∀ c ∈ n.children, Q c) :
    ∀ t ∈ (ParameterForm.read source n).type, P t := by
  refine h.map_read fun c hc => ?_
  obtain ⟨i, -, hi⟩ := Option.bind_eq_some_iff.mp hc
  exact hn c (List.mem_of_getElem? hi)

/-- The parts of an unwrapped parameter array stand in its list. -/
theorem mem_of_mem_looseParts {c : Node} : ∀ {nodes : List Node}, c ∈ looseParts nodes → c ∈ nodes
  | [], h => by cases h
  | first :: rest, h => by
    rw [looseParts] at h
    split at h
    · exact List.mem_cons_of_mem _ (mem_of_mem_looseParts h)
    · split at h
      · cases h
      · rcases List.mem_cons.mp h with rfl | h
        · exact List.mem_cons_self
        · exact List.mem_cons_of_mem _ (mem_of_mem_looseParts h)

/-- The children of the parameters in a list are such nodes, those of an unwrapped array included. -/
theorem gatherParameters (h : Yields source Q P) {nodes : List Node} (hq : ∀ c ∈ nodes, Q c) :
    ∀ p ∈ Source.gatherParameters nodes, ∀ c ∈ p.children, Q c := by
  induction nodes with
  | nil =>
    intro p hp
    cases hp
  | cons first rest ih =>
    have hrest := ih fun c hc => hq c (List.mem_cons_of_mem _ hc)
    intro p hp
    rw [Source.gatherParameters] at hp
    split at hp
    · rcases List.mem_cons.mp hp with rfl | hp
      · exact fun c hc => h.child (hq p List.mem_cons_self) hc
      · exact hrest p hp
    · split at hp
      · rcases List.mem_cons.mp hp with rfl | hp
        · intro c hc
          obtain ⟨part, hpart, rfl⟩ := List.mem_map.mp hc
          refine h.field (hq part ?_) ""
          rcases List.mem_cons.mp hpart with rfl | hpart
          · exact List.mem_cons_self
          · exact List.mem_cons_of_mem _ (mem_of_mem_looseParts hpart)
        · exact hrest p hp
      · exact hrest p hp

theorem readParameters (h : Yields source Q P) {n : Node} (hn : Q n) :
    ∀ p ∈ Source.readParameters source n, ∀ t ∈ p.type, P t := by
  intro p hp
  obtain ⟨node, hnode, rfl⟩ := List.mem_map.mp hp
  rw [parameterNodes] at hnode
  split at hnode
  · next list hlist =>
    have hinside := h.child hn (Node.mem_of_fieldOrChild? hlist)
    exact h.readParameter (h.gatherParameters (fun c hc => h.child hinside hc) node hnode)
  · cases hnode

/-- The type of a declaration is read off a child. -/
theorem mem_of_typeField {n c : Node} (h : (n.field? "type").or (n.field? "returns") = some c) :
    c ∈ n.children := by
  rcases Option.or_eq_some_iff.mp h with h | ⟨-, h⟩
  · exact Node.mem_of_field? h
  · exact Node.mem_of_field? h

theorem readReturn (h : Yields source Q P) {n : Node} (hn : Q n) :
    ∀ t ∈ (ReturnForm.read source n).type, P t := by
  intro t ht
  rw [ReturnForm.read] at ht
  split at ht
  · cases ht
  · next c hc =>
    have hc' := h.child hn (mem_of_typeField hc)
    split at ht
    · next hkind =>
      cases ht
      split
      · next inner hinner => exact h.type (h.child hc' (Node.mem_of_fieldOrLast? hinner))
      · next hnone => exact h.missing hc' hkind hnone
    · cases ht
      exact h.type hc'

theorem ofDeclaration? (h : Yields source Q P) {n : Node} (hn : Q n) :
    ∀ t ∈ TypeForm.ofDeclaration? source n, P t :=
  h.map_read fun _ hc => h.child hn (mem_of_typeField hc)

/-! ### Declarations that are read -/

theorem readMethod (h : Yields source Q P) {n : Node} (hn : Q n) (kind : MethodKind)
    (name : String) : (Source.readMethod source n kind name).All P :=
  ⟨fun c hc => (by cases hc), fun r hr => (by cases hr), h.readParameters hn⟩

theorem readOrdinary? (h : Yields source Q P) {n : Node} {m : MethodForm} (hn : Q n)
    (hm : Source.readOrdinary? source n = some m) : m.All P := by
  obtain ⟨nameNode, -, rfl⟩ := Option.map_eq_some_iff.mp hm
  refine ⟨h.readConstraints hn, fun r hr => ?_, h.readParameters hn⟩
  cases hr
  exact h.readReturn hn

theorem readConstructor (h : Yields source Q P) {n : Node} (hn : Q n) :
    (Source.readConstructor source n).All P := by
  have hmethod := h.readMethod hn .constructor ".ctor"
  rw [Source.readConstructor]
  split
  · exact ⟨hmethod.constraints, hmethod.returns, hmethod.parameters⟩
  · exact hmethod

/-- A method without constraints, with the return type and the parameters of its node. -/
theorem returning (h : Yields source Q P) {n : Node} (hn : Q n) (kind : MethodKind)
    (name : String) : ({ Source.readMethod source n kind name with
      returns := some (ReturnForm.read source n) } : MethodForm).All P := by
  refine ⟨fun c hc => (by cases hc), fun r hr => ?_, h.readParameters hn⟩
  cases hr
  exact h.readReturn hn

/-- Fields and events are of the type that their list writes. -/
theorem readVariables? (h : Yields source Q P) {n : Node} {v : ValueForm} (hn : Q n)
    {kind : ValueKind} (hv : Source.readVariables? source n kind = some v) :
    ∀ t ∈ v.type, P t := by
  obtain ⟨list, hlist, rfl⟩ := Option.map_eq_some_iff.mp hv
  exact h.ofDeclaration? (h.child hn (Node.mem_of_child? hlist))

/-- A member that is read off such a node. -/
theorem readMember? (h : Yields source Q P) {n : Node} {m : MemberForm} (hn : Q n)
    (hm : Source.readMember? source n = some m) : m.All P := by
  rw [Source.readMember?] at hm
  split at hm
  · obtain ⟨form, hform, rfl⟩ := Option.map_eq_some_iff.mp hm
    exact h.readOrdinary? hn hform
  · cases hm
    exact h.readConstructor hn
  · cases hm
    exact ⟨fun c hc => (by cases hc), fun r hr => (by cases hr), fun p hp => (by cases hp)⟩
  · cases hm
    exact h.returning hn _ _
  · cases hm
    exact h.returning hn _ _
  · obtain ⟨form, hform, rfl⟩ := Option.map_eq_some_iff.mp hm
    exact h.readVariables? hn hform
  · obtain ⟨form, hform, rfl⟩ := Option.map_eq_some_iff.mp hm
    exact h.readVariables? hn hform
  · obtain ⟨name, -, rfl⟩ := Option.map_eq_some_iff.mp hm
    exact h.ofDeclaration? hn
  · obtain ⟨name, -, rfl⟩ := Option.map_eq_some_iff.mp hm
    exact h.ofDeclaration? hn
  · cases hm
    exact h.ofDeclaration? hn
  · cases hm

/-- A declaration that is read off such a node, with everything nested in it. -/
theorem read? (h : Yields source Q P) (n : Node) (hn : Q n) {d : TypeDeclaration}
    (hd : TypeDeclaration.read? source n = some d) : d.AllInside P := by
  have hread : ∃ source n, TypeDeclaration.read? source n = some d := ⟨source, n, hd⟩
  rw [TypeDeclaration.read?] at hd
  split at hd
  · next kind nameNode hkind hname =>
    rw [Option.some.injEq] at hd
    subst hd
    refine .mk ⟨hread, h.readConstraints hn, h.readReturn hn, h.readParameters hn, fun m hm => ?_⟩
      fun e he => ?_
    · split at hm
      · next body hbody =>
        have hbody' := h.child hn (Node.mem_of_fieldOrChild? hbody)
        obtain ⟨c, hc, hread⟩ := List.mem_filterMap.mp hm
        exact h.readMember? (h.child hbody' hc) hread
      · cases hm
    · simp only at he
      split at he
      · next body hbody =>
        have hbodyChild := Node.mem_of_fieldOrChild? hbody
        have hbody' := h.child hn hbodyChild
        split at he
        · cases he
        · obtain ⟨⟨c, hc⟩, -, hread⟩ := List.mem_filterMap.mp he
          exact read? h c (h.child hbody' hc) hread
      · cases he
  · cases hd
termination_by sizeOf n
decreasing_by
  have := Node.size_lt_of_mem hbodyChild
  have := Node.size_lt_of_mem hc
  omega

theorem readUsing? (h : Yields source Q P) {n : Node} (hn : Q n) {form : UsingForm}
    (hform : UsingForm.read? source n = some form) : form.All P := by
  rw [UsingForm.read?] at hform
  simp only at hform
  split at hform
  · cases hform
  · split at hform
    · cases hform
    · next target htarget =>
      have hmem := Node.mem_of_named (List.mem_filter.mp (List.mem_of_getLast? htarget)).1
      split at hform
      · cases hform
        exact h.type (h.child hn hmem)
      · cases hform
        trivial

/-- **Every type in what is read off such a tree has the property.** -/
theorem readItems (h : Yields source Q P) (n : Node) (hn : Q n) :
    ∀ item ∈ Source.readItems source n, item.All P := by
  intro item hitem
  rw [Source.readItems] at hitem
  obtain ⟨⟨c, hc⟩, -, hread⟩ := List.mem_filterMap.mp hitem
  have hc' := h.child hn hc
  simp only at hread
  split at hread
  · obtain ⟨form, hform, rfl⟩ := Option.map_eq_some_iff.mp hread
    exact .using (h.readUsing? hc' hform)
  · cases hread
    refine .block _ fun item hitem => ?_
    split at hitem
    · next body hbody =>
      have hbodyChild := Node.mem_of_fieldOrChild? hbody
      exact readItems h body (h.child hc' hbodyChild) item hitem
    · cases hitem
  · cases hread
    exact .fileScoped _ (readItems h c hc')
  · split at hread
    · cases hread
      exact .group (readItems h c hc')
    · cases hread
  · obtain ⟨d, hd, rfl⟩ := Option.map_eq_some_iff.mp hread
    exact .type (h.read? c hc' hd)
termination_by sizeOf n
decreasing_by
  · have := Node.size_lt_of_mem hbodyChild
    have := Node.size_lt_of_mem hc
    omega
  · exact Node.size_lt_of_mem hc
  · exact Node.size_lt_of_mem hc

end Yields

end ExtensionCensus.Source
