import ExtensionCensus.Proofs.Source.TypesAlike

/-!
# Types in respelled trees

The children that readers ask for, and the written types that are read off them, are the same in a
tree over other bytes with the same texts and with comments at places that are overlooked.

* `Respelled.rel_field?`, `Respelled.rel_fieldOrFirst?`, … — the children that readers ask for are
  the same, respelled;
* `Respelled.typesAlike` — **the readers of types find the same children, so that a respelled type is
  read as the same type**.
-/

namespace ExtensionCensus.Source

open Text (Bytes)

section

variable {source source' : Bytes} {n n' : Node}

/-! ### Asking for children -/

namespace Respelled

theorem rel_field? (h : Respelled source source' n n') (name : String) (hname : name ≠ "") :
    Option.Rel (Respelled source source') (n.field? name) (n'.field? name) :=
  h.woven.find? (fun hc => by rw [hc.field_eq])
    (fun hk _ hq => by rw [Node.field_ne_of_isComment hk hname] at hq; cases hq) rfl

theorem rel_child? (h : Respelled source source' n n') (kind : String) (hkind : kind ≠ "comment") :
    Option.Rel (Respelled source source') (n.child? kind) (n'.child? kind) :=
  h.woven.find? (fun hc => by rw [hc.kind_eq])
    (fun hk _ hq => by rw [Node.kind_ne_of_isComment hk hkind] at hq; cases hq) rfl

theorem rel_fieldOrChild? (h : Respelled source source' n n') (name kind : String)
    (hname : name ≠ "") (hkind : kind ≠ "comment") :
    Option.Rel (Respelled source source') (n.fieldOrChild? name kind) (n'.fieldOrChild? name kind) :=
  rel_or (h.rel_field? name hname) (h.rel_child? kind hkind)

/-- The children of a kind that no comment has. -/
theorem forall₂_ofKind (h : Respelled source source' n n') (kind : String)
    (hkind : kind ≠ "comment") :
    List.Forall₂ (Respelled source source') (n.children.filter (·.kind = kind))
      (n'.children.filter (·.kind = kind)) :=
  h.woven.filter (fun hc => by rw [hc.kind_eq]) fun hk => Node.kind_ne_of_isComment hk hkind

/-- The first named child, if one stands in front of every comment. -/
theorem rel_head?_named (h : Respelled source source' n n')
    (hfirst : ∀ front rest, Overlooks source n front rest → hasNamed front) :
    Option.Rel (Respelled source source') n.named.head? n'.named.head? := by
  rw [Node.named, Node.named, List.head?_filter, List.head?_filter]
  exact h.woven.find? (fun hc => hc.isNamed_eq) (fun _ ho _ => hfirst _ _ ho) rfl

/-- The last named child, if one stands behind every comment. -/
theorem rel_getLast?_named (h : Respelled source source' n n')
    (hlast : ∀ front rest, Overlooks source n front rest → hasNamed rest) :
    Option.Rel (Respelled source source') n.named.getLast? n'.named.getLast? :=
  h.woven.getLast? (fun hc => hc.isNamed_eq) fun ho => hlast _ _ ho

theorem rel_fieldOrFirst? (h : Respelled source source' n n') (name : String) (hname : name ≠ "")
    (hfirst : ∀ front rest, Overlooks source n front rest →
      (n.field? name).isSome ∨ hasNamed front) :
    Option.Rel (Respelled source source') (n.fieldOrFirst? name) (n'.fieldOrFirst? name) := by
  have hfield := h.rel_field? name hname
  rw [Node.fieldOrFirst?, Node.fieldOrFirst?]
  cases hn : n.field? name with
  | some c =>
    rw [hn] at hfield
    exact rel_some_or hfield _ _
  | none =>
    refine rel_or (hn ▸ hfield) (h.rel_head?_named fun front rest ho => ?_)
    refine (hfirst front rest ho).resolve_left fun hsome => ?_
    rw [hn] at hsome
    cases hsome

theorem rel_fieldOrLast? (h : Respelled source source' n n') (name : String) (hname : name ≠ "")
    (hlast : ∀ front rest, Overlooks source n front rest →
      (n.field? name).isSome ∨ hasNamed rest) :
    Option.Rel (Respelled source source') (n.fieldOrLast? name) (n'.fieldOrLast? name) := by
  have hfield := h.rel_field? name hname
  rw [Node.fieldOrLast?, Node.fieldOrLast?]
  cases hn : n.field? name with
  | some c =>
    rw [hn] at hfield
    exact rel_some_or hfield _ _
  | none =>
    refine rel_or (hn ▸ hfield) (h.rel_getLast?_named fun front rest ho => ?_)
    refine (hlast front rest ho).resolve_left fun hsome => ?_
    rw [hn] at hsome
    cases hsome

/-- The child that the shape of a type is put on. -/
theorem rel_firstOperand (h : Respelled source source' n n') (hk : n.kind ∈ firstOperandKinds) :
    Option.Rel (Respelled source source') (n.fieldOrFirst? "type") (n'.fieldOrFirst? "type") :=
  h.rel_fieldOrFirst? "type" (by decide) fun _ _ ho => ho.first hk

theorem rel_lastOperand (h : Respelled source source' n n') (hk : n.kind ∈ lastOperandKinds) :
    Option.Rel (Respelled source source') (n.fieldOrLast? "type") (n'.fieldOrLast? "type") :=
  h.rel_fieldOrLast? "type" (by decide) fun _ _ ho => ho.last hk

/-- The children of a node of which every named child is read. -/
theorem forall₂_counted (h : Respelled source source' n n') (hk : n.kind ∈ countedKinds) :
    List.Forall₂ (Respelled source source') n.children n'.children :=
  h.woven.forall₂ fun ho => ho.counted hk

theorem rel_qualifiedHalves? (h : Respelled source source' n n') (hk : n.kind = "qualified_name") :
    Option.Rel (Both (Respelled source source')) (qualifiedHalves? n) (qualifiedHalves? n') := by
  have hfields := rel_both (h.rel_field? "qualifier" (by decide))
    (h.rel_field? "name" (by decide))
  rw [qualifiedHalves?_eq, qualifiedHalves?_eq]
  cases hn : (n.field? "qualifier").bind fun qualifier => (n.field? "name").map (qualifier, ·) with
  | some halves =>
    rw [hn] at hfields
    exact rel_some_or hfields _ _
  | none =>
    have hover : ∀ front rest, Overlooks source n front rest → hasNamed front ∧ hasNamed rest := by
      intro front rest ho
      refine (ho.qualified hk).resolve_left fun ⟨hqualifier, hname⟩ => ?_
      obtain ⟨qualifier, hqualifier⟩ := Option.isSome_iff_exists.mp hqualifier
      obtain ⟨name, hname⟩ := Option.isSome_iff_exists.mp hname
      rw [hqualifier, hname] at hn
      cases hn
    exact rel_or (hn ▸ hfields) (rel_both
      (h.rel_head?_named fun front rest ho => (hover front rest ho).1)
      (h.rel_getLast?_named fun front rest ho => (hover front rest ho).2))

/-- The named children of a node of which every named child is read. -/
theorem forall₂_named_counted (h : Respelled source source' n n') (hk : n.kind ∈ countedKinds) :
    List.Forall₂ (Respelled source source') n.named n'.named :=
  List.rel_filter (fun _ _ hc => iff_of_eq (congrArg (· = true) hc.isNamed_eq.symm))
    (h.forall₂_counted hk)

/-! ### Types -/

/-- The readers of types find the same children. -/
theorem typesAlike (source source' : Bytes) :
    TypesAlike source source' (Respelled source source') where
  kind_eq h := h.kind_eq
  text_eq h := h.text_eq
  first h hk := h.rel_firstOperand hk
  last h hk := h.rel_lastOperand hk
  halves h hk := h.rel_qualifiedHalves? hk
  aliasName h hk := h.rel_fieldOrFirst? "alias" (by decide) fun _ _ ho => (ho.aliased hk).1
  aliased h hk := h.rel_fieldOrLast? "name" (by decide) fun _ _ ho => (ho.aliased hk).2
  genericName h _ := h.rel_fieldOrChild? "name" "identifier" (by decide) (by decide)
  argumentList h _ := h.rel_child? "type_argument_list" (by decide)
  arguments h hk := h.forall₂_named_counted (by rw [hk]; decide)
  ranks h _ := h.forall₂_ofKind "array_rank_specifier" (by decide)
  elements h _ := h.woven.filter (fun hc => by rw [hc.isNamed_eq, hc.kind_eq]) fun hk => by
    rw [Node.kind_ne_of_isComment hk (by decide), Bool.and_false]

end Respelled

end

end ExtensionCensus.Source
