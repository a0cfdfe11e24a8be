import ExtensionCensus.Proofs.Source.Written

/-!
# Names in sources

* `TypeForm.names` — the names that a written type asks for;
* `Node.identifiers` — the names that stand in a tree;
* `names_read` — a type that is read off a tree asks for names that stand there;
* `yields_names`, `names_readItems` — **nor does anything else in the tree ask for other names**.
-/

namespace ExtensionCensus.Source

open Text (Bytes)

/-! ### Names in what is written -/

mutual

/-- The names that a written type asks for. -/
def TypeForm.names : TypeForm → List String
  | .name parts => namesOfParts parts
  | .nullable underlying => underlying.names
  | .array element _ => element.names
  | .pointer target => target.names
  | .tuple elements _ => namesOfForms elements
  | .wrapped inner => inner.names
  | .missing | .predefined _ | .functionPointer _ | .inferred | .other _ _ => []

/-- The names that some written types ask for. -/
def namesOfForms : List TypeForm → List String
  | [] => []
  | form :: forms => form.names ++ namesOfForms forms

/-- The names that a part of a dotted name asks for: its own, and those in its arguments. -/
def NamePart.names : NamePart → List String
  | .mk name args => name :: namesOfForms args

/-- The names that the parts of a dotted name ask for. -/
def namesOfParts : List NamePart → List String
  | [] => []
  | part :: parts => part.names ++ namesOfParts parts

end

theorem namesOfForms_eq (forms : List TypeForm) :
    namesOfForms forms = forms.flatMap TypeForm.names := by
  induction forms with
  | nil => rfl
  | cons form forms ih => rw [namesOfForms, ih, List.flatMap_cons]

theorem namesOfParts_append (front back : List NamePart) :
    namesOfParts (front ++ back) = namesOfParts front ++ namesOfParts back := by
  induction front with
  | nil => rfl
  | cons part front ih =>
    rw [List.cons_append, namesOfParts, namesOfParts, ih, List.append_assoc]

/-! ### Names in trees -/

/-- The kinds of nodes that name a type. -/
def nameKinds : List String :=
  ["identifier", "generic_name", "qualified_name", "alias_qualified_name"]

namespace Node

/-- The names that a node itself spells: its identifier, or what it puts together. The name in front
of two colons is also asked for with them. -/
def ownIdentifiers (source : Bytes) (n : Node) : List String :=
  match n.kind with
  | "identifier" => [n.text source]
  | "generic_name" => [Node.textOf (n.fieldOrChild? "name" "identifier") source]
  | "qualified_name" => n.children.map (·.text source)
  | "alias_qualified_name" =>
    n.children.map (·.text source) ++ n.children.map (·.text source ++ "::")
  | _ => []

/-- The names that stand in a tree. -/
def identifiers (source : Bytes) (n : Node) : List String :=
  n.ownIdentifiers source ++ n.children.attach.flatMap fun ⟨c, _⟩ => c.identifiers source
termination_by sizeOf n
decreasing_by exact size_lt_of_mem ‹_ ∈ n.children›

variable {source : Bytes}

theorem mem_identifiers_iff {n : Node} {name : String} :
    name ∈ n.identifiers source ↔
      name ∈ n.ownIdentifiers source ∨ ∃ c ∈ n.children, name ∈ c.identifiers source := by
  rw [identifiers, List.mem_append, List.mem_flatMap]
  simp

theorem mem_identifiers_of_mem {n c : Node} {name : String} (hc : c ∈ n.children)
    (h : name ∈ c.identifiers source) : name ∈ n.identifiers source :=
  mem_identifiers_iff.mpr (Or.inr ⟨c, hc, h⟩)

theorem mem_identifiers_of_own {n : Node} {name : String} (h : name ∈ n.ownIdentifiers source) :
    name ∈ n.identifiers source :=
  mem_identifiers_iff.mpr (Or.inl h)

/-- A name that is put together counts the texts of its children. -/
theorem text_mem_ownIdentifiers {n c : Node}
    (hk : n.kind = "qualified_name" ∨ n.kind = "alias_qualified_name") (hc : c ∈ n.children) :
    c.text source ∈ n.ownIdentifiers source := by
  rw [ownIdentifiers]
  rcases hk with hk | hk <;> rw [hk]
  · exact List.mem_map_of_mem hc
  · exact List.mem_append_left _ (List.mem_map_of_mem hc)

end Node

/-! ### Names that are read -/

section

variable {source : Bytes}

/-- The name stands in the tree, or the node is of no kind that names a type and its text is the
name. -/
def Spells (source : Bytes) (n : Node) (name : String) : Prop :=
  name ∈ n.identifiers source ∨ n.kind ∉ nameKinds ∧ name = n.text source

/-- What a child spells stands in the tree if the texts of children count as names there. -/
theorem Spells.of_child {n c : Node} {name : String} (h : Spells source c name)
    (hc : c ∈ n.children) (hown : c.text source ∈ n.ownIdentifiers source) :
    name ∈ n.identifiers source := by
  rcases h with h | ⟨-, rfl⟩
  · exact Node.mem_identifiers_of_mem hc h
  · exact Node.mem_identifiers_of_own hown

/-- A node that is put together of nothing else spells its own text. -/
theorem spells_text {n : Node} (hqualified : n.kind ≠ "qualified_name")
    (halias : n.kind ≠ "alias_qualified_name") (hgeneric : n.kind ≠ "generic_name") :
    Spells source n (n.text source) := by
  by_cases hk : n.kind = "identifier"
  · refine Or.inl (Node.mem_identifiers_of_own ?_)
    rw [Node.ownIdentifiers, hk]
    exact List.mem_singleton.mpr rfl
  · refine Or.inr ⟨fun hmem => ?_, rfl⟩
    simp only [nameKinds, List.mem_cons, List.not_mem_nil, or_false] at hmem
    rcases hmem with h | h | h | h
    · exact hk h
    · exact hgeneric h
    · exact hqualified h
    · exact halias h

mutual

/-- A type that is read off a tree asks for names that stand there. -/
theorem names_read (n : Node) : ∀ name ∈ (TypeForm.read source n).names,
    name ∈ n.identifiers source := by
  have hname : n.kind ∈ nameKinds → ∀ name ∈ (match readParts source n with
      | some parts => TypeForm.name parts
      | none => .missing).names, name ∈ n.identifiers source := by
    intro hkind name hmem
    cases hparts : readParts source n with
    | none =>
      rw [hparts] at hmem
      cases hmem
    | some parts =>
      rw [hparts] at hmem
      rcases names_readParts n parts hparts name hmem with h | ⟨hother, -⟩
      · exact h
      · exact absurd hkind hother
  rw [TypeForm.read]
  split
  · exact fun name h => by cases h
  · next hk => exact hname (by rw [hk]; decide)
  · next hk => exact hname (by rw [hk]; decide)
  · next hk => exact hname (by rw [hk]; decide)
  · next hk => exact hname (by rw [hk]; decide)
  · exact names_readOperand n _ _
  · exact names_readOperand n _ _
  · exact names_readOperand n _ _
  · exact fun name h => by cases h
  · intro name h
    rw [TypeForm.names, namesOfForms_eq] at h
    obtain ⟨element, helement, h⟩ := List.mem_flatMap.mp h
    obtain ⟨⟨e, hmem⟩, -, rfl⟩ := List.mem_map.mp helement
    exact Node.mem_identifiers_of_mem hmem (names_readOperand e _ _ name h)
  · exact names_readOperand n _ _
  · exact names_readOperand n _ _
  · exact fun name h => by cases h
  · exact fun name h => by cases h
termination_by 3 * sizeOf n + 2
decreasing_by
  all_goals try have := Node.size_lt_of_mem hmem
  all_goals omega

theorem names_readOperand (n : Node) (child : Option Node)
    (isChild : ∀ c, child = some c → c ∈ n.children) :
    ∀ name ∈ (readOperand source n child isChild).names, name ∈ n.identifiers source := by
  intro name h
  cases child with
  | none =>
    rw [readOperand] at h
    cases h
  | some c =>
    have hc := isChild c rfl
    rw [readOperand] at h
    exact Node.mem_identifiers_of_mem hc (names_read c name h)
termination_by 3 * sizeOf n + 1
decreasing_by
  have := Node.size_lt_of_mem hc
  omega

theorem names_readParts (n : Node) (parts : List NamePart) (hparts : readParts source n = some parts) :
    ∀ name ∈ namesOfParts parts, Spells source n name := by
  intro name hname
  rw [readParts] at hparts
  split at hparts
  · next hk =>
    split at hparts
    · next qualifier last hhalves =>
      obtain ⟨hqualifier, hlast⟩ : qualifier ∈ n.children ∧ last ∈ n.children :=
        mem_of_qualifiedHalves? hhalves
      obtain ⟨front, hfront, hrest⟩ := Option.bind_eq_some_iff.mp hparts
      obtain ⟨back, hback, rfl⟩ := Option.map_eq_some_iff.mp hrest
      rw [namesOfParts_append] at hname
      rcases List.mem_append.mp hname with hname | hname
      · exact Or.inl ((names_readParts qualifier front hfront name hname).of_child hqualifier
          (Node.text_mem_ownIdentifiers (Or.inl hk) hqualifier))
      · exact Or.inl ((names_readParts last back hback name hname).of_child hlast
          (Node.text_mem_ownIdentifiers (Or.inl hk) hlast))
    · cases hparts
  · next hk =>
    split at hparts
    · next aliasNode last halias hlast =>
      have hmem := Node.mem_of_fieldOrLast? hlast
      obtain ⟨back, hback, rfl⟩ := Option.map_eq_some_iff.mp hparts
      rw [namesOfParts, NamePart.names] at hname
      rcases List.mem_append.mp hname with hname | hname
      · rw [List.mem_singleton.mp hname]
        refine Or.inl (Node.mem_identifiers_of_own ?_)
        rw [Node.ownIdentifiers, hk]
        exact List.mem_append_right _ (List.mem_map_of_mem (Node.mem_of_fieldOrFirst? halias))
      · exact Or.inl ((names_readParts last back hback name hname).of_child hmem
          (Node.text_mem_ownIdentifiers (Or.inr hk) hmem))
    · cases hparts
  · next hk =>
    cases hparts
    rw [namesOfParts, NamePart.names, namesOfParts, List.append_nil] at hname
    rcases List.mem_cons.mp hname with rfl | hname
    · refine Or.inl (Node.mem_identifiers_of_own ?_)
      rw [Node.ownIdentifiers, hk]
      exact List.mem_singleton.mpr rfl
    · rw [namesOfForms_eq] at hname
      obtain ⟨argument, hargument, hname⟩ := List.mem_flatMap.mp hname
      split at hargument
      · next list hlist =>
        obtain ⟨⟨a, hmem⟩, -, rfl⟩ := List.mem_map.mp hargument
        have hchild := Node.mem_of_child? hlist
        have hargumentChild := Node.mem_of_named hmem
        exact Or.inl (Node.mem_identifiers_of_mem hchild
          (Node.mem_identifiers_of_mem hargumentChild (names_read a name hname)))
      · cases hargument
  · next hqualified halias hgeneric =>
    cases hparts
    rw [namesOfParts, NamePart.names, namesOfParts, List.append_nil, namesOfForms] at hname
    rw [List.mem_singleton.mp hname]
    exact spells_text hqualified halias hgeneric
termination_by 3 * sizeOf n
decreasing_by
  · have := Node.size_lt_of_mem hqualifier
    omega
  · have := Node.size_lt_of_mem hlast
    omega
  · have := Node.size_lt_of_mem hmem
    omega
  · have := Node.size_lt_of_mem hchild
    have := Node.size_lt_of_mem hargumentChild
    omega

end

/-- The names of a written type are all known. -/
def TypeForm.Known (Known : String → Prop) (t : TypeForm) : Prop :=
  ∀ name ∈ t.names, Known name

/-- Where every name in a tree is known, only known names are asked for. -/
theorem yields_names (Known : String → Prop) :
    Yields source (fun n => ∀ name ∈ n.identifiers source, Known name) (TypeForm.Known Known) where
  child h hc name hname := h name (Node.mem_identifiers_of_mem hc hname)
  field h name other hother := by
    refine h other ?_
    rw [Node.mem_identifiers_iff] at hother ⊢
    exact hother
  type h name hname := h name (names_read _ name hname)
  missing _ _ _ name hname := by cases hname

/-- **What is read off a tree asks for names that stand there.** -/
theorem names_readItems {Known : String → Prop} {n : Node}
    (h : ∀ name ∈ n.identifiers source, Known name) :
    ∀ item ∈ readItems source n, item.All (TypeForm.Known Known) :=
  (yields_names Known).readItems n h

end

end ExtensionCensus.Source
