import ExtensionCensus.Proofs.Binding.Address

/-!
# What definitions say before anything is bound

The first pass gives each definition the kind that its first part states, a full name that begins as
its container does, and the accessibility that its parts state last.

* `DefinesPart` — what one more part does to the definitions;
* `statedAccess` — the accessibility that some parts state last;
* `Outline.Described` — the invariant: the definitions of the compilation are located and say what
  their parts say, and the well-known ones say what they always do;
* `described_addPart`, `Reaches.described` — **the first pass keeps it**.
-/

namespace ExtensionCensus

namespace SymbolTable

/-- The full name of a type depends on that of the type around it alone, wherever this is. -/
theorem metadataNameIn_rename {r : Renaming} {a b : SymbolTable} {container : Container}
    (name : String) (h : ∀ outer t args, container = .type (.named (.declared outer) t args) →
      (b.definition (r.type outer)).metadataName = (a.definition outer).metadataName) :
    b.metadataNameIn (container.rename r) name = a.metadataNameIn container name := by
  rcases container with path | t | _
  · rfl
  · cases t with
    | named head outer args =>
      cases head with
      | declared id =>
        have hsame := h id outer args rfl
        simp only [Container.rename, Ty.rename_named, Renaming.head, metadataNameIn, hsame]
      | unbound name =>
        simp only [Container.rename, Ty.rename_named, Renaming.head, metadataNameIn]
    | _ => simp only [Container.rename, Ty.rename, metadataNameIn]
  · rfl

end SymbolTable

namespace Binding.Outline

open Source (TypeDeclaration)

/-! ### One more part -/

/-- What declaring a part of the type `id` does to the definitions: the type is there and its traits
are changed, or it is new and another type may come to list it. -/
inductive DefinesPart (a b : SymbolTable) (enclosing : List TypeId) (d : TypeDeclaration)
    (id : TypeId) : Prop where
  | again (hlt : id.index < a.definitions.size)
      (hsize : b.definitions.size = a.definitions.size)
      (hsame : b.definition id = { a.definition id with
        traits := Traits.addPart d.modifiers (a.definition id).traits })
      (hothers : ∀ other, other ≠ id → b.definition other = a.definition other)
  | first (hid : id = a.nextType) (hsize : b.definitions.size = a.definitions.size + 1)
      {container : Container} {access : Accessibility}
      (hnew : b.definition id = firstDefinition a d container access)
      (haccess : enclosing = [] → access = .internalAccess)
      (hothers : ∀ other : TypeId, other.index < a.definitions.size →
        ∃ members, b.definition other = { a.definition other with members })

section

variable {a b : SymbolTable} {enclosing : List TypeId} {d : TypeDeclaration} {id other : TypeId}

theorem definesPart_merge (enclosing : List TypeId) (d : TypeDeclaration)
    (hlt : id.index < a.definitions.size) :
    DefinesPart a (mergePart a id d) enclosing d id := by
  refine .again hlt (SymbolTable.size_updateDefinition _ _) ?_ fun other hne => ?_
  · rw [mergePart, SymbolTable.definition_updateDefinition, if_pos ⟨rfl, hlt⟩]
  · rw [mergePart, SymbolTable.definition_updateDefinition, if_neg fun he => hne he.1]

/-- What is there changes its traits and its members alone. -/
theorem DefinesPart.old (h : DefinesPart a b enclosing d id)
    (hother : other.index < a.definitions.size) :
    ∃ traits members, b.definition other = { a.definition other with traits, members } := by
  cases h with
  | again hlt _ hsame hothers =>
    by_cases he : other = id
    · subst he
      exact ⟨_, _, hsame⟩
    · exact ⟨_, _, hothers other he⟩
  | first _ _ _ _ hothers =>
    obtain ⟨members, hdef⟩ := hothers other hother
    exact ⟨_, members, hdef⟩

/-- What is not there yet is the type of the part, which is new. -/
theorem DefinesPart.new (h : DefinesPart a b enclosing d id)
    (hother : other.index < b.definitions.size) (hnew : ¬ other.index < a.definitions.size) :
    other = id ∧ id = a.nextType ∧ ∃ container access,
      b.definition id = firstDefinition a d container access ∧
        (enclosing = [] → access = .internalAccess) := by
  cases h with
  | again _ hsize _ _ => exact absurd (hsize ▸ hother) hnew
  | first hid hsize hdef haccess _ =>
    refine ⟨?_, hid, _, _, hdef, haccess⟩
    rw [hid, SymbolTable.eq_nextType_iff]
    omega

end

section

variable {o a b : Outline} {chain : ScopeChain} {enclosing : List TypeId} {d : TypeDeclaration}
  {id outer : TypeId}

theorem definesPart_addPart (hw : WellFormed o) (ha : o.Around enclosing) :
    DefinesPart o.table (o.addPart chain enclosing d).table enclosing d
      (o.declarePart chain enclosing d).2 := by
  have hdeclares := declarePart_declares o chain enclosing d
  rw [addPart]
  generalize o.declarePart chain enclosing d = r at hdeclares ⊢
  cases hdeclares with
  | againInside hid =>
    exact definesPart_merge _ d (hw.nested_lt _ _ (List.mem_of_find?_eq_some hid))
  | @firstInside outer rest _ =>
    have hlt : outer.index < o.table.definitions.size := (hw.chain_of_around ha).head_lt
    have hne : o.table.nextType ≠ outer := fun he => Nat.ne_of_gt hlt (he ▸ rfl)
    generalize hdef : innerDefinition o.table outer d = inner
    have hnew : ((o.table.addDefinition inner).addMember outer
        (.type o.table.nextType)).definition o.table.nextType
        = firstDefinition o.table d (.type (o.table.definitionType outer))
          (memberAccess (o.table.definition outer).kind) := by
      rw [SymbolTable.addMember, SymbolTable.definition_updateDefinition,
        if_neg fun he => hne he.1, SymbolTable.definition_addDefinition_nextType, ← hdef]
      rfl
    refine .first rfl ?_ hnew (fun hnil => by cases hnil) fun other hother => ?_
    · rw [SymbolTable.addMember, SymbolTable.size_updateDefinition, SymbolTable.size_addDefinition]
    · rw [SymbolTable.addMember, SymbolTable.definition_updateDefinition]
      split
      · next he =>
        rw [he.1, SymbolTable.definition_addDefinition_of_lt inner hlt]
        exact ⟨_, rfl⟩
      · rw [SymbolTable.definition_addDefinition_of_lt inner hother]
        exact ⟨_, rfl⟩
  | againInSpace hid =>
    exact definesPart_merge _ d ((hw.places.openAt [] (o.spaceName chain)).of_find? hid).1
  | firstInSpace _ =>
    refine .first rfl (SymbolTable.size_addDefinition _)
      (SymbolTable.definition_addDefinition_nextType _) (fun _ => rfl) fun other hother => ?_
    rw [SymbolTable.definition_addDefinition_of_lt _ hother]
    exact ⟨_, rfl⟩

/-- What lies somewhere lay there, or it is new and lies directly in a namespace. -/
theorem mem_placed_of_addPart (h : Outlined o) {x : Place}
    (hx : x ∈ (o.addPart chain enclosing d).root.placed []) :
    x ∈ o.root.placed [] ∨ enclosing = [] ∧ x.id = o.table.nextType := by
  cases enclosing with
  | cons outer rest =>
    rw [root_addPart_inside] at hx
    exact Or.inl hx
  | nil =>
    have hopened := placed_openedRoot h chain
    have hdeclares := declarePart_declares o chain [] d
    rw [addPart] at hx
    generalize o.declarePart chain [] d = r at hdeclares hx
    cases hdeclares with
    | againInSpace _ => exact Or.inl (hopened ▸ hx)
    | firstInSpace _ =>
      have hperm := Namespace.perm_placed_addType (o.pathOf chain) [] (keyOf d) o.table.nextType
        (h.tabled_openedRoot chain)
      rcases List.mem_cons.mp (hperm.mem_iff.mp hx) with rfl | hx
      · exact Or.inr ⟨rfl, rfl⟩
      · exact Or.inl (hopened ▸ hx)

/-- What a type lists it listed before, or it is new and was declared inside. -/
theorem mem_nestedTypes_of_addPart (hid : id ∈ (o.addPart chain enclosing d).table.nestedTypes outer) :
    id ∈ o.table.nestedTypes outer ∨
      id = o.table.nextType ∧ ∃ rest, enclosing = outer :: rest := by
  have hdeclares := declarePart_declares o chain enclosing d
  rw [addPart] at hid
  generalize o.declarePart chain enclosing d = r at hdeclares hid
  cases hdeclares with
  | againInside _ => exact Or.inl ((sameShape_mergePart _ _ d).nested outer ▸ hid)
  | @firstInside outer' rest _ =>
    rcases SymbolTable.mem_nestedTypes_addMember hid with hid | ⟨rfl, rfl⟩
    · rw [SymbolTable.nestedTypes_addDefinition rfl] at hid
      exact Or.inl hid
    · exact Or.inr ⟨rfl, rest, rfl⟩
  | againInSpace _ => exact Or.inl ((sameShape_mergePart _ _ d).nested outer ▸ hid)
  | firstInSpace _ =>
    rw [SymbolTable.nestedTypes_addDefinition rfl] at hid
    exact Or.inl hid

end

/-! ### Definitions and their parts -/

/-- The accessibility that the last of some parts that state one states. -/
def statedAccess (parts : List DeclaredPart) : Option Accessibility :=
  (parts.filterMap (·.form.modifiers.access)).getLast?

/-- The types of the compilation are located, and say what their parts say: what kind of type they
are, and in a namespace which accessibility they have. -/
structure Described (o : Outline) : Prop where
  located : ∀ part ∈ o.parts, o.Located part.type
  placed_le : ∀ x ∈ o.root.placed [], Library.table.definitions.size ≤ x.id.index
  nested_le : ∀ outer : TypeId, ∀ id ∈ o.table.nestedTypes outer,
    Library.table.definitions.size ≤ outer.index ∧ Library.table.definitions.size ≤ id.index
  known : ∀ id : TypeId, id.index < Library.table.definitions.size →
    (o.table.definition id).keyword = (Library.table.definition id).keyword ∧
      (o.table.definition id).metadataName = (Library.table.definition id).metadataName
  kind : ∀ id : TypeId, Library.table.definitions.size ≤ id.index →
    id.index < o.table.definitions.size →
    (o.partsOf id).head?.map (·.form.kind) = some (o.table.definition id).kind
  keyword : ∀ id : TypeId, Library.table.definitions.size ≤ id.index →
    (o.table.definition id).keyword = none
  metadataName : ∀ id : TypeId, Library.table.definitions.size ≤ id.index →
    id.index < o.table.definitions.size → (o.table.definition id).metadataName
      = o.table.metadataNameIn (o.table.definition id).container (o.table.definition id).name
  access : ∀ x ∈ o.root.placed [], (o.table.definition x.id).traits.access
    = (statedAccess (o.partsOf x.id)).getD .internalAccess

section

variable {o a b : Outline} {chain : ScopeChain} {enclosing : List TypeId} {d : TypeDeclaration}
  {id : TypeId}

theorem Described.le_of_located (h : Described o) (hl : o.Located id) :
    Library.table.definitions.size ≤ id.index := by
  cases hl with
  | placed hx => exact h.placed_le _ hx
  | nested _ hid => exact (h.nested_le _ _ hid).2

/-- Every type of the compilation has a part. -/
theorem Described.exists_part (h : Described o)
    (hle : Library.table.definitions.size ≤ id.index) (hlt : id.index < o.table.definitions.size) :
    ∃ part ∈ o.parts, part.type = id := by
  have hkind := h.kind id hle hlt
  cases hparts : o.partsOf id with
  | nil =>
    rw [hparts] at hkind
    cases hkind
  | cons part rest =>
    have hmem : part ∈ o.partsOf id := hparts ▸ List.mem_cons_self
    obtain ⟨hpart, htype⟩ := List.mem_filter.mp hmem
    exact ⟨part, hpart, of_decide_eq_true htype⟩

theorem Described.located_of_le (h : Described o)
    (hle : Library.table.definitions.size ≤ id.index) (hlt : id.index < o.table.definitions.size) :
    o.Located id := by
  obtain ⟨part, hpart, rfl⟩ := h.exists_part hle hlt
  exact h.located part hpart

theorem described_empty (implicitUsings : Bool) : Described { implicitUsings } where
  located part hp := by cases hp
  placed_le x hx := by cases hx
  nested_le outer id hid := by
    rw [Library.nestedTypes_eq_nil] at hid
    cases hid
  known id hid := ⟨rfl, rfl⟩
  kind id hle hlt := absurd hlt (Nat.not_lt_of_le hle)
  keyword id hle := by rw [SymbolTable.definition_of_size_le hle]; rfl
  metadataName id hle hlt := absurd hlt (Nat.not_lt_of_le hle)
  access x hx := by cases hx

/-- An outline that differs in scopes and namespaces only, where types lie where they lay. -/
theorem Described.congr (h : Described a) (htable : b.table = a.table) (hparts : b.parts = a.parts)
    (hplaced : b.root.placed [] = a.root.placed []) : Described b := by
  have hpartsOf : ∀ id, b.partsOf id = a.partsOf id := fun id => by rw [partsOf, hparts, partsOf]
  have hlocated : ∀ {id}, a.Located id → b.Located id := by
    intro id hl
    induction hl with
    | placed hx => exact .placed (hplaced ▸ hx)
    | nested _ hid ih => exact .nested ih (htable ▸ hid)
  refine ⟨fun part hp => hlocated (h.located part (hparts ▸ hp)), ?_, ?_, ?_, ?_, ?_, ?_, ?_⟩
  · rw [hplaced]
    exact h.placed_le
  · rw [htable]
    exact h.nested_le
  · rw [htable]
    exact h.known
  · rw [htable]
    intro id hle hlt
    rw [hpartsOf]
    exact h.kind id hle hlt
  · rw [htable]
    exact h.keyword
  · rw [htable]
    exact h.metadataName
  · rw [htable, hplaced]
    intro x hx
    rw [hpartsOf]
    exact h.access x hx

theorem located_declarePart (h : Outlined o) (hd : Described o) (ha : o.Around enclosing) :
    (o.addPart chain enclosing d).Located (o.declarePart chain enclosing d).2 := by
  cases enclosing with
  | nil => exact .placed (placed_addPart h).2
  | cons outer rest =>
    have hlt := (h.toWellFormed.chain_of_around ha).head_lt
    have houter : o.Located outer := by
      rcases ha with hnil | ⟨part, hpart, he⟩
      · cases hnil
      · cases he
        exact hd.located part hpart
    have hstep : Reaches o (o.addPart chain (outer :: rest) d) := Reaches.start.part chain ha d
    exact .nested (hstep.located h houter) (@nested_addPart o chain d outer hlt rest).1

/-- The accessibility that parts state with one more behind them. -/
theorem statedAccess_concat (parts : List DeclaredPart) (part : DeclaredPart) :
    statedAccess (parts ++ [part]) = part.form.modifiers.access.or (statedAccess parts) := by
  rw [statedAccess, List.filterMap_append, List.getLast?_append, statedAccess]
  cases h : part.form.modifiers.access with
  | none => simp [h]
  | some access => simp [h]

/-- A type that was there is of the kind that it was of, and a new one of the kind that its part
states. -/
theorem Described.kind_of_definesPart (h : Outlined o) (hd : Described o) {after : Outline}
    (part : DeclaredPart) (hdefines : DefinesPart o.table after.table enclosing d part.type)
    (hform : part.form = d)
    (hparts : after.partsOf id = o.partsOf id ++ if part.type = id then [part] else [])
    (hle : Library.table.definitions.size ≤ id.index)
    (hlt : id.index < after.table.definitions.size) :
    (after.partsOf id).head?.map (·.form.kind) = some (after.table.definition id).kind := by
  rw [hparts]
  by_cases hold : id.index < o.table.definitions.size
  · obtain ⟨traits, members, hdef⟩ := hdefines.old hold
    have hkind := hd.kind id hle hold
    rw [hdef]
    cases hfirst : o.partsOf id with
    | nil =>
      rw [hfirst] at hkind
      cases hkind
    | cons first rest =>
      rw [hfirst] at hkind
      exact hkind
  · obtain ⟨rfl, hid, container, access, hdef, -⟩ := hdefines.new hlt hold
    rw [if_pos rfl, hid, h.toWellFormed.partsOf_nextType, ← hid, hdef, ← hform]
    rfl

theorem Described.keyword_of_definesPart (hd : Described o) {b : SymbolTable} {declared : TypeId}
    (hdefines : DefinesPart o.table b enclosing d declared)
    (hle : Library.table.definitions.size ≤ id.index) : (b.definition id).keyword = none := by
  by_cases hlt : id.index < b.definitions.size
  · by_cases hold : id.index < o.table.definitions.size
    · obtain ⟨traits, members, hdef⟩ := hdefines.old hold
      rw [hdef]
      exact hd.keyword id hle
    · obtain ⟨rfl, -, container, access, hdef, -⟩ := hdefines.new hlt hold
      rw [hdef]
      rfl
  · rw [SymbolTable.definition_of_size_le (Nat.le_of_not_lt hlt)]
    rfl

/-- The types around a type are older, and keep their full names. -/
theorem metadataNameIn_of_definesPart {a b : SymbolTable} {declared : TypeId}
    (hdefines : DefinesPart a b enclosing d declared) (hn : b.Nests)
    (hlt : id.index < b.definitions.size) :
    b.metadataNameIn (b.definition id).container (b.definition id).name
      = a.metadataNameIn (b.definition id).container (b.definition id).name := by
  conv => lhs; rw [← Container.rename_same (b.definition id).container]
  refine SymbolTable.metadataNameIn_rename _ fun outer t args hcontainer => ?_
  rcases hn id hlt with ⟨path, hpath⟩ | ⟨around, hout, haround⟩
  · rw [hpath] at hcontainer
    cases hcontainer
  · rw [haround, Container.type.injEq, SymbolTable.definitionType, Ty.named.injEq,
      TypeHead.declared.injEq] at hcontainer
    obtain ⟨hsame, -⟩ := hcontainer
    subst hsame
    have hold : around.index < a.definitions.size := by
      by_contra hnot
      obtain ⟨rfl, hnext, -⟩ := hdefines.new (Nat.lt_trans hout hlt) hnot
      obtain ⟨rfl, -⟩ := hdefines.new hlt fun hold => hnot (Nat.lt_trans hout hold)
      exact Nat.lt_irrefl _ hout
    obtain ⟨traits, members, hdef⟩ := hdefines.old hold
    show (b.definition around).metadataName = _
    rw [hdef]

theorem Described.metadataName_of_definesPart (hd : Described o) {b : SymbolTable}
    {declared : TypeId} (hdefines : DefinesPart o.table b enclosing d declared) (hn : b.Nests)
    (hle : Library.table.definitions.size ≤ id.index) (hlt : id.index < b.definitions.size) :
    (b.definition id).metadataName
      = b.metadataNameIn (b.definition id).container (b.definition id).name := by
  rw [metadataNameIn_of_definesPart hdefines hn hlt]
  by_cases hold : id.index < o.table.definitions.size
  · obtain ⟨traits, members, hdef⟩ := hdefines.old hold
    rw [hdef]
    exact hd.metadataName id hle hold
  · obtain ⟨rfl, -, container, access, hdef, -⟩ := hdefines.new hlt hold
    rw [hdef]
    rfl

/-- The accessibility of a type in a namespace is the one that its parts state last. -/
theorem Described.access_of_definesPart (h : Outlined o) (hd : Described o) {after : Outline}
    (part : DeclaredPart) (hdefines : DefinesPart o.table after.table enclosing d part.type)
    (hform : part.form = d)
    (hparts : ∀ id, after.partsOf id = o.partsOf id ++ if part.type = id then [part] else [])
    {x : Place} (hlt : x.id.index < after.table.definitions.size)
    (hx : x ∈ o.root.placed [] ∨ enclosing = [] ∧ x.id = o.table.nextType) :
    (after.table.definition x.id).traits.access
      = (statedAccess (after.partsOf x.id)).getD .internalAccess := by
  rw [hparts]
  rcases hx with hold | ⟨hnil, hid⟩
  · have haccess := hd.access x hold
    have hxlt := h.places.index_lt x hold
    cases hdefines with
    | again _ _ hsame hothers =>
      by_cases he : part.type = x.id
      · rw [if_pos he, statedAccess_concat, ← he, hsame, he, hform]
        show d.modifiers.access.getD (o.table.definition x.id).traits.access = _
        rw [haccess]
        cases d.modifiers.access <;> rfl
      · rw [if_neg he, List.append_nil, ← haccess, hothers x.id fun hne => he hne.symm]
    | first hid _ _ _ hothers =>
      have hne : part.type ≠ x.id := by
        rw [hid]
        exact (h.toWellFormed.ne_nextType hold).symm
      obtain ⟨members, hdef⟩ := hothers x.id hxlt
      rw [if_neg hne, List.append_nil, ← haccess, hdef]
  · have hnot : ¬ x.id.index < o.table.definitions.size := by
      rw [hid]
      exact Nat.lt_irrefl _
    obtain ⟨he, -, container, access, hdef, haccess⟩ := hdefines.new hlt hnot
    rw [if_pos he.symm, statedAccess_concat, hid, h.toWellFormed.partsOf_nextType, ← hid, he, hdef,
      hform, haccess hnil]
    show d.modifiers.access.getD .internalAccess = _
    cases d.modifiers.access <;> rfl

/-- **One more part keeps it.** -/
theorem described_addPart (h : Outlined o) (hn : o.table.Nests) (hd : Described o)
    (ha : o.Around enclosing) : Described (o.addPart chain enclosing d) := by
  have hw := h.toWellFormed
  have hstep : Reaches o (o.addPart chain enclosing d) := Reaches.start.part chain ha d
  have hdefines : DefinesPart o.table (o.addPart chain enclosing d).table enclosing d
      (o.declarePart chain enclosing d).2 := definesPart_addPart hw ha
  have hnests := nests_addPart h hn chain ha d
  have hparts : ∀ id, (o.addPart chain enclosing d).partsOf id = o.partsOf id ++
      if (o.declarePart chain enclosing d).2 = id then
        [⟨(o.declarePart chain enclosing d).2, d, chain, enclosing⟩] else [] :=
    fun id => partsOf_addPart id
  have hnext : Library.table.definitions.size ≤ o.table.nextType.index := hw.library.size_le
  constructor
  case located =>
    intro part hp
    rw [addPart_parts] at hp
    rcases List.mem_append.mp hp with hp | hp
    · exact hstep.located h (hd.located part hp)
    · rw [List.mem_singleton.mp hp]
      exact located_declarePart h hd ha
  case placed_le =>
    intro x hx
    rcases mem_placed_of_addPart h hx with hx | ⟨-, he⟩
    · exact hd.placed_le x hx
    · rw [he]
      exact hnext
  case nested_le =>
    intro outer id hid
    rcases mem_nestedTypes_of_addPart hid with hid | ⟨rfl, rest, rfl⟩
    · exact hd.nested_le outer id hid
    · refine ⟨?_, hnext⟩
      rcases ha with hnil | ⟨part, hpart, he⟩
      · cases hnil
      · cases he
        exact hd.le_of_located (hd.located part hpart)
  case known =>
    intro id hid
    obtain ⟨traits, members, hdef⟩ := hdefines.old (Nat.lt_of_lt_of_le hid hw.library.size_le)
    rw [hdef]
    exact hd.known id hid
  case kind =>
    exact fun id hle hlt => hd.kind_of_definesPart h ⟨_, d, chain, enclosing⟩ hdefines rfl
      (hparts id) hle hlt
  case keyword => exact fun id hle => hd.keyword_of_definesPart hdefines hle
  case metadataName =>
    exact fun id hle hlt => hd.metadataName_of_definesPart hdefines hnests hle hlt
  case access =>
    intro x hx
    exact hd.access_of_definesPart h ⟨_, d, chain, enclosing⟩ hdefines rfl hparts
      ((hstep.outlined h).toWellFormed.places.index_lt x hx) (mem_placed_of_addPart h hx)

/-- **The first pass keeps it.** -/
theorem Reaches.described (hr : Reaches a b) (h : Outlined a) (hn : a.table.Nests)
    (hd : Described a) : Described b := by
  induction hr with
  | start => exact hd
  | rescoped _ hc ih => exact ih.congr hc.table hc.parts (by rw [hc.root])
  | opened hb name ih =>
    exact ih.congr rfl rfl (Namespace.placed_update_id _ [] (hb.outlined h).places.tabled)
  | part hb chain henclosing d ih =>
    exact described_addPart (hb.outlined h) (hb.nests h hn) ih henclosing

end

end Binding.Outline

end ExtensionCensus
