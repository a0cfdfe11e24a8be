import ExtensionCensus.Proofs.Binding.Adding
import ExtensionCensus.Proofs.Binding.Placing

/-!
# Types declared beside others

A file that declares no type of the others again declares its types beside theirs, and leaves theirs
as they are.

* `Beside` — what one outline declares is in another one, which declares more in other places only;
* `Adds.beside` — a file declares its types beside those that are there;
* `Beside.typeIn?` — **a name that the file does not declare leads where it led before**.
-/

namespace ExtensionCensus

namespace Binding.Outline

open Source (TypeDeclaration UsingForm)

/-- What `a` declares is in `b`, and what `b` declares beside it lies at other places: in namespaces
under keys of its own, or in types of its own. -/
structure Beside (Top : NamespacePath → TypeDeclaration → Prop) (a b : Outline) : Prop where
  size_le : a.table.definitions.size ≤ b.table.definitions.size
  definition : ∀ {id : TypeId}, id.index < a.table.definitions.size →
    b.table.definition id = a.table.definition id
  methods : b.table.methods = a.table.methods
  values : b.table.values = a.table.values
  nested : ∀ outer : TypeId, a.table.definitions.size ≤ outer.index →
    ∀ id ∈ b.table.nestedTypes outer, a.table.definitions.size ≤ id.index
  parts : ∀ part ∈ b.parts.drop a.parts.length, a.table.definitions.size ≤ part.type.index
  placed : ∀ x ∈ b.root.placed [], x ∈ a.root.placed [] ∨
    a.table.definitions.size ≤ x.id.index ∧ ∃ d, Top x.path d ∧ keyOf d = x.key

section

variable {Form : UsingForm → Prop} {Top : NamespacePath → TypeDeclaration → Prop}
  {a b c : Outline} {chains : List ScopeChain}

/-! ### Steps of a file -/

theorem beside_refl : Beside Top a a where
  size_le := Nat.le_refl _
  definition _ := rfl
  methods := rfl
  values := rfl
  nested outer houter id hid :=
    absurd (SymbolTable.lt_of_mem_nestedTypes hid) (Nat.not_lt_of_le houter)
  parts part hp := by
    rw [List.drop_length] at hp
    cases hp
  placed _ hx := Or.inl hx

/-- A step that changes neither the table nor the parts nor where types lie. -/
theorem Beside.congr (h : Beside Top a b) (htable : c.table = b.table) (hparts : c.parts = b.parts)
    (hplaced : c.root.placed [] = b.root.placed []) : Beside Top a c where
  size_le := htable ▸ h.size_le
  definition hid := htable ▸ h.definition hid
  methods := htable ▸ h.methods
  values := htable ▸ h.values
  nested := htable ▸ h.nested
  parts := hparts ▸ h.parts
  placed := hplaced ▸ h.placed

/-- What lies at a place that the file declares is a type of the file. -/
theorem Beside.le_of_top (h : Beside Top a b)
    (hother : ∀ x ∈ a.root.placed [], ∀ d, Top x.path d → keyOf d ≠ x.key) {x : Place}
    (hx : x ∈ b.root.placed []) {d : TypeDeclaration} (htop : Top x.path d) (hkey : keyOf d = x.key) :
    a.table.definitions.size ≤ x.id.index := by
  rcases h.placed x hx with hold | ⟨hle, -⟩
  · exact absurd hkey (hother x hold d htop)
  · exact hle

/-- A definition behind some others may be changed, if the types that it lists are behind them too. -/
theorem Beside.updateDefinition (h : Beside Top a b) {id : TypeId}
    (hid : a.table.definitions.size ≤ id.index) {f : TypeDefinition → TypeDefinition}
    (hf : ∀ t ∈ SymbolTable.typesAmong (f (b.table.definition id)).members,
      t ∈ b.table.nestedTypes id ∨ a.table.definitions.size ≤ t.index) :
    Beside Top a { b with table := b.table.updateDefinition id f } where
  size_le := by
    rw [SymbolTable.size_updateDefinition]
    exact h.size_le
  definition {other} hother := by
    rw [SymbolTable.definition_updateDefinition, if_neg, h.definition hother]
    rintro ⟨rfl, -⟩
    exact Nat.not_lt_of_le hid hother
  methods := h.methods
  values := h.values
  nested outer houter inner hinner := by
    rw [SymbolTable.nestedTypes_eq, SymbolTable.definition_updateDefinition] at hinner
    split at hinner
    · rcases hf inner hinner with hmem | hle
      · exact h.nested id hid inner hmem
      · exact hle
    · exact h.nested outer houter inner hinner
  parts := h.parts
  placed := h.placed

theorem Beside.addDefinition (h : Beside Top a b) {d : TypeDefinition} (hd : d.members = []) :
    Beside Top a { b with table := b.table.addDefinition d } where
  size_le := by
    rw [SymbolTable.size_addDefinition]
    exact Nat.le_succ_of_le h.size_le
  definition hid := by
    rw [SymbolTable.definition_addDefinition_of_lt d (Nat.lt_of_lt_of_le hid h.size_le),
      h.definition hid]
  methods := h.methods
  values := h.values
  nested outer houter id hid := by
    rw [SymbolTable.nestedTypes_addDefinition hd] at hid
    exact h.nested outer houter id hid
  parts := h.parts
  placed := h.placed

/-- A part of a type of the file, taken down. -/
theorem Beside.takePart (h : Beside Top a b) (ha : Reaches a c) (hc : c.parts = b.parts)
    {part : DeclaredPart} (hp : a.table.definitions.size ≤ part.type.index) :
    Beside Top a { b with parts := b.parts ++ [part] } where
  size_le := h.size_le
  definition := h.definition
  methods := h.methods
  values := h.values
  nested := h.nested
  parts other hother := by
    obtain ⟨old, hold⟩ := ha.parts_append
    rw [← hc, List.drop_append_of_le_length (by rw [hold, List.length_append]; omega), hc] at hother
    rcases List.mem_append.mp hother with hother | hother
    · exact h.parts other hother
    · rw [List.mem_singleton.mp hother]
      exact hp
  placed := h.placed

/-- Declaring a part of a file: the type that it belongs to is of the file too. -/
theorem Beside.declarePart (h : Beside Top a b) (hb : Outlined b)
    (hother : ∀ x ∈ a.root.placed [], ∀ d, Top x.path d → keyOf d ≠ x.key) {chain : ScopeChain}
    {enclosing : List TypeId} (hsince : b.Since a enclosing) {d : TypeDeclaration}
    (htop : enclosing = [] → Top (b.pathOf chain) d) :
    Beside Top a (b.declarePart chain enclosing d).1 ∧
      a.table.definitions.size ≤ (b.declarePart chain enclosing d).2.index := by
  have hdeclares := declarePart_declares b chain enclosing d
  have hopened : (b.openedRoot chain).placed [] = b.root.placed [] := placed_openedRoot hb chain
  have hnext : a.table.definitions.size ≤ b.table.nextType.index := h.size_le
  have hmerge : ∀ {id : TypeId}, a.table.definitions.size ≤ id.index →
      Beside Top a { b with table := mergePart b.table id d } := fun hid =>
    h.updateDefinition hid fun t ht => Or.inl ht
  generalize b.declarePart chain enclosing d = r at hdeclares ⊢
  cases hdeclares with
  | @againInside outer rest id hid =>
    have houter : a.table.definitions.size ≤ outer.index := by
      rcases hsince with hnil | ⟨part, hpart, he⟩
      · cases hnil
      · cases he
        exact h.parts part hpart
    have hle := h.nested outer houter id (List.mem_of_find?_eq_some hid)
    exact ⟨hmerge hle, hle⟩
  | @firstInside outer rest hnone =>
    have houter : a.table.definitions.size ≤ outer.index := by
      rcases hsince with hnil | ⟨part, hpart, he⟩
      · cases hnil
      · cases he
        exact h.parts part hpart
    have hadded : Beside Top a
        { b with table := b.table.addDefinition (innerDefinition b.table outer d) } :=
      h.addDefinition rfl
    refine ⟨hadded.updateDefinition houter fun t ht => ?_, hnext⟩
    rw [SymbolTable.typesAmong_concat] at ht
    rcases List.mem_append.mp ht with ht | ht
    · exact Or.inl ht
    · rw [List.mem_singleton.mp ht]
      exact Or.inr hnext
  | @againInSpace id hid =>
    have hlies := Namespace.mem_placed_of_find? (hb.tabled_openedRoot chain) (b.pathOf chain) [] hid
    rw [hopened] at hlies
    have hle := h.le_of_top hother hlies (htop rfl) rfl
    exact ⟨(hmerge hle).congr rfl rfl hopened, hle⟩
  | firstInSpace hnone =>
    generalize hdef : firstDefinition b.table d (.namespace (b.pathOf chain)) .internalAccess = top
    have hadded : Beside Top a { b with table := b.table.addDefinition top } :=
      h.addDefinition (hdef ▸ rfl)
    have hperm := Namespace.perm_placed_addType (b.pathOf chain) [] (keyOf d) b.table.nextType
      (hb.tabled_openedRoot chain)
    refine ⟨⟨hadded.size_le, hadded.definition, h.methods, h.values, hadded.nested, h.parts,
      fun x hx => ?_⟩, hnext⟩
    rcases List.mem_cons.mp (hperm.mem_iff.mp hx) with rfl | hx
    · exact Or.inr ⟨hnext, d, htop rfl, rfl⟩
    · have hold : x ∈ (b.openedRoot chain).placed [] := hx
      rw [hopened] at hold
      exact h.placed x hold

/-- **A file that declares no type again declares its types beside those that are there.** -/
theorem Adds.beside (h : Adds Form Top a b chains) (ha : Outlined a)
    (hother : ∀ x ∈ a.root.placed [], ∀ d, Top x.path d → keyOf d ≠ x.key) : Beside Top a b := by
  induction h with
  | start => exact beside_refl
  | pushed _ _ _ ih => exact ih.congr rfl rfl rfl
  | opened hb name ih =>
    exact ih.congr rfl rfl (Namespace.placed_update_id _ [] (hb.reaches.outlined ha).places.tabled)
  | @used b _ _ chain _ form _ ih =>
    refine ih.congr ?_ ?_ ?_
    all_goals
      cases form with
      | space isGlobal name => cases isGlobal <;> cases chain <;> rfl
      | named isGlobal name target written => cases isGlobal <;> cases chain <;> rfl
  | @part b _ hb chain _ enclosing hsince d htop ih =>
    obtain ⟨hbeside, hle⟩ :=
      ih.declarePart (hb.reaches.outlined ha) hother hsince htop
    exact hbeside.takePart hb.reaches (declarePart_parts b chain enclosing d).symm hle

/-! ### Lookups -/

/-- **A name that the file does not declare leads where it led before.** -/
theorem Beside.typeIn? (h : Beside Top a b) (ha : Findable a) (hb : Findable b)
    (hkept : ∀ x ∈ a.root.placed [], x ∈ b.root.placed []) {space : String} {key : TypeKey}
    (hkey : ∀ path d, Top path d → keyOf d ≠ key) : b.typeIn? space key = a.typeIn? space key := by
  have hlookup : b.root.lookupType? space key = a.root.lookupType? space key := by
    refine Option.ext fun id => ⟨fun hid => ?_, fun hid => ?_⟩
    · have hplaced := Namespace.mem_placed_of_find? hb.places.tabled (Namespace.parts space) [] hid
      rcases h.placed _ hplaced with hold | ⟨-, d, htop, he⟩
      · exact Namespace.find?_of_placed ha.places.tabled ha.unique hold
      · exact absurd he (hkey _ d htop)
    · have hplaced := Namespace.mem_placed_of_find? ha.places.tabled (Namespace.parts space) [] hid
      exact Namespace.find?_of_placed hb.places.tabled hb.unique (hkept _ hplaced)
  rw [Outline.typeIn?, Outline.typeIn?, hlookup]

end

end Binding.Outline

end ExtensionCensus
