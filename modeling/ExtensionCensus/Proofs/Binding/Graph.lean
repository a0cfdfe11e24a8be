import ExtensionCensus.Proofs.Binding.Described
import ExtensionCensus.Proofs.Binding.Gathering
import ExtensionCensus.Proofs.Binding.Saturation
import ExtensionCensus.Proofs.Symbol.Tree

/-!
# The symbols make up a tree

Namespaces list namespaces and types, types list types and members, and whatever is listed says who
lists it. This holds after any files were added, and again after they were bound.

* `Outline.Seated`, `seated_addFile` — the type of a part lies where the part is declared;
* `Seated.type_eq_iff` — **two declarations are parts of one type exactly if they lie in one container
  and have one name and one number of type parameters**;
* `SymbolTable.Owned`, `SymbolTable.Numbered` — a type parameter is listed by its owner, at its
  position, and whatever is listed says so;
* `Outline.Tree`, `Outlined.tree`, `Outlined.tree_bind` — the tree, in both passes;
* `Compilation.tree_total` — **the symbols of a compilation always make up a tree**.
-/

namespace ExtensionCensus

namespace SymbolTable

/-! ### Type parameters and their owners -/

/-- The type parameters that the owner of one lists. -/
def besides (table : SymbolTable) : TypeParameterRef → List TypeParameter
  | .ofType id _ => (table.definition id).typeParameters
  | .ofMethod m _ => (table.method m).typeParameters
  | .free _ => []

/-- The type parameter is listed by its owner at its position, and what is listed there says so. -/
def Owned (table : SymbolTable) (p : TypeParameterRef) : Prop :=
  ∃ q, (table.besides p)[p.ordinal]? = some q ∧ q.place = some p

/-- The type parameters that types and methods list say who lists them, and at which position. -/
structure Numbered (table : SymbolTable) : Prop where
  types : ∀ id, TypeParameter.Placed (.ofType id) (table.definition id).typeParameters
  methods : ∀ m, TypeParameter.Placed (.ofMethod m) (table.method m).typeParameters

/-- The type is that of something in the table: one in a signature, one of a field, property or event,
or one that a type parameter is constrained to. -/
def Uses (table : SymbolTable) (t : Ty) : Prop :=
  (∃ m : MethodId, m.index < table.methods.size ∧ t ∈ (table.method m).types) ∨
    (∃ v : ValueId, v.index < table.values.size ∧ (table.value v).type = some t) ∨
    ∃ id : TypeId, ∃ q ∈ (table.definition id).typeParameters, t ∈ q.constraintTypes

section

variable {table : SymbolTable} {p : TypeParameterRef}

theorem Numbered.owned_of_mem_typeParametersOf (hn : table.Numbered) {id : TypeId}
    (h : p ∈ table.typeParametersOf id) : table.Owned p := by
  obtain ⟨i, hi, rfl⟩ := List.mem_map.mp h
  have hq := List.getElem?_eq_getElem (List.mem_range.mp hi)
  exact ⟨_, hq, hn.types id i _ hq⟩

theorem Numbered.owned_of_mem_methodTypeParameters (hn : table.Numbered) {m : MethodId}
    (h : p ∈ table.methodTypeParameters m) : table.Owned p := by
  obtain ⟨i, hi, rfl⟩ := List.mem_map.mp h
  have hq := List.getElem?_eq_getElem (List.mem_range.mp hi)
  exact ⟨_, hq, hn.methods m i _ hq⟩

theorem InTypeScope.owned {id : TypeId} (h : table.InTypeScope id p) (hn : table.Numbered) :
    table.Owned p := by
  obtain ⟨top, -, hp⟩ := h
  exact hn.owned_of_mem_typeParametersOf hp

theorem InMethodScope.owned {owner : TypeId} {m : MethodId} (h : table.InMethodScope owner m p)
    (hn : table.Numbered) : table.Owned p :=
  h.elim hn.owned_of_mem_methodTypeParameters fun h => h.owned hn

/-- Where everything is well scoped, whatever type parameter occurs is one that its owner lists. -/
theorem Scoped.owned (h : table.Scoped) (hn : table.Numbered) {t : Ty} (ht : table.Uses t)
    (hp : t.occurs p = true) : table.Owned p := by
  rcases ht with ⟨m, hm, ht⟩ | ⟨v, hv, ht⟩ | ⟨id, q, hq, ht⟩
  · obtain ⟨owner, -, htypes⟩ := h.methods m hm
    exact (htypes t ht p hp).owned hn
  · obtain ⟨owner, -, htypes⟩ := h.values v hv
    exact (htypes t ht p hp).owned hn
  · exact (h.definitions id q hq t ht p hp).owned hn

/-- A method that is not there lists no type parameters. -/
theorem placed_method {m : MethodId} (h : m.index < table.methods.size →
      TypeParameter.Placed (.ofMethod m) (table.method m).typeParameters) :
    TypeParameter.Placed (.ofMethod m) (table.method m).typeParameters := by
  by_cases hlt : m.index < table.methods.size
  · exact h hlt
  · rw [method, Array.getElem?_eq_none (Nat.le_of_not_lt hlt)]
    exact TypeParameter.placed_nil

end

end SymbolTable

namespace Binding

open Source (namedLeaf namedNode bytesOf)

namespace Outline

open SymbolTable (Lists)
open Source (TypeDeclaration UsingForm)

/-! ### Where the types of parts lie -/

/-- What contains a type that is declared at a place: the type around the place, or the namespace that
the scopes there lie in. -/
def containerAt (o : Outline) (chain : ScopeChain) : List TypeId → Container
  | [] => .namespace (o.pathOf chain)
  | outer :: _ => .type (o.table.definitionType outer)

/-- The type of a part is listed where the part is declared, under the key of its declaration. -/
structure Seated (o : Outline) (part : DeclaredPart) : Prop where
  inRange : o.InRange part.scopes
  inSpace : part.enclosing = [] →
    ⟨o.pathOf part.scopes, keyOf part.form, part.type⟩ ∈ o.root.placed []
  inType : ∀ outer rest, part.enclosing = outer :: rest →
    part.type ∈ o.table.nestedTypes outer ∧ o.table.key part.type = keyOf part.form

section

variable {Form : UsingForm → Prop} {Top : NamespacePath → TypeDeclaration → Prop}
  {a b o o' : Outline} {chains : List ScopeChain} {chain : ScopeChain} {enclosing : List TypeId}
  {part p q : DeclaredPart}

/-- The type of a part stays where it is. -/
theorem Seated.reaches (h : a.Seated part) (ha : Outlined a) (hr : Reaches a b) : b.Seated part := by
  refine ⟨h.inRange.reaches hr, fun hnil => ?_, fun outer rest hcons => ?_⟩
  · have hpath : b.pathOf part.scopes = a.pathOf part.scopes := by
      rw [pathOf, pathOf, spaceName_reaches hr h.inRange]
    rw [hpath]
    exact hr.mem_placed ha (h.inSpace hnil)
  · obtain ⟨hmem, hkey⟩ := h.inType outer rest hcons
    refine ⟨hr.mem_nestedTypes hmem, ?_⟩
    rw [hr.keeps.key (ha.nested_lt outer _ hmem)]
    exact hkey

/-- A part that is declared at a place is seated. -/
theorem seated_addPart (h : Outlined o) (hchain : o.InRange chain) (ha : o.Around enclosing)
    (d : TypeDeclaration) : (o.addPart chain enclosing d).Seated
      ⟨(o.declarePart chain enclosing d).2, d, chain, enclosing⟩ := by
  have hr : Reaches o (o.addPart chain enclosing d) := Reaches.start.part chain ha d
  refine ⟨hchain.reaches hr, fun hnil => ?_, fun outer rest hcons => ?_⟩
  · have hpath : (o.addPart chain enclosing d).pathOf chain = o.pathOf chain := by
      rw [pathOf, pathOf, spaceName_reaches hr hchain]
    cases hnil
    rw [hpath]
    exact (placed_addPart h).2
  · cases hcons
    exact nested_addPart (h.toWellFormed.chain_of_around ha).head_lt rest

/-- The walk over a file seats the parts that it declares. -/
theorem Adds.seated (h : Adds Form Top a b chains) (ha : Outlined a)
    (hseated : ∀ part ∈ a.parts, a.Seated part) : ∀ part ∈ b.parts, b.Seated part := by
  induction h with
  | start => exact hseated
  | @pushed b chains hb chain _ name ih =>
    intro part hp
    exact (ih part hp).reaches (hb.reaches.outlined ha)
      (Reaches.start.rescoped (rescoped_pushScope _ _))
  | opened hb name ih =>
    intro part hp
    exact (ih part hp).reaches (hb.reaches.outlined ha) (Reaches.start.opened name)
  | @used b chains hb chain _ form _ ih =>
    intro part hp
    have hparts : (b.addUsing chain form).parts = b.parts := by
      cases form with
      | space isGlobal name => cases isGlobal <;> cases chain <;> rfl
      | named isGlobal name target written => cases isGlobal <;> cases chain <;> rfl
    exact (ih part (hparts ▸ hp)).reaches (hb.reaches.outlined ha) (reaches_addUsing _ _)
  | @part b chains hb chain hchain enclosing henclosing d _ ih =>
    intro part hp
    have hbuilt := hb.reaches.outlined ha
    rw [addPart_parts] at hp
    rcases List.mem_append.mp hp with hp | hp
    · exact (ih part hp).reaches hbuilt (Reaches.start.part chain henclosing.around d)
    · rw [List.mem_singleton.mp hp]
      exact seated_addPart hbuilt (hb.inRange hchain) henclosing.around d

/-- **The types of parts lie where the parts are declared.** -/
theorem seated_ofFiles (implicitUsings : Bool) (files : List (Text.Bytes × Source.Node)) :
    ∀ part ∈ (ofFiles implicitUsings files).parts, (ofFiles implicitUsings files).Seated part := by
  induction files using List.reverseRecOn with
  | nil =>
    intro part hp
    cases hp
  | append_singleton files file ih =>
    obtain ⟨chains, hadds⟩ := @adds_addFile (fun _ => True) (fun _ _ => True)
      (ofFiles implicitUsings files) (Source.readItems file.1 file.2) (fun _ _ => trivial)
      fun _ _ => trivial
    rw [ofFiles_concat]
    exact hadds.seated outlined_ofFiles ih

/-- Binding leaves the type of a part where it is. -/
theorem Seated.grows (h : a.Seated part) (hg : Grows a b) : b.Seated part := by
  have hpath : b.pathOf part.scopes = a.pathOf part.scopes := by
    rw [hg.frame]
    rfl
  refine ⟨fun id hid => ?_, fun hnil => ?_, fun outer rest hcons => ?_⟩
  · rw [hg.scopes]
    exact h.inRange id hid
  · rw [hg.root, hpath]
    exact h.inSpace hnil
  · rw [hg.shape.nested, hg.shape.key]
    exact h.inType outer rest hcons

theorem Seated.key (h : o.Seated part) (hw : WellFormed o) :
    o.table.key part.type = keyOf part.form := by
  cases he : part.enclosing with
  | nil => exact hw.places.key _ (h.inSpace he)
  | cons outer rest => exact (h.inType outer rest he).2

theorem Seated.container (h : o.Seated part) (hw : WellFormed o) :
    (o.table.definition part.type).container = o.containerAt part.scopes part.enclosing := by
  cases he : part.enclosing with
  | nil => exact hw.places.container _ (h.inSpace he)
  | cons outer rest =>
    have hlies := hw.nested outer _ (h.inType outer rest he).1
    rw [SymbolTable.lexicalOuter] at hlies
    split at hlies
    · next t ht =>
      cases hlies
      exact ht
    · cases hlies

/-- **Two declarations are parts of one type exactly if they lie in one container and have one name
and one number of type parameters.** -/
theorem Seated.type_eq_iff (hf : Findable o) (hp : o.Seated p) (hq : o.Seated q) :
    p.type = q.type ↔ o.containerAt p.scopes p.enclosing = o.containerAt q.scopes q.enclosing ∧
      keyOf p.form = keyOf q.form := by
  have hw := hf.toWellFormed
  constructor
  · intro htype
    refine ⟨?_, ?_⟩
    · rw [← hp.container hw, ← hq.container hw, htype]
    · rw [← hp.key hw, ← hq.key hw, htype]
  · rintro ⟨hcontainer, hkey⟩
    cases hpe : p.enclosing with
    | nil =>
      cases hqe : q.enclosing with
      | nil =>
        rw [hpe, hqe, containerAt, containerAt, Container.namespace.injEq] at hcontainer
        exact congrArg Place.id (List.inj_on_of_nodup_map hf.unique (hp.inSpace hpe)
          (hq.inSpace hqe) (Prod.ext hcontainer hkey))
      | cons outer rest =>
        rw [hpe, hqe] at hcontainer
        cases hcontainer
    | cons outer rest =>
      cases hqe : q.enclosing with
      | nil =>
        rw [hpe, hqe] at hcontainer
        cases hcontainer
      | cons outer' rest' =>
        rw [hpe, hqe, containerAt, containerAt, Container.type.injEq] at hcontainer
        have hsame := SymbolTable.definitionType_injective hcontainer
        subst hsame
        obtain ⟨hpmem, hpkey⟩ := hp.inType outer rest hpe
        obtain ⟨hqmem, hqkey⟩ := hq.inType outer rest' hqe
        have hfound := hf.nestedType?_of_mem hpmem
        rw [hpkey, hkey, ← hqkey, hf.nestedType?_of_mem hqmem] at hfound
        exact (Option.some.inj hfound).symm

end

/-! ### The tree -/

/-- The symbols make up a tree. Every namespace, of the compilation or of the library, lists what its
tables hold, each namespace and type once, under distinct names and keys; types list nested types
under distinct keys and further members, each once; and whatever is listed says who lists it. Two
declarations share a type exactly if container, name and number of type parameters are the same.
Parameters and type parameters say who has them, and at which position. -/
structure Tree (o : Outline) : Prop where
  spaces : o.table.HoldsTree o.root
  library : o.table.HoldsTree Library.root
  nestedKeys : ∀ id, (o.table.nestedKeys id).Nodup
  members : Lists o.table
  seated : ∀ p ∈ o.parts, (o.table.definition p.type).container
      = o.containerAt p.scopes p.enclosing ∧ o.table.key p.type = keyOf p.form
  shared : ∀ p ∈ o.parts, ∀ q ∈ o.parts, p.type = q.type ↔
    o.containerAt p.scopes p.enclosing = o.containerAt q.scopes q.enclosing ∧
      keyOf p.form = keyOf q.form
  parameters : ∀ m : MethodId, m.index < o.table.methods.size →
    ∀ (i : Nat) (p : Parameter), (o.table.method m).parameters[i]? = some p →
      p.owner = some m ∧ p.ordinal = i
  typeParameters : ∀ (id : TypeId) (i : Nat) (q : TypeParameter),
    (o.table.definition id).typeParameters[i]? = some q → q.place = some (.ofType id i)
  methodTypeParameters : ∀ (m : MethodId) (i : Nat) (q : TypeParameter),
    (o.table.method m).typeParameters[i]? = some q → q.place = some (.ofMethod m i)
  owned : ∀ t, o.table.Uses t → ∀ p, t.occurs p = true → o.table.Owned p

section

variable {o o' : Outline}

/-- A tree comes of types that are told apart, members that are listed, parts that are seated, and
types in scope. -/
theorem Findable.tree (hf : Findable o) (hl : Lists o.table) (hs : o.table.Scoped)
    (hparts : ∀ part ∈ o.parts, o.Seated part)
    (hparameters : ∀ m : MethodId, m.index < o.table.methods.size →
      ∀ (i : Nat) (p : Parameter), (o.table.method m).parameters[i]? = some p →
        p.owner = some m ∧ p.ordinal = i) (hn : o.table.Numbered) : Tree o where
  spaces := hf.places.holdsTree hf.unique
  library := (Library.places.keeps hf.library).holdsTree Library.unique
  nestedKeys := hf.nestedKeys
  members := hl
  seated p hp := ⟨(hparts p hp).container hf.toWellFormed, (hparts p hp).key hf.toWellFormed⟩
  shared p hp q hq := Seated.type_eq_iff hf (hparts p hp) (hparts q hq)
  parameters := hparameters
  typeParameters := hn.types
  methodTypeParameters := hn.methods
  owned _ ht _ hp := hs.owned hn ht hp

/-- The first pass lists type parameters of types alone, each at its place. -/
theorem Outlined.numbered (ho : Outlined o) : o.table.Numbered where
  types id := (ho.bare.begun id).placed
  methods m := SymbolTable.placed_method fun hm => by
    rw [ho.bare.methods] at hm
    exact absurd hm (Nat.not_lt_zero _)

/-- The second one moves none of them, and lists those of the methods that it makes. -/
theorem Outlined.numbered_bind (ho : Outlined o) (hf : Findable o) (h : o.bind = .ok o') :
    o'.table.Numbered := by
  obtain ⟨extra, hmakes, -, -⟩ := ho.makes_bind h
  refine ⟨fun id => ?_, fun m => SymbolTable.placed_method fun hm => ?_⟩
  · exact (ho.bare.begun id).placed.of_map_label (hmakes.grows.shape.agrees id).parameters
  · obtain ⟨owner, form, himplements, -⟩ := ho.implements_bind hf h hm
    exact himplements.placed

/-- **The symbols make up a tree in the first pass.** -/
theorem Outlined.tree (ho : Outlined o) (hf : Findable o)
    (hparts : ∀ part ∈ o.parts, o.Seated part) : Tree o := by
  refine hf.tree (ho.lists hf) (scoped_of_bare ho.bare) hparts (fun m hm => ?_) ho.numbered
  rw [ho.bare.methods] at hm
  exact absurd hm (Nat.not_lt_zero _)

/-- **And again after the second one.** -/
theorem Outlined.tree_bind (ho : Outlined o) (hf : Findable o)
    (hparts : ∀ part ∈ o.parts, o.Seated part) (h : o.bind = .ok o') : Tree o' := by
  obtain ⟨extra, hmakes, -, -⟩ := ho.makes_bind h
  have hscoped := scoped_bind ho.toWellFormed (scoped_of_bare ho.bare) h
  refine (hf.grows hmakes.grows).tree (ho.lists_bind hf h) hscoped (fun part hp => ?_)
    (fun m hm => ?_) (ho.numbered_bind hf h)
  · rw [hmakes.grows.parts] at hp
    exact (hparts part hp).grows hmakes.grows
  · obtain ⟨owner, form, himplements, -⟩ := ho.implements_bind hf h hm
    exact himplements.own

end

end Outline

namespace Compilation

/-- **The symbols of a compilation make up a tree.**  Whatever files are added, they do so before
anything is bound, and again when everything is. -/
theorem tree_total (identity : AssemblyIdentity) (implicitUsings : Bool)
    (files : List (Text.Bytes × Source.Node)) :
    ∃ c, (empty identity implicitUsings).addFiles files = .ok c ∧ c.outline.Tree ∧
      ∀ c', c.bind = .ok c' → c'.outline.Tree := by
  have hadd := addFiles_eq (c := empty identity implicitUsings) files rfl
  obtain ⟨houtlined, hbound⟩ := outlined_addFiles hadd
  have hfindable := findable_addFiles hadd
  have hseated := Outline.seated_ofFiles implicitUsings files
  exact ⟨_, hadd, houtlined.tree hfindable hseated,
    fun c' hc' => houtlined.tree_bind hfindable hseated (bind_ok hbound hc')⟩

/-! ### Two parts of a class and of one nested in it -/

/-- A part of a class in a namespace, with a part of a class nested in it. -/
def partialFile : Text.Bytes × Source.Node :=
  (bytesOf "namespace N{partial class P{partial class Q{void F(int x){}}}}",
    namedNode "compilation_unit" 0 62 "" [
      namedNode "namespace_declaration" 0 62 "" [
        namedLeaf "identifier" 10 11 "name",
        namedNode "declaration_list" 11 62 "body" [
          namedNode "class_declaration" 12 61 "" [
            namedLeaf "modifier" 12 19 "",
            namedLeaf "identifier" 26 27 "name",
            namedNode "declaration_list" 27 61 "body" [
              namedNode "class_declaration" 28 60 "" [
                namedLeaf "modifier" 28 35 "",
                namedLeaf "identifier" 42 43 "name",
                namedNode "declaration_list" 43 60 "body" [
                  namedNode "method_declaration" 44 59 "" [
                    namedLeaf "predefined_type" 44 48 "returns",
                    namedLeaf "identifier" 49 50 "name",
                    namedNode "parameter_list" 50 57 "parameters" [
                      namedNode "parameter" 51 56 "" [
                        namedLeaf "predefined_type" 51 54 "type",
                        namedLeaf "identifier" 55 56 "name"]]]]]]]]]])

/-- Two files with the same parts declare two types, which make up a tree before and after they are
bound. -/
theorem partialFile_tree :
    ∃ c c' : Compilation,
      (empty ⟨"N", "1.0.0.0", "neutral", none⟩ true).addFiles [partialFile, partialFile] = .ok c ∧
      c.bind = .ok c' ∧ c.outline.parts.length = 4 ∧
      c.outline.table.definitions.size = Library.table.definitions.size + 2 ∧
      c.outline.Tree ∧ c'.outline.Tree := by
  obtain ⟨c, hadd, htree, hbound⟩ :=
    tree_total ⟨"N", "1.0.0.0", "neutral", none⟩ true [partialFile, partialFile]
  have hcounts : ((empty ⟨"N", "1.0.0.0", "neutral", none⟩ true).addFiles
      [partialFile, partialFile]).toOption.map (fun c =>
        (c.outline.parts.length, c.outline.table.definitions.size, c.bind.toOption.isSome))
      = some (4, Library.table.definitions.size + 2, true) := by
    decide +kernel
  rw [hadd, Except.toOption, Option.map_some, Option.some.injEq, Prod.mk.injEq,
    Prod.mk.injEq] at hcounts
  obtain ⟨hparts, hsize, hsome⟩ := hcounts
  cases hc' : c.bind with
  | error e =>
    rw [hc'] at hsome
    cases hsome
  | ok c' => exact ⟨c, c', hadd, hc', hparts, hsize, htree, hbound c' hc'⟩

end Compilation

end Binding

end ExtensionCensus
