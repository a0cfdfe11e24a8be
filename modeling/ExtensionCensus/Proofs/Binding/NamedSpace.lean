import ExtensionCensus.Proofs.Binding.DottedName

/-!
# Namespaces that using directives name

The first part of a qualified name is looked for in every namespace around the place; what a using
directive imports, and what it gives a name to as a namespace, is read from the global namespace on.

* `levels`, `aliasesNamed` — the scopes of a chain, each with whether it is a whole file, and what
  they give a name to;
* `namespacesNamed_of_unnamed`, `findSome?_namespacesNamed` — the namespaces that a part names, if no
  using directive gives the name to anything, and if no namespace has the name;
* `OnlyFrom`, `lookupInScopes_onlyFrom` — only one imported namespace may have a type of a name;
* `typeIn?_of_resolve` — a qualified name that denotes a type in a namespace names that
  namespace from one of the scopes on;
* `Compilation.resolve_namedSpace` — **a using directive with the same namespace supplies the type if
  and only if its namespace, read from the global one on, is that of the type**.
-/

namespace ExtensionCensus.Binding

open Source (TypeForm bytesOf namedNode namedLeaf tokenLeaf)

/-- The scopes of a chain, each with whether it is a whole file. -/
def levels : ScopeChain → List (ScopeId × Bool)
  | [] => []
  | id :: outer => (id, outer.isEmpty) :: levels outer

namespace Outline

/-- What the scopes of a chain give a name to, from the inside out. -/
def aliasesNamed (o : Outline) (name : String) (chain : ScopeChain) : List Alias :=
  (levels chain).filterMap fun s => o.alias? s.1 s.2 name

/-- Along a chain no namespace has a type of a name, no using directive gives the name to a type, and
no imported namespace but one may have such a type. -/
structure OnlyFrom (o : Outline) (chain : ScopeChain) (name spaceName : String) : Prop where
  spaces : ∀ id ∈ chain, o.typeIn? (o.scope id).spaceName ⟨name, 0⟩ = none
  named : ∀ a ∈ o.aliasesNamed name chain, o.resolveAlias a = .ok none
  imports : ∀ s ∈ levels chain, ∀ u ∈ o.usingsOf s.1 s.2, u ≠ spaceName →
    o.typeIn? u ⟨name, 0⟩ = none

section

variable {o : Outline} {id : ScopeId} {outer chain : ScopeChain} {first name spaceName : String}
  {rest : List String} {d : TypeId}

/-! ### The namespaces that a part names -/

theorem aliasesNamed_cons (o : Outline) (name : String) (id : ScopeId) (outer : ScopeChain) :
    o.aliasesNamed name (id :: outer)
      = (o.alias? id outer.isEmpty name).toList ++ o.aliasesNamed name outer := by
  rw [aliasesNamed, levels, List.filterMap_cons]
  cases o.alias? id outer.isEmpty name <;> rfl

/-- A name that is given to nothing is that of a namespace in one of the namespaces around. -/
theorem namespacesNamed_of_unnamed (h : o.aliasesNamed first chain = []) :
    o.namespacesNamed first chain
      = chain.map fun s => Namespace.inside (o.scope s).spaceName first := by
  induction chain with
  | nil => rfl
  | cons id outer ih =>
    rw [aliasesNamed_cons, List.append_eq_nil_iff, Option.toList_eq_nil_iff] at h
    rw [namespacesNamed, h.1, ih h.2]
    rfl

/-- Where no namespace has a name, the name leads to what using directives give it to. -/
theorem findSome?_namespacesNamed {key : TypeKey}
    (h : ∀ s ∈ chain, o.hasNamespace (Namespace.inside (o.scope s).spaceName name) = false) :
    (o.namespacesNamed name chain).findSome? (o.typeIn? · key)
      = (o.aliasesNamed name chain).findSome? (o.typeIn? ·.written key) := by
  induction chain with
  | nil => rfl
  | cons id outer ih =>
    have hnone : o.typeIn? (Namespace.inside (o.scope id).spaceName name) key = none :=
      typeIn?_of_not_hasNamespace (h id List.mem_cons_self) key
    rw [Namespace.inside] at hnone
    rw [namespacesNamed, aliasesNamed_cons, List.cons_append, List.findSome?_cons, hnone,
      List.findSome?_append, List.findSome?_append,
      ih fun s hs => h s (List.mem_cons_of_mem id hs)]
    cases o.alias? id outer.isEmpty name <;> rfl

/-! ### A type that one import supplies -/

theorem OnlyFrom.tail (h : o.OnlyFrom (id :: outer) name spaceName) :
    o.OnlyFrom outer name spaceName := by
  refine ⟨fun s hs => h.spaces s (List.mem_cons_of_mem id hs), fun a ha => h.named a ?_,
    fun s hs => h.imports s (List.mem_cons_of_mem _ hs)⟩
  rw [aliasesNamed_cons]
  exact List.mem_append_right _ ha

/-- What the directives of the innermost scope give the name to is no type. -/
theorem OnlyFrom.namedIn (h : o.OnlyFrom (id :: outer) name spaceName) :
    o.namedIn o.resolveAlias id outer.isEmpty name 0 = .ok none := by
  rw [Outline.namedIn, if_pos rfl]
  cases halias : o.alias? id outer.isEmpty name with
  | none => rfl
  | some a =>
    refine h.named a ?_
    rw [aliasesNamed_cons, halias]
    exact List.mem_cons_self

/-- Without that type in the one namespace the scopes supply nothing. -/
theorem OnlyFrom.lookupInScopes_none (h : o.OnlyFrom chain name spaceName)
    (hnone : o.typeIn? spaceName ⟨name, 0⟩ = none) :
    o.lookupInScopes o.resolveAlias name 0 chain = .ok none := by
  induction chain with
  | nil => rfl
  | cons id outer ih =>
    have husings : (o.usingsOf id outer.isEmpty).findSome? (o.typeIn? · ⟨name, 0⟩) = none := by
      refine List.findSome?_eq_none_iff.mpr fun u hu => ?_
      by_cases he : u = spaceName
      · rw [he]
        exact hnone
      · exact h.imports _ List.mem_cons_self u hu he
    rw [lookupInScopes_cons, h.spaces id List.mem_cons_self, h.namedIn, husings]
    exact ih h.tail

/-- A type in the one namespace is what the name denotes in a scope that imports the namespace. -/
theorem OnlyFrom.lookupInScopes_some (h : o.OnlyFrom (id :: outer) name spaceName)
    (hmem : spaceName ∈ o.usingsOf id outer.isEmpty)
    (hd : o.typeIn? spaceName ⟨name, 0⟩ = some d) :
    o.lookupInScopes o.resolveAlias name 0 (id :: outer)
      = .ok (some (o.table.definitionType d)) := by
  have husings : (o.usingsOf id outer.isEmpty).findSome? (o.typeIn? · ⟨name, 0⟩) = some d := by
    cases hfound : (o.usingsOf id outer.isEmpty).findSome? (o.typeIn? · ⟨name, 0⟩) with
    | none =>
      rw [List.findSome?_eq_none_iff.mp hfound spaceName hmem] at hd
      cases hd
    | some t =>
      obtain ⟨u, hu, ht⟩ := List.exists_of_findSome?_eq_some hfound
      by_cases he : u = spaceName
      · rw [← ht, he, hd]
      · rw [h.imports _ List.mem_cons_self u hu he] at ht
        cases ht
  rw [lookupInScopes_cons, h.spaces id List.mem_cons_self, h.namedIn, husings]

/-- **With one import that may supply a type, the name denotes what lies in the imported
namespace.** -/
theorem Findable.resolve_onlyFrom_iff (h : o.Findable)
    (honly : o.OnlyFrom (id :: outer) name spaceName)
    (hmem : spaceName ∈ o.usingsOf id outer.isEmpty) (hkey : o.table.key d = ⟨name, 0⟩) :
    o.resolve { scopes := id :: outer } (plainName [name]) = .ok (o.table.definitionType d) ↔
      o.typeIn? spaceName ⟨name, 0⟩ = some d := by
  rw [resolve_simple_iff, lookupSimple_outside]
  cases hfound : o.typeIn? spaceName ⟨name, 0⟩ with
  | none =>
    rw [honly.lookupInScopes_none hfound]
    refine iff_of_false (fun hnative => ?_) fun hd => by cases hd
    exact h.nativeInteger?_ne hkey (Except.ok.inj hnative)
  | some t =>
    rw [honly.lookupInScopes_some hmem hfound]
    simp only [Except.ok.injEq, Option.some.injEq]
    exact ⟨SymbolTable.definitionType_injective, congrArg _⟩

/-! ### A name that a using directive gives to a namespace -/

/-- **Where a name names no type and no namespace, it stands for the namespaces that using directives
give it to.** -/
theorem resolve_aliased_iff (hword : Text.endsIn first "::" = false)
    (hhead : o.lookupSimple o.resolveAlias { scopes := chain } first 0 = .ok none)
    (hspaces : ∀ s ∈ chain, o.hasNamespace (Namespace.inside (o.scope s).spaceName first) = false) :
    o.resolve { scopes := chain } (plainName [first, name]) = .ok (o.table.definitionType d) ↔
      (o.aliasesNamed first chain).findSome? (o.typeIn? ·.written ⟨name, 0⟩) = some d := by
  rw [resolve_dotted_iff (List.cons_ne_nil name []), lookupQualified_spaceHead hword hhead,
    show spaceBound [name] = [(name, [])] from rfl, lookupPath_last,
    findSome?_namespacesNamed hspaces, Except.ok.injEq, Option.map_eq_some_iff]
  constructor
  · rintro ⟨t, ht, he⟩
    rw [ht, SymbolTable.definitionType_injective he]
  · intro hd
    exact ⟨d, hd, rfl⟩

/-! ### A qualified name -/

/-- **A qualified name that denotes a type in a namespace names that namespace from one of the scopes
around on.** -/
theorem typeIn?_of_resolve (hword : Text.endsIn first "::" = false)
    (hunnamed : o.aliasesNamed first chain = []) (htop : o.table.isTopLevel d = true)
    (hbinds : o.resolve { scopes := chain } (plainName (first :: rest ++ [name]))
      = .ok (o.table.definitionType d)) :
    ∃ s ∈ chain, o.typeIn? (pathName (Namespace.inside (o.scope s).spaceName first) rest)
      ⟨name, 0⟩ = some d := by
  have houter : o.table.lexicalOuter d = none := by
    rw [SymbolTable.isTopLevel] at htop
    rw [SymbolTable.lexicalOuter]
    split at htop
    · next path hpath => rw [hpath]
    · cases htop
  have hne := List.concat_ne_nil name rest
  rw [List.cons_append, resolve_dotted_iff hne] at hbinds
  rw [lookupQualified_outside hword] at hbinds
  rcases hhead : o.lookupSimple o.resolveAlias { scopes := chain } first 0 with e | found
  · rw [hhead] at hbinds
    cases hbinds
  · rw [hhead] at hbinds
    simp only at hbinds
    split at hbinds
    · refine absurd hbinds (descend_ne_topLevel ?_ houter)
      simp [spaceBound]
    · obtain ⟨top, hmem, hd⟩ := lookupPath_topLevel houter hbinds
      rw [namespacesNamed_of_unnamed hunnamed] at hmem
      obtain ⟨s, hs, rfl⟩ := List.mem_map.mp hmem
      exact ⟨s, hs, hd⟩

/-- A type is found in a namespace if and only if it lies there. -/
theorem Findable.typeIn?_iff (h : o.Findable) {key : TypeKey}
    (hd : o.typeIn? spaceName key = some d) (other : String) :
    o.typeIn? other key = some d ↔
      (o.table.definition d).container = .namespace (Namespace.parts other) := by
  refine ⟨fun hother => (h.typeIn?_spec hother).1, fun hcontainer => ?_⟩
  have hparts := (h.typeIn?_spec hd).1
  rw [hcontainer, Container.namespace.injEq] at hparts
  rw [typeIn?_of_parts hparts]
  exact hd

/-- The path of a name below the namespace that a scope lies in. -/
theorem parts_around (s : ScopeId) (hpath : Namespace.Segmented (first :: rest)) :
    Namespace.parts (pathName (Namespace.inside (o.scope s).spaceName first) rest)
      = Namespace.parts (o.scope s).spaceName ++ first :: rest := by
  have hfirst : Namespace.Segmented [first] :=
    fun t ht => hpath t (List.mem_singleton.mp ht ▸ List.mem_cons_self)
  have hone := Namespace.parts_qualifiedName hfirst
  rw [Namespace.qualifiedName, String.intercalate_singleton] at hone
  rw [parts_pathName _ fun t ht => hpath t (List.mem_cons_of_mem first ht), Namespace.parts_inside,
    hone, List.append_assoc, List.singleton_append]

end

end Outline

namespace Compilation

/-- **The namespace that a qualified name denotes, and the one that a using directive with the same
name denotes.** Let the name `first.rest.name` denote a type in a namespace. Then the type lies in
`first.rest` below the namespace of one of the scopes around; a scope that imports `first.rest`
supplies the type if and only if it lies in `first.rest` below the global namespace; and so does a
scope that gives a name to `first.rest`, unless no type of the name lies there and an outer scope
gives the same name to the namespace of the type. -/
theorem resolve_namedSpace {identity : AssemblyIdentity} {implicitUsings : Bool}
    {files : List (Text.Bytes × Source.Node)} {c : Compilation}
    (hfiles : (empty identity implicitUsings).addFiles files = .ok c) {o : Outline}
    (ho : c.outline.Grows o) {id : ScopeId} {outer : ScopeChain} {first name : String}
    {rest : List String} {d : TypeId} (hpath : Namespace.Segmented (first :: rest))
    (hword : Text.endsIn first "::" = false) (hunnamed : o.aliasesNamed first (id :: outer) = [])
    (htop : o.table.isTopLevel d = true)
    (hbinds : o.resolve { scopes := id :: outer } (Outline.plainName (first :: rest ++ [name]))
      = .ok (o.table.definitionType d)) :
    (∃ s ∈ id :: outer, (o.table.definition d).container
      = .namespace (Namespace.parts (o.scope s).spaceName ++ first :: rest)) ∧
    (Namespace.qualifiedName (first :: rest) ∈ o.usingsOf id outer.isEmpty →
      o.OnlyFrom (id :: outer) name (Namespace.qualifiedName (first :: rest)) →
        (o.resolve { scopes := id :: outer } (Outline.plainName [name])
            = .ok (o.table.definitionType d) ↔
          (o.table.definition d).container = .namespace (first :: rest))) ∧
    ∀ given a, o.alias? id outer.isEmpty given = some a →
      a.written = Namespace.qualifiedName (first :: rest) → Text.endsIn given "::" = false →
      o.lookupSimple o.resolveAlias { scopes := id :: outer } given 0 = .ok none →
      (∀ s ∈ id :: outer,
        o.hasNamespace (Namespace.inside (o.scope s).spaceName given) = false) →
        (o.resolve { scopes := id :: outer } (Outline.plainName [given, name])
            = .ok (o.table.definitionType d) ↔
          (o.table.definition d).container = .namespace (first :: rest) ∨
            o.typeIn? (Namespace.qualifiedName (first :: rest)) ⟨name, 0⟩ = none ∧
            (o.aliasesNamed given outer).findSome? (o.typeIn? ·.written ⟨name, 0⟩) = some d) := by
  have h := (findable_addFiles hfiles).grows ho
  obtain ⟨s, hs, hd⟩ := Outline.typeIn?_of_resolve hword hunnamed htop hbinds
  obtain ⟨hcontainer, hkey⟩ := h.typeIn?_spec hd
  rw [Outline.parts_around s hpath] at hcontainer
  have hlies := h.typeIn?_iff hd (Namespace.qualifiedName (first :: rest))
  rw [Namespace.parts_qualifiedName hpath] at hlies
  refine ⟨⟨s, hs, hcontainer⟩, fun hmem honly => ?_,
    fun given a ha hwritten hgiven hhead hspaces => ?_⟩
  · rw [h.resolve_onlyFrom_iff honly hmem hkey]
    exact hlies
  · rw [Outline.resolve_aliased_iff hgiven hhead hspaces, Outline.aliasesNamed_cons, ha, ← hlies,
      Option.toList_some, List.singleton_append, List.findSome?_cons, hwritten]
    cases o.typeIn? (Namespace.qualifiedName (first :: rest)) ⟨name, 0⟩ <;> simp

/-! ### A namespace inside the one around -/

/-- A file with a class in `C`, which the file imports, and one in `A.B`, with directives for `B` in
another part of the namespace `A`. -/
def innerFile : Text.Bytes × Source.Node :=
  (bytesOf ("using C;namespace C\x7bclass U\x7b\x7d\x7dnamespace A.B\x7bclass T\x7b\x7d\x7d" ++
    "namespace A\x7busing B;using X = B;\x7d"),
    namedNode "compilation_unit" 0 87 "" [
      namedNode "using_directive" 0 8 "" [
        namedLeaf "identifier" 6 7 ""],
      namedNode "namespace_declaration" 8 30 "" [
        namedLeaf "identifier" 18 19 "name",
        namedNode "declaration_list" 19 30 "body" [
          namedNode "class_declaration" 20 29 "" [
            namedLeaf "identifier" 26 27 "name",
            namedLeaf "declaration_list" 27 29 "body"]]],
      namedNode "namespace_declaration" 30 54 "" [
        namedNode "qualified_name" 40 43 "name" [
          namedLeaf "identifier" 40 41 "qualifier",
          namedLeaf "identifier" 42 43 "name"],
        namedNode "declaration_list" 43 54 "body" [
          namedNode "class_declaration" 44 53 "" [
            namedLeaf "identifier" 50 51 "name",
            namedLeaf "declaration_list" 51 53 "body"]]],
      namedNode "namespace_declaration" 54 87 "" [
        namedLeaf "identifier" 64 65 "name",
        namedNode "declaration_list" 65 87 "body" [
          namedNode "using_directive" 66 74 "" [
            namedLeaf "identifier" 72 73 ""],
          namedNode "using_directive" 74 86 "" [
            namedLeaf "identifier" 80 81 "name",
            tokenLeaf "=" 82 83,
            namedLeaf "identifier" 84 85 ""]]]])

/-- What that file declares. -/
def innerOutline : Outline :=
  ({} : Outline).addFile (Source.readItems innerFile.1 innerFile.2)

/-- The two scopes and what stands in them. -/
theorem innerOutline_scopes :
    innerOutline.usingsOf ⟨0⟩ true = ["C"] ∧ innerOutline.usingsOf ⟨4⟩ false = ["B"] ∧
      (innerOutline.scope ⟨0⟩).spaceName = "" ∧ (innerOutline.scope ⟨4⟩).spaceName = "A" ∧
      (innerOutline.alias? ⟨4⟩ false "X").map (·.written) = some "B" ∧
      (∀ name ∈ ["C", "U", "X"], (innerOutline.aliasesNamed name [⟨0⟩]).isEmpty) ∧
      ∀ name ∈ ["B", "T"], (innerOutline.aliasesNamed name [⟨4⟩, ⟨0⟩]).isEmpty := by
  decide +kernel

/-- What the names in the file lead to. -/
theorem innerOutline_names :
    (innerOutline.root.placed []).map (fun x => (x.path, x.id))
        = [(["C"], ⟨145⟩), (["A", "B"], ⟨146⟩)] ∧
      (∀ s ∈ ["", "A", "B", "C"], innerOutline.typeIn? s ⟨"T", 0⟩ = none) ∧
      innerOutline.typeIn? "" ⟨"U", 0⟩ = none ∧
      (∀ s ∈ ["X", "A.X"], innerOutline.hasNamespace s = false) ∧
      innerOutline.lookupSimple innerOutline.resolveAlias { scopes := [⟨4⟩, ⟨0⟩] } "X" 0
        = .ok none ∧
      innerOutline.resolve { scopes := [⟨0⟩] } (Outline.plainName ["C", "U"])
        = .ok (innerOutline.table.definitionType ⟨145⟩) ∧
      innerOutline.resolve { scopes := [⟨4⟩, ⟨0⟩] } (Outline.plainName ["B", "T"])
        = .ok (innerOutline.table.definitionType ⟨146⟩) := by
  decide +kernel

theorem findable_innerOutline : innerOutline.Findable :=
  @findable_addFiles ⟨"I", "1.0.0.0", "neutral", none⟩ false [innerFile]
    ⟨⟨"I", "1.0.0.0", "neutral", none⟩, innerOutline, false⟩ rfl

/-- Where the two classes are declared. -/
theorem innerOutline_containers :
    (innerOutline.table.definition ⟨145⟩).container = .namespace ["C"] ∧
      (innerOutline.table.definition ⟨146⟩).container = .namespace ["A", "B"] := by
  have hplaced := innerOutline_names.1
  obtain ⟨⟨_, _, _⟩, others, hplaces, hx, hothers⟩ := List.map_eq_cons_iff.mp hplaced
  obtain ⟨⟨_, _, _⟩, hy, hy'⟩ := List.map_eq_singleton_iff.mp hothers
  cases hx
  cases hy'
  rw [hy] at hplaces
  have hcontainer := findable_innerOutline.places.container
  rw [hplaces] at hcontainer
  exact ⟨hcontainer _ List.mem_cons_self, hcontainer _ (List.mem_cons_of_mem _ List.mem_cons_self)⟩

/-- Of the two imports only the one at the file's level supplies its class: that of `B` inside `A` is
read from the global namespace on, where no `B` is, and so is the name that is given to it. -/
theorem innerFile_differs :
    ∃ c, (empty ⟨"I", "1.0.0.0", "neutral", none⟩ false).addFiles [innerFile] = .ok c ∧
      c.outline.resolve { scopes := [⟨0⟩] } (Outline.plainName ["U"])
        = .ok (c.outline.table.definitionType ⟨145⟩) ∧
      c.outline.resolve { scopes := [⟨4⟩, ⟨0⟩] } (Outline.plainName ["B", "T"])
        = .ok (c.outline.table.definitionType ⟨146⟩) ∧
      c.outline.resolve { scopes := [⟨4⟩, ⟨0⟩] } (Outline.plainName ["T"])
        ≠ .ok (c.outline.table.definitionType ⟨146⟩) ∧
      c.outline.resolve { scopes := [⟨4⟩, ⟨0⟩] } (Outline.plainName ["X", "T"])
        ≠ .ok (c.outline.table.definitionType ⟨146⟩) := by
  have hfiles : (empty ⟨"I", "1.0.0.0", "neutral", none⟩ false).addFiles [innerFile]
      = .ok ⟨⟨"I", "1.0.0.0", "neutral", none⟩, innerOutline, false⟩ := rfl
  obtain ⟨hfile, hinner, hglobal, hspace, halias, hunnamed, hbelow⟩ := innerOutline_scopes
  obtain ⟨-, hnone, hU, hspaces, hhead, hbindsU, hbindsT⟩ := innerOutline_names
  obtain ⟨hcontainerU, hcontainerT⟩ := innerOutline_containers
  simp only [List.isEmpty_iff] at hunnamed hbelow
  have hofU : innerOutline.OnlyFrom [⟨0⟩] "U" "C" := by
    refine ⟨?_, ?_, ?_⟩
    · simp [hglobal, hU]
    · simp [hunnamed "U" (by simp)]
    · simp [levels, hfile]
  have hofT : innerOutline.OnlyFrom [⟨4⟩, ⟨0⟩] "T" "B" := by
    refine ⟨?_, ?_, ?_⟩
    · simp [hglobal, hspace, hnone]
    · simp [hbelow "T" (by simp)]
    · simp [levels, hfile, hinner, hnone]
  obtain ⟨a, ha, hwritten⟩ := Option.map_eq_some_iff.mp halias
  have htopU : innerOutline.table.isTopLevel ⟨145⟩ = true := by
    rw [SymbolTable.isTopLevel, hcontainerU]
  have htopT : innerOutline.table.isTopLevel ⟨146⟩ = true := by
    rw [SymbolTable.isTopLevel, hcontainerT]
  have hpathU : Namespace.Segmented ("C" :: []) := by decide
  have hpathT : Namespace.Segmented ("B" :: []) := by decide
  obtain ⟨-, hatFile, -⟩ := resolve_namedSpace hfiles (Outline.Grows.refl _) hpathU (by decide)
    (hunnamed "C" (by simp)) htopU hbindsU
  obtain ⟨-, himported, hgiven⟩ := resolve_namedSpace hfiles (Outline.Grows.refl _) hpathT
    (by decide) (hbelow "B" (by simp)) htopT hbindsT
  have hmemU : "C" ∈ innerOutline.usingsOf ⟨0⟩ true := by simp [hfile]
  have hmemT : "B" ∈ innerOutline.usingsOf ⟨4⟩ false := by simp [hinner]
  have hB : ¬ (innerOutline.table.definition ⟨146⟩).container = .namespace ["B"] := by
    rw [hcontainerT]
    simp
  refine ⟨_, hfiles, ?_, hbindsT, fun hT => ?_, fun hXT => ?_⟩
  · exact (hatFile hmemU hofU).mpr hcontainerU
  · exact hB ((himported hmemT hofT).mp hT)
  · have hgivenX := (hgiven "X" a ha hwritten (by decide) hhead ?_).mp hXT
    · rcases hgivenX with hcontainer | ⟨-, houter⟩
      · exact hB hcontainer
      · rw [show Outline.aliasesNamed _ _ _ = [] from hunnamed "X" (by simp)] at houter
        cases houter
    · have hX := hspaces "X" (by simp)
      have hAX := hspaces "A.X" (by simp)
      simp [hglobal, hspace, Namespace.inside, hX, hAX]

end Compilation

end ExtensionCensus.Binding
