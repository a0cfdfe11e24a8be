import ExtensionCensus.Proofs.Binding.DottedName

/-!
# Imports and the first part of a full name

The name of a type with the whole path of its namespace in front, written in a file outside of every
namespace and type. The first part is looked for among types before it is taken for a namespace, and
no other way to read the name is tried once a type is found.

* `importedHead`, `lookupSimple_file` — what takes a name that the file neither declares nor gives to
  anything;
* `Findable.resolve_fullName_iff` — **the full name denotes its type if and only if no import and
  no native integer takes the first part**, and `Compilation.resolve_pathQualified_iff` — the same of
  every tree that writes the name, in both passes.
-/

namespace ExtensionCensus.Binding

open Source (TypeForm Writes bytesOf namedNode namedLeaf tokenLeaf)

namespace Outline

/-- The type that takes a name in a file which neither declares it in the global namespace nor gives
it to anything: one of an imported namespace, or a native integer. -/
def importedHead (o : Outline) (file : ScopeId) (name : String) : Option Ty :=
  (((o.usingsOf file true).findSome? (o.typeIn? · ⟨name, 0⟩)).map o.table.definitionType).or
    (nativeInteger? name)

section

variable {o : Outline} {meaning : AliasMeaning} {file : ScopeId} {first name : String}

/-! ### The first part -/

theorem importedHead_eq_none_iff : o.importedHead file first = none ↔
    (∀ u ∈ o.usingsOf file true, o.typeIn? u ⟨first, 0⟩ = none) ∧
      first ≠ "nint" ∧ first ≠ "nuint" := by
  rw [importedHead, Option.or_eq_none_iff, Option.map_eq_none_iff, List.findSome?_eq_none_iff,
    nativeInteger?_eq_none_iff]

theorem declaration?_importedHead {t : Ty} (h : o.importedHead file first = some t) :
    t.declaration?.isSome = true := by
  rcases Option.or_eq_some_iff.mp h with h | ⟨-, h⟩
  · obtain ⟨id, -, rfl⟩ := Option.map_eq_some_iff.mp h
    rfl
  · exact declaration?_nativeInteger? h

/-- In a file, a name that no type of the global namespace and no using directive has is looked for
in the imported namespaces. -/
theorem lookupSimple_file (hfile : (o.scope file).spaceName = "")
    (hglobal : o.typeIn? "" ⟨first, 0⟩ = none) (halias : o.alias? file true first = none) :
    o.lookupSimple meaning { scopes := [file] } first 0 = .ok (o.importedHead file first) := by
  have hnamed : o.namedIn meaning file true first 0 = .ok none := by
    rw [namedIn, if_pos rfl, halias]
  rw [lookupSimple_outside, lookupInScopes_cons, hfile, hglobal, List.isEmpty_nil, hnamed,
    importedHead]
  cases (o.usingsOf file true).findSome? (o.typeIn? · ⟨first, 0⟩) <;> rfl

/-- The namespaces that a part names in a file that gives the name to nothing. -/
theorem namespacesNamed_file (hfile : (o.scope file).spaceName = "")
    (halias : o.alias? file true first = none) : o.namespacesNamed first [file] = [first] := by
  rw [namespacesNamed, hfile, List.isEmpty_nil, halias]
  rfl

/-! ### The full name -/

/-- A type in a namespace is found along the path from the first part on. -/
theorem Findable.typeIn?_pathName (h : o.Findable) {x : Place} (hx : x ∈ o.root.placed [])
    {rest : NamespacePath} (hpath : x.path = first :: rest) :
    o.typeIn? (pathName first rest) x.key = some x.id := by
  have hfirst : first ≠ "" := (h.segmented x hx first (hpath ▸ List.mem_cons_self)).1
  have hspace : pathName first rest = Namespace.qualifiedName x.path := by
    rw [pathName, if_neg hfirst, hpath, List.singleton_append, Namespace.qualifiedName]
  rw [hspace]
  exact h.typeIn?_of_placed hx

/-- **A type in a namespace is what its full name denotes in a file, unless an imported namespace or
the language has a type with the name of the first part.** -/
theorem Findable.resolve_fullName_iff (h : o.Findable) {x : Place}
    (hx : x ∈ o.root.placed []) {rest : NamespacePath} (hpath : x.path = first :: rest)
    (hkey : x.key = ⟨name, 0⟩) (hword : Text.endsIn first "::" = false)
    (hglobal : ∀ y ∈ o.root.placed [], y.path = [] → y.key ≠ ⟨first, 0⟩)
    (hfile : (o.scope file).spaceName = "") (halias : o.alias? file true first = none) :
    o.resolve { scopes := [file] } (plainName (x.path ++ [name]))
        = .ok (o.table.definitionType x.id) ↔
      (∀ u ∈ o.usingsOf file true, o.typeIn? u ⟨first, 0⟩ = none) ∧
        first ≠ "nint" ∧ first ≠ "nuint" := by
  have hhead : o.lookupSimple o.resolveAlias { scopes := [file] } first 0
      = .ok (o.importedHead file first) := lookupSimple_file hfile (h.typeIn?_global hglobal) halias
  have htop : o.table.lexicalOuter x.id = none := by
    rw [SymbolTable.lexicalOuter, h.places.container x hx]
  rw [hpath, List.cons_append, resolve_dotted_iff (List.concat_ne_nil name rest),
    ← importedHead_eq_none_iff]
  cases himported : o.importedHead file first with
  | some head =>
    rw [himported] at hhead
    refine iff_of_false (lookupQualified_typeHead hword hhead
      (declaration?_importedHead himported) ?_ htop) fun hnone => by cases hnone
    simp [spaceBound]
  | none =>
    rw [himported] at hhead
    have hid := h.typeIn?_pathName hx hpath
    rw [hkey] at hid
    refine iff_of_true ?_ rfl
    rw [lookupQualified_spaceHead hword hhead, namespacesNamed_file hfile halias]
    exact lookupPath_of_typeIn? hid []

end

end Outline

namespace Compilation

/-- **The same of every tree that writes the full name of a type out, in a file of a compilation and
at every point of the second pass.** -/
theorem resolve_pathQualified_iff {identity : AssemblyIdentity} {implicitUsings : Bool}
    {files : List (Text.Bytes × Source.Node)} {c : Compilation}
    (hfiles : (empty identity implicitUsings).addFiles files = .ok c) {o : Outline}
    (ho : c.outline.Grows o) {x : Place} (hx : x ∈ o.root.placed []) {first name : String}
    {rest : NamespacePath} (hpath : x.path = first :: rest) (hkey : x.key = ⟨name, 0⟩)
    (hword : Text.endsIn first "::" = false)
    (hglobal : ∀ y ∈ o.root.placed [], y.path = [] → y.key ≠ ⟨first, 0⟩) {file : ScopeId}
    (hfile : (o.scope file).spaceName = "") (halias : o.alias? file true first = none)
    {source : Text.Bytes} {n : Source.Node}
    (hn : Writes source n (Outline.plainName (x.path ++ [name]))) :
    o.resolve { scopes := [file] } (TypeForm.read source n)
        = .ok (o.table.definitionType x.id) ↔
      (∀ u ∈ o.usingsOf file true, o.typeIn? u ⟨first, 0⟩ = none) ∧
        first ≠ "nint" ∧ first ≠ "nuint" := by
  rw [hn.read]
  exact ((findable_addFiles hfiles).grows ho).resolve_fullName_iff hx hpath hkey hword hglobal
    hfile halias

/-! ### A namespace with the name of a well-known type -/

/-- A file that imports `System` and declares a class in the namespace `Range` and one in `N`. -/
def rangeFile : Text.Bytes × Source.Node :=
  (bytesOf "using System;using X = Range.D;namespace Range{class D{}}namespace N{class C{}}",
    namedNode "compilation_unit" 0 79 "" [
      namedNode "using_directive" 0 13 "" [
        namedLeaf "identifier" 6 12 ""],
      namedNode "using_directive" 13 31 "" [
        namedLeaf "identifier" 19 20 "name",
        tokenLeaf "=" 21 22,
        namedNode "qualified_name" 23 30 "" [
          namedLeaf "identifier" 23 28 "qualifier",
          namedLeaf "identifier" 29 30 "name"]],
      namedNode "namespace_declaration" 31 57 "" [
        namedLeaf "identifier" 41 46 "name",
        namedNode "declaration_list" 46 57 "body" [
          namedNode "class_declaration" 47 56 "" [
            namedLeaf "identifier" 53 54 "name",
            namedLeaf "declaration_list" 54 56 "body"]]],
      namedNode "namespace_declaration" 57 79 "" [
        namedLeaf "identifier" 67 68 "name",
        namedNode "declaration_list" 68 79 "body" [
          namedNode "class_declaration" 69 78 "" [
            namedLeaf "identifier" 75 76 "name",
            namedLeaf "declaration_list" 76 78 "body"]]]])

/-- What that file declares. -/
def rangeOutline : Outline :=
  ({} : Outline).addFile (Source.readItems rangeFile.1 rangeFile.2)

/-- The tree of the target of the second using directive. -/
def rangeTarget : Source.Node :=
  namedNode "qualified_name" 23 30 "" [
    namedLeaf "identifier" 23 28 "qualifier", namedLeaf "identifier" 29 30 "name"]

/-- The name of the class in the other namespace, and its tree. -/
def plainTarget : Text.Bytes × Source.Node :=
  (bytesOf "N.C", namedNode "qualified_name" 0 3 "" [
    namedLeaf "identifier" 0 1 "qualifier", namedLeaf "identifier" 2 3 "name"])

/-- Where the two classes lie, and what is imported. -/
theorem rangeOutline_facts :
    (rangeOutline.root.placed []).map (fun x => (x.path, x.key, x.id))
        = [(["Range"], ⟨"D", 0⟩, ⟨145⟩), (["N"], ⟨"C", 0⟩, ⟨146⟩)] ∧
      (rangeOutline.scope ⟨0⟩).spaceName = "" ∧
      rangeOutline.usingsOf ⟨0⟩ true = ["System"] ∧
      (rangeOutline.alias? ⟨0⟩ true "Range").isNone ∧ (rangeOutline.alias? ⟨0⟩ true "N").isNone ∧
      (rangeOutline.typeIn? "System" ⟨"Range", 0⟩).isSome ∧
      rangeOutline.typeIn? "System" ⟨"N", 0⟩ = none := by
  decide +kernel

theorem writes_qualified {source : Text.Bytes} {n qualifier name : Source.Node} {s t : String}
    (hkind : n.kind = "qualified_name") (hqualifier : n.field? "qualifier" = some qualifier)
    (hname : n.field? "name" = some name) (hs : qualifier.kind = "identifier")
    (ht : name.kind = "identifier") (hfirst : qualifier.text source = s)
    (hsecond : name.text source = t) : Writes source n (Outline.plainName [s, t]) := by
  subst hfirst hsecond
  exact .name (.qualified hkind hqualifier hname (.identifier hs) (.identifier ht))

/-- The full name of the class in `N` denotes it, and that of the class in `Range` does not: the
well-known structure of the name `Range` takes the first part. -/
theorem rangeFile_taken :
    ∃ c, (empty ⟨"R", "1.0.0.0", "neutral", none⟩ false).addFiles [rangeFile] = .ok c ∧
      c.outline.resolve { scopes := [⟨0⟩] } (TypeForm.read plainTarget.1 plainTarget.2)
        = .ok (c.outline.table.definitionType ⟨146⟩) ∧
      c.outline.resolve { scopes := [⟨0⟩] } (TypeForm.read rangeFile.1 rangeTarget)
        ≠ .ok (c.outline.table.definitionType ⟨145⟩) := by
  have hfiles : (empty ⟨"R", "1.0.0.0", "neutral", none⟩ false).addFiles [rangeFile]
      = .ok ⟨⟨"R", "1.0.0.0", "neutral", none⟩, rangeOutline, false⟩ := rfl
  obtain ⟨hplaced, hspace, husings, hrange, hplain, htaken, hfree⟩ := rangeOutline_facts
  obtain ⟨⟨_, _, _⟩, others, hplaces, hx, hothers⟩ := List.map_eq_cons_iff.mp hplaced
  obtain ⟨⟨_, _, _⟩, hy, hy'⟩ := List.map_eq_singleton_iff.mp hothers
  cases hx
  cases hy'
  rw [hy] at hplaces
  have hglobal : ∀ z ∈ rangeOutline.root.placed [], z.path ≠ [] := by
    rw [hplaces]
    simp
  have hD : (⟨["Range"], ⟨"D", 0⟩, ⟨145⟩⟩ : Place) ∈ rangeOutline.root.placed [] := by
    rw [hplaces]
    exact List.mem_cons_self
  have hC : (⟨["N"], ⟨"C", 0⟩, ⟨146⟩⟩ : Place) ∈ rangeOutline.root.placed [] := by
    rw [hplaces]
    exact List.mem_cons_of_mem _ List.mem_cons_self
  have hrangeName : Writes rangeFile.1 rangeTarget (Outline.plainName ["Range", "D"]) := by
    refine writes_qualified rfl rfl rfl rfl rfl ?_ ?_ <;> decide
  have hplainName : Writes plainTarget.1 plainTarget.2 (Outline.plainName ["N", "C"]) := by
    refine writes_qualified rfl rfl rfl rfl rfl ?_ ?_ <;> decide
  refine ⟨_, hfiles, ?_, fun hresolve => ?_⟩
  · refine (resolve_pathQualified_iff hfiles (Outline.Grows.refl _) hC rfl rfl (by decide)
      (fun z hz hnil => absurd hnil (hglobal z hz)) hspace (Option.isNone_iff_eq_none.mp hplain)
      hplainName).mpr ⟨?_, by decide⟩
    rw [show Outline.usingsOf _ _ _ = _ from husings]
    exact List.forall_mem_singleton.mpr hfree
  · have hnone := ((resolve_pathQualified_iff hfiles (Outline.Grows.refl _) hD rfl rfl
      (by decide) (fun z hz hnil => absurd hnil (hglobal z hz)) hspace
      (Option.isNone_iff_eq_none.mp hrange) hrangeName).mp hresolve).1 "System"
      (husings ▸ List.mem_cons_self)
    rw [show Outline.typeIn? _ _ _ = none from hnone] at htaken
    cases htaken

end Compilation

end ExtensionCensus.Binding
