import ExtensionCensus.Proofs.Binding.Comments
import ExtensionCensus.Proofs.Binding.Entering
import ExtensionCensus.Proofs.Binding.Gathering

/-!
# Ways of writing namespaces

A namespace may be written as a block with a dotted name, as blocks in one another, or once for
everything that follows in the file, which some parsers leave behind the declaration and others put
under it. What a file declares does not depend on the way.

* `isSilent` — the nodes that declare nothing;
* `Respaced` — the children of two nodes that differ in the ways their namespaces are written;
* `Outline.declareItems_respaced` — what one way of writing declares, the other does;
* `compile_respaced` — **the way in which namespaces are written does not change the assembly**;
* `moved_differs` — what may not be moved under the declaration of a file-scoped namespace.
-/

namespace ExtensionCensus

namespace Source

open Text (Bytes)

/-! ### Nodes that declare nothing -/

/-- A node of this sort declares nothing among the children of a node of the kind `around`. -/
def isSilent (around : String) (c : Node) : Bool :=
  !(["using_directive", "namespace_declaration", "file_scoped_namespace_declaration"].contains c.kind)
    && !(c.kind = "declaration_list" && around = "file_scoped_namespace_declaration")
    && (definitionKind? c).isNone

theorem readItem?_of_isSilent {source : Bytes} {around : String} {c : Node}
    (h : isSilent around c = true) : readItem? source around c = none := by
  simp only [isSilent, Bool.and_eq_true, Bool.not_eq_true', Option.isNone_iff_eq_none] at h
  obtain ⟨⟨hkind, hlist⟩, htype⟩ := h
  rw [readItem?]
  split
  · next hk => exact absurd hkind (by rw [hk]; decide)
  · next hk => exact absurd hkind (by rw [hk]; decide)
  · next hk => exact absurd hkind (by rw [hk]; decide)
  · next hk =>
    rw [hk, decide_eq_true rfl, Bool.true_and, decide_eq_false_iff_not] at hlist
    exact if_neg hlist
  · rw [TypeDeclaration.read?_eq, htype]
    rfl

theorem filterMap_readItem?_of_isSilent {source : Bytes} {around : String} {nodes : List Node}
    (h : ∀ c ∈ nodes, isSilent around c = true) : nodes.filterMap (readItem? source around) = [] :=
  List.filterMap_eq_nil_iff.mpr fun c hc => readItem?_of_isSilent (h c hc)

/-! ### Two ways of writing -/

/-- The children `old` of a node of the kind `around` in one file and the children `new` of a node of
the kind `around'` in another, if they declare the same in namespaces that may be written in other
ways. -/
inductive Respaced (source source' : Bytes) : String → String → List Node → List Node → Prop where
  /-- The end of both. -/
  | done (around around' : String) : Respaced source source' around around' [] []
  /-- A node that declares nothing is left out. -/
  | leave {around around' : String} {c : Node} {old new : List Node} (silent : isSilent around c)
      (behind : Respaced source source' around around' old new) :
      Respaced source source' around around' (c :: old) new
  /-- A node that declares nothing is put in. -/
  | put {around around' : String} {c' : Node} {old new : List Node} (silent : isSilent around' c')
      (behind : Respaced source source' around around' old new) :
      Respaced source source' around around' old (c' :: new)
  /-- A node stays as it is; a list of declarations only counts under a file-scoped namespace. -/
  | keep {around around' : String} {c c' : Node} {old new : List Node}
      (same : Respelled source source' c c')
      (listed : c.kind = "declaration_list" → (around = "file_scoped_namespace_declaration" ↔
        around' = "file_scoped_namespace_declaration"))
      (behind : Respaced source source' around around' old new) :
      Respaced source source' around around' (c :: old) (c' :: new)
  /-- Something changes inside a block. -/
  | block {around around' : String} {c c' : Node} {old new : List Node}
      (kind : c.kind = "namespace_declaration") (kind' : c'.kind = "namespace_declaration")
      (name : namespaceName source' c' = namespaceName source c)
      (inside : Respaced source source' (bodyKind c) (bodyKind c') (bodyNodes c) (bodyNodes c'))
      (behind : Respaced source source' around around' old new) :
      Respaced source source' around around' (c :: old) (c' :: new)
  /-- Something changes under a file-scoped namespace. -/
  | fileScoped {around around' : String} {c c' : Node} {old new : List Node}
      (kind : c.kind = "file_scoped_namespace_declaration")
      (kind' : c'.kind = "file_scoped_namespace_declaration")
      (name : namespaceName source' c' = namespaceName source c)
      (inside : Respaced source source' "file_scoped_namespace_declaration"
        "file_scoped_namespace_declaration" c.children c'.children)
      (behind : Respaced source source' around around' old new) :
      Respaced source source' around around' (c :: old) (c' :: new)
  /-- A block with a dotted name becomes two blocks, the outer one with nothing else in it. -/
  | split {around around' : String} {c c' d : Node} {old new front back : List Node}
      (kind : c.kind = "namespace_declaration") (kind' : c'.kind = "namespace_declaration")
      (inner : d.kind = "namespace_declaration")
      (name : namespaceName source c = namespaceName source' c' ++ "." ++ namespaceName source' d)
      (body : bodyNodes c' = front ++ d :: back)
      (alone : ∀ k ∈ front ++ back, isSilent (bodyKind c') k)
      (inside : Respaced source source' (bodyKind c) (bodyKind d) (bodyNodes c) (bodyNodes d))
      (behind : Respaced source source' around around' old new) :
      Respaced source source' around around' (c :: old) (c' :: new)
  /-- A list under a file-scoped namespace gives way to what it holds. -/
  | spread {around' : String} {c : Node} {old new inner : List Node}
      (kind : c.kind = "declaration_list")
      (only : ∀ k ∈ inner, k.kind ≠ "file_scoped_namespace_declaration")
      (inside : Respaced source source' "declaration_list" around' c.children inner)
      (behind : Respaced source source' "file_scoped_namespace_declaration" around' old new) :
      Respaced source source' "file_scoped_namespace_declaration" around' (c :: old) (inner ++ new)
  /-- A file-scoped namespace becomes a block around everything that follows it. -/
  | wrap {around around' : String} {c c' : Node} {old own moved after : List Node}
      (kind : c.kind = "file_scoped_namespace_declaration")
      (kind' : c'.kind = "namespace_declaration")
      (name : namespaceName source' c' = namespaceName source c)
      (only : ∀ k ∈ own, k.kind ≠ "file_scoped_namespace_declaration")
      (body : bodyNodes c' = own ++ moved)
      (inside : Respaced source source' "file_scoped_namespace_declaration" (bodyKind c') c.children
        own)
      (follows : Respaced source source' around (bodyKind c') old moved)
      (last : ∀ k ∈ after, isSilent around' k) :
      Respaced source source' around around' (c :: old) (c' :: after)
  /-- What follows a file-scoped namespace is moved under its declaration. -/
  | hang {around around' : String} {c c' : Node} {old own moved after : List Node}
      (kind : c.kind = "file_scoped_namespace_declaration")
      (kind' : c'.kind = "file_scoped_namespace_declaration")
      (name : namespaceName source' c' = namespaceName source c)
      (only : ∀ k ∈ own, k.kind ≠ "file_scoped_namespace_declaration")
      (children : c'.children = own ++ moved)
      (inside : Respaced source source' "file_scoped_namespace_declaration"
        "file_scoped_namespace_declaration" c.children own)
      (follows : Respaced source source' around "file_scoped_namespace_declaration" old moved)
      (last : ∀ k ∈ after, isSilent around' k) :
      Respaced source source' around around' (c :: old) (c' :: after)
  /-- What follows a file-scoped namespace is moved into a list under its declaration. -/
  | enlist {around around' : String} {c c' list : Node} {old own tail after : List Node}
      (kind : c.kind = "file_scoped_namespace_declaration")
      (kind' : c'.kind = "file_scoped_namespace_declaration")
      (name : namespaceName source' c' = namespaceName source c)
      (only : ∀ k ∈ own, k.kind ≠ "file_scoped_namespace_declaration")
      (children : c'.children = own ++ list :: tail) (listKind : list.kind = "declaration_list")
      (inside : Respaced source source' "file_scoped_namespace_declaration"
        "file_scoped_namespace_declaration" c.children own)
      (follows : Respaced source source' around "declaration_list" old list.children)
      (alone : ∀ k ∈ tail, isSilent "file_scoped_namespace_declaration" k)
      (last : ∀ k ∈ after, isSilent around' k) :
      Respaced source source' around around' (c :: old) (c' :: after)

/-- Two files that declare the same in namespaces that may be written in other ways. -/
def RespacedFile (file file' : Bytes × Node) : Prop :=
  Respaced file.1 file'.1 file.2.kind file'.2.kind file.2.children file'.2.children

end Source

namespace Binding

open Source

namespace Outline

/-- **What one way of writing declares, the other does**, whatever was declared before and in
whatever scopes. -/
theorem declareItems_respaced {source source' : Text.Bytes} {around around' : String}
    {old new : List Node} (h : Respaced source source' around around' old new) (o : Outline)
    (chain : ScopeChain) :
    o.declareItems chain (new.filterMap (readItem? source' around')) =
      o.declareItems chain (old.filterMap (readItem? source around)) := by
  induction h generalizing o chain with
  | done around around' => rfl
  | leave silent behind ih =>
    rw [List.filterMap_cons_none (readItem?_of_isSilent silent), ih]
  | put silent behind ih =>
    rw [List.filterMap_cons_none (readItem?_of_isSilent silent), ih]
  | @keep around around' c c' old new same listed behind ih =>
    have hitem : readItem? source' around' c' = readItem? source around c :=
      same.item?_eq listed same.items_eq fun _ _ _ hbody => hbody.items_eq
    rw [List.filterMap_cons, List.filterMap_cons, hitem]
    cases readItem? source around c with
    | none => exact ih o chain
    | some item => simp only [declareItems_cons, ih]
  | block kind kind' name inside behind ihInside ihBehind =>
    rw [List.filterMap_cons_some (readItem?_block kind),
      List.filterMap_cons_some (readItem?_block kind'), declareItems_block, declareItems_block, name,
      bodyItems, bodyItems, ihInside, ihBehind]
  | fileScoped kind kind' name inside behind ihInside ihBehind =>
    rw [List.filterMap_cons_some (readItem?_fileScoped kind),
      List.filterMap_cons_some (readItem?_fileScoped kind'), declareItems_fileScoped,
      declareItems_fileScoped, name, readItems_eq, readItems_eq, kind, kind', ihInside, ihBehind]
  | @split around around' c c' d old new front back kind kind' inner name body alone inside behind
      ihInside ihBehind =>
    -- the outer block opens the first half of the name and holds the inner block alone
    have houter : bodyItems source' c' =
        [.block (namespaceName source' d) (bodyItems source' d)] := by
      have hfront : front.filterMap (readItem? source' (bodyKind c')) = [] :=
        filterMap_readItem?_of_isSilent fun k hk => alone k (List.mem_append_left _ hk)
      have hback : back.filterMap (readItem? source' (bodyKind c')) = [] :=
        filterMap_readItem?_of_isSilent fun k hk => alone k (List.mem_append_right _ hk)
      rw [bodyItems, body, List.filterMap_append, List.filterMap_cons_some (readItem?_block inner),
        hfront, hback, List.nil_append]
    rw [List.filterMap_cons_some (readItem?_block kind),
      List.filterMap_cons_some (readItem?_block kind'), declareItems_block, declareItems_block,
      houter, declareItems_block, declareItems_nil, name, enter_append, bodyItems, bodyItems,
      ihInside, ihBehind]
  | @spread around' c old new inner kind only inside behind ihInside ihBehind =>
    rw [List.filterMap_append, declareItems_append only, ihInside, ihBehind,
      List.filterMap_cons_some (readItem?_list kind), declareItems_group, readItems_eq, kind]
  | @wrap around around' c c' old own moved after kind kind' name only body inside follows last
      ihInside ihFollows =>
    rw [List.filterMap_cons_some (readItem?_block kind'), filterMap_readItem?_of_isSilent last,
      declareItems_block, declareItems_nil, bodyItems, body, List.filterMap_append,
      declareItems_append only, ihInside, ihFollows,
      List.filterMap_cons_some (readItem?_fileScoped kind), declareItems_fileScoped, name,
      readItems_eq, kind]
  | @hang around around' c c' old own moved after kind kind' name only children inside follows last
      ihInside ihFollows =>
    rw [List.filterMap_cons_some (readItem?_fileScoped kind'),
      filterMap_readItem?_of_isSilent last, declareItems_fileScoped, declareItems_nil,
      readItems_eq source', kind', children, List.filterMap_append, declareItems_append only,
      ihInside, ihFollows, List.filterMap_cons_some (readItem?_fileScoped kind),
      declareItems_fileScoped, name, readItems_eq, kind]
  | @enlist around around' c c' list old own tail after kind kind' name only children listKind
      inside follows alone last ihInside ihFollows =>
    rw [List.filterMap_cons_some (readItem?_fileScoped kind'),
      filterMap_readItem?_of_isSilent last, declareItems_fileScoped, declareItems_nil,
      readItems_eq source', kind', children, List.filterMap_append, declareItems_append only,
      ihInside, List.filterMap_cons_some (readItem?_list listKind),
      filterMap_readItem?_of_isSilent alone, declareItems_group, declareItems_nil,
      readItems_eq source', listKind, ihFollows,
      List.filterMap_cons_some (readItem?_fileScoped kind), declareItems_fileScoped, name,
      readItems_eq, kind]

end Outline

/-- Adding a file reads the way of writing away. -/
theorem Compilation.addFile_respaced {file file' : Text.Bytes × Node} (h : RespacedFile file file')
    (c : Compilation) : c.addFile file'.1 file'.2 = c.addFile file.1 file.2 := by
  have hitems (o : Outline) :
      o.addFile (readItems file'.1 file'.2) = o.addFile (readItems file.1 file.2) := by
    rw [Outline.addFile, Outline.addFile, readItems_eq, readItems_eq]
    exact Outline.declareItems_respaced h _ _
  rw [addFile, addFile, hitems]

theorem Compilation.addFiles_respaced {files files' : List (Text.Bytes × Node)}
    (h : List.Forall₂ RespacedFile files files') (c : Compilation) :
    c.addFiles files' = c.addFiles files :=
  addFiles_congr addFile_respaced h c

/-- **The way in which namespaces are written does not change the assembly.**  Files that differ in
it, in one place or many, at any depth and over any bytes, are compiled to the same assembly, with
the same namespaces and members in the same order and the same bound types, or refused for the same
reason. -/
theorem compile_respaced (identity : AssemblyIdentity) (implicitUsings : Bool)
    {files files' : List (Text.Bytes × Node)} (h : List.Forall₂ RespacedFile files files') :
    compile identity implicitUsings files' = compile identity implicitUsings files := by
  rw [compile, compile, Compilation.addFiles_respaced h]

/-! ### Four ways in four files -/

/-- The class `class T{}` as it stands at a place of a file. -/
def classNode (place : Nat) (field : String) : Node :=
  namedNode "class_declaration" place (place + 9) field [
    namedLeaf "identifier" (place + 6) (place + 7) "name",
    namedNode "declaration_list" (place + 7) (place + 9) "body" []]

/-- The class in a block with a dotted name. -/
def dottedFile : Text.Bytes × Node :=
  (bytesOf "namespace A.B{class T{}}",
    namedNode "compilation_unit" 0 24 "" [
      namedNode "namespace_declaration" 0 24 "" [
        namedLeaf "qualified_name" 10 13 "name",
        namedNode "declaration_list" 13 24 "body" [classNode 14 ""]]])

/-- The class in two blocks. -/
def nestedFile : Text.Bytes × Node :=
  (bytesOf "namespace A{namespace B{class T{}}}",
    namedNode "compilation_unit" 0 35 "" [
      namedNode "namespace_declaration" 0 35 "" [
        namedLeaf "identifier" 10 11 "name",
        namedNode "declaration_list" 11 35 "body" [
          tokenLeaf "\x7b" 11 12,
          namedNode "namespace_declaration" 12 34 "" [
            namedLeaf "identifier" 22 23 "name",
            namedNode "declaration_list" 23 34 "body" [classNode 24 ""]],
          tokenLeaf "\x7d" 34 35]]])

/-- A file-scoped namespace with nodes under its declaration and behind it. -/
def scopedFile (under behind : List Node) : Text.Bytes × Node :=
  (bytesOf "namespace C;class T{}", namedNode "compilation_unit" 0 21 ""
    (namedNode "file_scoped_namespace_declaration" 0 12 "" under :: behind))

/-- The name of that namespace. -/
def scopedName : Node :=
  namedLeaf "identifier" 10 11 "name"

/-- The class in that namespace as a block. -/
def blockFile : Text.Bytes × Node :=
  (bytesOf "namespace C{class T{}}",
    namedNode "compilation_unit" 0 22 "" [
      namedNode "namespace_declaration" 0 22 "" [
        namedLeaf "identifier" 10 11 "name",
        namedNode "declaration_list" 11 22 "body" [classNode 12 ""]]])

/-- A list of declarations that holds the class. -/
def classList : Node :=
  namedNode "declaration_list" 12 21 "" [classNode 12 ""]

/-- The class behind the declaration of its namespace. -/
def plainFile : Text.Bytes × Node :=
  scopedFile [scopedName] [classNode 12 ""]

/-- Two blocks in one another declare what one with a dotted name does. -/
theorem respaced_nestedFile : RespacedFile dottedFile nestedFile :=
  .split rfl rfl rfl (by decide +kernel) (show bodyNodes _ = [_] ++ _ :: [_] from rfl) (by decide)
    (.keep (respelled_of_respells _ _ (by decide +kernel)) (fun h => absurd h (by decide))
      (.done _ _)) (.done _ _)

/-- A block around everything declares what a file-scoped namespace does. -/
theorem respaced_blockFile : RespacedFile plainFile blockFile :=
  .wrap rfl rfl (by decide +kernel) (by decide) (show bodyNodes _ = [] ++ _ from rfl)
    (.leave (by decide) (.done _ _))
    (.keep (respelled_of_respells _ _ (by decide +kernel)) (fun h => absurd h (by decide))
      (.done _ _)) (by decide)

/-- So does the declaration with everything moved under it. -/
theorem respaced_movedFile :
    RespacedFile plainFile (scopedFile [scopedName, classNode 12 ""] []) :=
  .hang rfl rfl rfl (by decide) (show _ = [scopedName] ++ [_] from rfl)
    (.keep (Commented.refl _ _).respelled (fun h => absurd h (by decide)) (.done _ _))
    (.keep (Commented.refl _ _).respelled (fun h => absurd h (by decide)) (.done _ _)) (by decide)

/-- So does the declaration with everything moved into a list under it. -/
theorem respaced_listedFile : RespacedFile plainFile (scopedFile [scopedName, classList] []) :=
  .enlist rfl rfl rfl (by decide) (show _ = [scopedName] ++ classList :: [] from rfl) rfl
    (.keep (Commented.refl _ _).respelled (fun h => absurd h (by decide)) (.done _ _))
    (.keep (Commented.refl _ _).respelled (fun h => absurd h (by decide)) (.done _ _)) (by decide) (by decide)

/-- How the types of an assembly are displayed. -/
def typesOf (outcome : Except CompilationError Assembly) : List String :=
  match outcome with
  | .error _ => []
  | .ok a => a.root.allTypes.map fun id => a.table.display (a.table.definitionType id)

/-- The four ways at once. -/
theorem fourFiles_compile :
    compile ⟨"E", "1.0.0.0", "neutral", none⟩ false
        [nestedFile, blockFile, scopedFile [scopedName, classNode 12 ""] [],
          scopedFile [scopedName, classList] []] =
      compile ⟨"E", "1.0.0.0", "neutral", none⟩ false
        [dottedFile, plainFile, plainFile, plainFile] ∧
    typesOf (compile ⟨"E", "1.0.0.0", "neutral", none⟩ false
        [dottedFile, plainFile, plainFile, plainFile]) = ["A.B.T", "C.T"] := by
  refine ⟨compile_respaced _ _ (.cons respaced_nestedFile (.cons respaced_blockFile
    (.cons respaced_movedFile (.cons respaced_listedFile .nil)))), ?_⟩
  decide +kernel

/-! ### What may not be moved -/

/-- A file-scoped namespace `C` among the children of another node. -/
def innerScope : Node :=
  namedNode "file_scoped_namespace_declaration" 0 12 "" [scopedName]

/-- Moving what follows a file-scoped namespace under its declaration changes the assembly if a bare
list of declarations is moved, which is not read where it stood; if the declaration holds a
file-scoped namespace already, which then counts for what was moved; and if the declaration has no
name of its own and takes one from what was moved. -/
theorem moved_differs :
    compile ⟨"E", "1.0.0.0", "neutral", none⟩ false [scopedFile [scopedName, classList] []] ≠
        compile ⟨"E", "1.0.0.0", "neutral", none⟩ false [scopedFile [scopedName] [classList]] ∧
      compile ⟨"E", "1.0.0.0", "neutral", none⟩ false
          [scopedFile [scopedName, innerScope, classNode 12 ""] []] ≠
        compile ⟨"E", "1.0.0.0", "neutral", none⟩ false
          [scopedFile [scopedName, innerScope] [classNode 12 ""]] ∧
      compile ⟨"E", "1.0.0.0", "neutral", none⟩ false [scopedFile [classNode 12 "name"] []] ≠
        compile ⟨"E", "1.0.0.0", "neutral", none⟩ false [scopedFile [] [classNode 12 "name"]] := by
  refine ⟨ne_of_apply_ne typesOf ?_, ne_of_apply_ne typesOf ?_, ne_of_apply_ne typesOf ?_⟩
  · decide +kernel
  · decide +kernel
  · decide +kernel

end Binding

end ExtensionCensus
