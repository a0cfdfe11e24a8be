import ExtensionCensus.Proofs.Binding.Gathering
import ExtensionCensus.Proofs.Extension.Containers
import ExtensionCensus.Proofs.Extension.Record

/-!
# Discovery is exact

* `Discovers` — what discovery finds in an assembly is what some declarations say;
* `discovery_exact` — **the containers that are found are those that the sources declare, each once and
  in the order of the namespaces, and their extension methods are those that the sources declare, in
  order**.
-/

namespace ExtensionCensus

open Source (Declared Reads readOrdinary? declaredAt qualifies extensionNodesAt namedLeaf namedNode
  bytesOf)

/-! ### Discovery -/

/-- What discovery finds in an assembly is what some declarations say. -/
structure Discovers (ds : List Declared) (a : Assembly) : Prop where
  /-- Types lie exactly where some are declared. -/
  places : ∀ (path : NamespacePath) (key : TypeKey),
    (∃ x ∈ a.root.placed [], x.path = path ∧ x.key = key) ↔ declaredAt ds path key ≠ []
  /-- No two types lie under the same path and key. -/
  distinct : ((a.root.placed []).map fun x => (x.path, x.key)).Nodup
  /-- A type is what it was placed as. -/
  named : ∀ x ∈ a.root.placed [],
    (a.table.definition x.id).container = .namespace x.path ∧ a.table.key x.id = x.key
  /-- The containers are the types that their declarations qualify, in the order of the namespaces. -/
  listed : a.table.discover a.root
    = ((a.root.placed []).filter fun x => qualifies ds x.path x.key).map (·.id)
  /-- Every container is listed once. -/
  once : (a.table.discover a.root).Nodup
  /-- The extension methods of a container are those at the nodes that its declarations list. -/
  methods : ∀ x ∈ a.root.placed [], qualifies ds x.path x.key = true →
    (a.table.extensionMethods x.id).Nodup ∧
      List.Forall₂ (fun m e => ∃ form, readOrdinary? e.1.source e.2 = some form ∧
          Binding.Outline.Implements a.table x.id m form)
        (a.table.extensionMethods x.id) (extensionNodesAt ds x.path x.key)
  /-- A record lists all of them, unless the walk over a receiver refuses its type. -/
  records : ∀ id, (∃ record, a.table.containerRecord (a.table.definitionType id) id = .ok record ∧
        List.Forall₂ (fun m r => a.table.classifyMethod m = .ok r) (a.table.extensionMethods id)
          record.methods) ∨
      ∃ front m back receiver cause, a.table.RefusedAt id front m back receiver cause
  /-- No type with extension methods is left out. -/
  unhidden : ∀ id, a.table.extensionMethods id ≠ [] → id ∈ a.table.discover a.root

namespace Binding

/-- Reading files keeps their declarations in no other type. -/
theorem reads_files (files : List (Text.Bytes × Source.Node)) :
    List.Forall₂ Reads (files.flatMap Source.declaredInFile)
      (files.flatMap Source.topsOfFile) := by
  induction files with
  | nil => exact .nil
  | cons file rest ih => exact List.rel_append (Source.reads_declaredInFile file) ih

/-- What the outline of some files is bound to comes of their declarations. -/
theorem boundFrom_ofFiles {implicitUsings : Bool} {files : List (Text.Bytes × Source.Node)}
    {o : Outline} (h : (Outline.ofFiles implicitUsings files).bind = .ok o) :
    Outline.BoundFrom (Outline.ofFiles implicitUsings files) o
      (files.flatMap Source.declaredInFile) :=
  ⟨Outline.outlined_ofFiles, Outline.tallied_ofFiles, ⟨_, Outline.tops_ofFiles, reads_files files⟩, h⟩

/-- An assembly comes from an outline that was bound. -/
theorem boundFrom_compile {identity : AssemblyIdentity} {implicitUsings : Bool}
    {files : List (Text.Bytes × Source.Node)} {a : Assembly}
    (h : compile identity implicitUsings files = .ok a) :
    ∃ o o', Outline.BoundFrom o o' (files.flatMap Source.declaredInFile) ∧
      a.table = o'.table ∧ a.root = o.root := by
  obtain ⟨o, ho, rfl, hroot⟩ := bind_of_compile h
  exact ⟨_, o, boundFrom_ofFiles ho, rfl, hroot⟩

/-- What discovery finds in an assembly that comes of some files is what their declarations say. -/
theorem discovers_of_compile {identity : AssemblyIdentity} {implicitUsings : Bool}
    {files : List (Text.Bytes × Source.Node)} {a : Assembly}
    (h : compile identity implicitUsings files = .ok a) :
    Discovers (files.flatMap Source.declaredInFile) a := by
  obtain ⟨o, o', hfrom, htable, hroot⟩ := boundFrom_compile h
  obtain ⟨extra, hmakes, -, -⟩ := hfrom.outlined.makes_bind hfrom.bound
  have hshape := hmakes.grows.shape
  have hw := hfrom.outlined.toWellFormed
  obtain ⟨ts, hts, hds⟩ := hfrom.declared
  have hlisted : a.table.discover a.root = ((a.root.placed []).filter fun x =>
      qualifies (files.flatMap Source.declaredInFile) x.path x.key).map (·.id) := by
    rw [SymbolTable.discover, ← Namespace.map_id_placed [], List.filter_map, htable, hroot]
    refine congrArg _ (List.filter_congr fun x hx => ?_)
    rw [Function.comp_apply, Bool.eq_iff_iff, hfrom.holdsExtensions_iff, hfrom.qualifies_iff hx]
  have hnodup : ((a.root.placed []).map (·.id)).Nodup := by
    rw [hroot]
    refine List.Nodup.map_on (fun x hx y hy he => hw.place_of_id hx hy he) ?_
    exact hfrom.tallied.unique.of_map _
  refine ⟨fun path key => ?_, hroot ▸ hfrom.tallied.unique, fun x hx => ?_, hlisted, ?_,
    fun x hx hq => ?_, fun id => a.table.containerRecord_cases id, fun id hne => ?_⟩
  · have hreads := (Outline.reads_declaredAt hds path key).length_eq
    rw [hroot, hfrom.tallied.placed_iff hw hts, Ne, Ne, ← List.length_eq_zero_iff, ← hreads,
      List.length_eq_zero_iff]
  · rw [hroot] at hx
    rw [htable, (hshape.agrees x.id).container, hw.places.container x hx,
      hshape.keeps.key (hw.places.index_lt x hx), hw.places.key x hx]
    exact ⟨rfl, rfl⟩
  · rw [hlisted]
    exact hnodup.sublist (List.filter_sublist.map _)
  · rw [hroot] at hx
    rw [htable]
    exact ⟨(hfrom.extensionMethods x.id).2, hfrom.extensionNodes hx hq⟩
  · rw [htable] at hne
    obtain ⟨x, hx, rfl⟩ := hfrom.placed_of_extensionMethods hne
    rw [hlisted, hroot]
    exact List.mem_map_of_mem (List.mem_filter.mpr ⟨hx, (hfrom.qualifies_iff hx).mpr hne⟩)

/-- **Discovery is exact.**  Whatever files are compiled, the containers that discovery lists are,
each once and in the order of the namespaces, the types in namespaces that their declarations
qualify; their extension methods are those at the nodes that their declarations list, in order; and
the test that comes before looking at the methods leaves none of them out.  The record of a container
lists all of its extension methods, unless the walk over a receiver refuses its type.  Files are
compiled unless a node in one of their trees has no child for the type that it puts a shape on. -/
theorem discovery_exact (identity : AssemblyIdentity) (implicitUsings : Bool)
    (files : List (Text.Bytes × Source.Node)) :
    (∃ a, compile identity implicitUsings files = .ok a ∧
        Discovers (files.flatMap Source.declaredInFile) a) ∨
      (compile identity implicitUsings files = .error (.bind .missingOperand) ∧
        ∃ file ∈ files, file.2.hasOperands = false) := by
  rcases compile_total identity implicitUsings files with ⟨a, ha⟩ | hmissing
  · exact Or.inl ⟨a, ha, discovers_of_compile ha⟩
  · exact Or.inr hmissing

/-! ### A container in two files, one without records, and one that is not compiled -/

/-- One part of a type, not static itself, that lists an extension method. -/
def methodFile : Text.Bytes × Source.Node :=
  (bytesOf "partial class S{static void F(this int x){}}",
    namedNode "compilation_unit" 0 44 "" [
      namedNode "class_declaration" 0 44 "" [
        namedLeaf "modifier" 0 7 "",
        namedLeaf "identifier" 14 15 "name",
        namedNode "declaration_list" 15 44 "body" [
          namedNode "method_declaration" 16 43 "" [
            namedLeaf "modifier" 16 22 "",
            namedLeaf "predefined_type" 23 27 "returns",
            namedLeaf "identifier" 28 29 "name",
            namedNode "parameter_list" 29 41 "parameters" [
              namedNode "parameter" 30 40 "" [
                namedLeaf "modifier" 30 34 "",
                namedLeaf "predefined_type" 35 38 "type",
                namedLeaf "identifier" 39 40 "name"]]]]]])

/-- Another part, static and without members. -/
def staticFile : Text.Bytes × Source.Node :=
  (bytesOf "static partial class S{}",
    namedNode "compilation_unit" 0 24 "" [
      namedNode "class_declaration" 0 24 "" [
        namedLeaf "modifier" 0 6 "",
        namedLeaf "modifier" 7 14 "",
        namedLeaf "identifier" 21 22 "name",
        namedNode "declaration_list" 22 24 "body" []]])

/-- The container is found, although no file alone tells that it is one. -/
theorem splitContainer_discovered :
    ∃ a, compile ⟨"S", "1.0.0.0", "neutral", none⟩ true [methodFile, staticFile] = .ok a ∧
      (a.table.discover a.root).map a.table.key = [⟨"S", 0⟩] ∧
      Discovers ([methodFile, staticFile].flatMap Source.declaredInFile) a := by
  have hkeys : (compile ⟨"S", "1.0.0.0", "neutral", none⟩ true [methodFile, staticFile]).toOption.map
      (fun a => (a.table.discover a.root).map a.table.key) = some [⟨"S", 0⟩] := by
    decide +kernel
  rcases discovery_exact ⟨"S", "1.0.0.0", "neutral", none⟩ true [methodFile, staticFile] with
    ⟨a, ha, hdiscovers⟩ | ⟨herror, -⟩
  · rw [ha] at hkeys
    exact ⟨a, ha, Option.some.inj hkeys, hdiscovers⟩
  · rw [herror] at hkeys
    cases hkeys

/-- A container with a method whose receiver is dynamic. -/
def dynamicFile : Text.Bytes × Source.Node :=
  (bytesOf "static class E{static void G(this dynamic x){}}",
    namedNode "compilation_unit" 0 47 "" [
      namedNode "class_declaration" 0 47 "" [
        namedLeaf "modifier" 0 6 "",
        namedLeaf "identifier" 13 14 "name",
        namedNode "declaration_list" 14 47 "body" [
          namedNode "method_declaration" 15 46 "" [
            namedLeaf "modifier" 15 21 "",
            namedLeaf "predefined_type" 22 26 "returns",
            namedLeaf "identifier" 27 28 "name",
            namedNode "parameter_list" 28 44 "parameters" [
              namedNode "parameter" 29 43 "" [
                namedLeaf "modifier" 29 33 "",
                namedLeaf "identifier" 34 41 "type",
                namedLeaf "identifier" 42 43 "name"]]]]]])

/-- The type has one extension method and is listed, and no record lists its methods: the walk refuses
the receiver. -/
theorem dynamicReceiver_refused :
    ∃ a id, compile ⟨"E", "1.0.0.0", "neutral", none⟩ true [dynamicFile] = .ok a ∧
      a.table.discover a.root = [id] ∧ (a.table.extensionMethods id).length = 1 ∧
      ∀ record, a.table.containerRecord (a.table.definitionType id) id ≠ .ok record := by
  have hdiscovered : (compile ⟨"E", "1.0.0.0", "neutral", none⟩ true [dynamicFile]).toOption.map
      (fun a => (a.table.discover a.root).map fun id => ((a.table.extensionMethods id).length,
        (a.table.containerRecord (a.table.definitionType id) id).toOption.isNone)) =
      some [(1, true)] := by
    decide +kernel
  cases ha : compile ⟨"E", "1.0.0.0", "neutral", none⟩ true [dynamicFile] with
  | error e =>
    rw [ha] at hdiscovered
    cases hdiscovered
  | ok a =>
    rw [ha] at hdiscovered
    obtain ⟨id, hid, hboth⟩ := List.map_eq_singleton_iff.mp (Option.some.inj hdiscovered)
    obtain ⟨hlength, hnone⟩ := Prod.mk.inj hboth
    refine ⟨a, id, rfl, hid, hlength, fun record hrecord => ?_⟩
    rw [hrecord] at hnone
    cases hnone

/-- A container, and a class with a field whose nullable type has no child. -/
def operandlessFile : Text.Bytes × Source.Node :=
  (bytesOf "static class E{static void F(this int x){}}class B{? f;}",
    namedNode "compilation_unit" 0 56 "" [
      namedNode "class_declaration" 0 43 "" [
        namedLeaf "modifier" 0 6 "",
        namedLeaf "identifier" 13 14 "name",
        namedNode "declaration_list" 14 43 "body" [
          namedNode "method_declaration" 15 42 "" [
            namedLeaf "modifier" 15 21 "",
            namedLeaf "predefined_type" 22 26 "returns",
            namedLeaf "identifier" 27 28 "name",
            namedNode "parameter_list" 28 40 "parameters" [
              namedNode "parameter" 29 39 "" [
                namedLeaf "modifier" 29 33 "",
                namedLeaf "predefined_type" 34 37 "type",
                namedLeaf "identifier" 38 39 "name"]]]]],
      namedNode "class_declaration" 43 56 "" [
        namedLeaf "identifier" 49 50 "name",
        namedNode "declaration_list" 50 56 "body" [
          namedNode "field_declaration" 51 55 "" [
            namedNode "variable_declaration" 51 54 "" [
              namedLeaf "nullable_type" 51 52 "type",
              namedNode "variable_declarator" 53 54 "" [namedLeaf "identifier" 53 54 "name"]]]]]])

theorem operandlessFile_refused :
    compile ⟨"E", "1.0.0.0", "neutral", none⟩ true [operandlessFile] =
      .error (.bind .missingOperand) := by
  have hrefused : (compile ⟨"E", "1.0.0.0", "neutral", none⟩ true [operandlessFile]).toOption.isNone := by
    decide +kernel
  rcases compile_total ⟨"E", "1.0.0.0", "neutral", none⟩ true [operandlessFile] with
    ⟨a, ha⟩ | ⟨hmissing, -⟩
  · rw [ha] at hrefused
    cases hrefused
  · exact hmissing

/-- What keeps methods from being listed: the walk refuses a receiver, or a tree lacks an operand. -/
theorem discovery_refused :
    (∃ a id, compile ⟨"E", "1.0.0.0", "neutral", none⟩ true [dynamicFile] = .ok a ∧
      a.table.discover a.root = [id] ∧ (a.table.extensionMethods id).length = 1 ∧
      ∀ record, a.table.containerRecord (a.table.definitionType id) id ≠ .ok record) ∧
    compile ⟨"E", "1.0.0.0", "neutral", none⟩ true [operandlessFile] =
      .error (.bind .missingOperand) :=
  ⟨dynamicReceiver_refused, operandlessFile_refused⟩

end Binding

end ExtensionCensus
