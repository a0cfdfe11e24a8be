import ExtensionCensus.Proofs.Binding.Extending
import ExtensionCensus.Proofs.Binding.WellScoped
import ExtensionCensus.Proofs.Extension.Account
import ExtensionCensus.Proofs.Source.Naming

/-!
# Adding an unrelated file

One more file that has nothing to do with the others changes nothing about their types, whatever
namespaces it opens and whatever it uses.

* `IsUnrelated` — the file declares no type of the others and none of a name that stands in them, and
  has no global using directive;
* `retained_bind` — binding with the file retains all types of the outline without it;
* `compile_concat_unrelated` — **compiling with the file says the same of every type of the others**.
-/

namespace ExtensionCensus.Binding

open Source (Node TypeForm readItems topsOfFile usingsOfItems bytesOf namedNode namedLeaf)
open SymbolTable (SameAccount)
open Outline (keyOf ofFiles)

/-- The file has no global using directive, declares in namespaces no type that one of the others
declares, and none of the names of its types stands in one of the others. -/
structure IsUnrelated (files : List (Text.Bytes × Node)) (file : Text.Bytes × Node) : Prop where
  isLocal : ∀ form ∈ usingsOfItems (readItems file.1 file.2), form.isGlobal = false
  fresh : ∀ t ∈ topsOfFile file, ∀ u ∈ files.flatMap topsOfFile,
    u.path = t.path → keyOf t.form ≠ keyOf u.form
  unknown : ∀ t ∈ topsOfFile file, ∀ other ∈ files, t.form.name ∉ other.2.identifiers other.1

namespace Outline

variable {Known : String → Prop} {o bound bound' : Outline} {items : List Source.Item}

/-- Every method says of itself which type lists it. -/
theorem container_of_bind (ho : Outlined o) (h : o.bind = .ok bound) {id : TypeId} {k : MethodId}
    (hk : k ∈ bound.table.methodIds id) :
    (bound.table.method k).container = some (bound.table.definitionType id) := by
  obtain ⟨extra, hmakes, -, -⟩ := ho.makes_bind h
  obtain ⟨made, -, hgains⟩ := hmakes.made
  rw [hgains.methodIds, ho.bare.methodIds, List.nil_append] at hk
  obtain ⟨e, he, rfl⟩ := List.mem_map.mp hk
  obtain ⟨hmem, howner⟩ := List.mem_filter.mp he
  have hcontainer := (hgains.implements e hmem).container
  rwa [of_decide_eq_true howner] at hcontainer

/-- **Binding with the file retains all types of the outline without it.** -/
theorem retained_bind (h : Unrelated Known o items) (ho : Outlined o) (ht : Tallied o)
    (hf : Findable o) (hn : o.table.Nests) {around : Nat → ScopeChain} (hlinked : o.Linked around)
    (htakes : o.Takes (TypeForm.Known Known)) (hbind : (o.addFile items).bind = .ok bound') :
    ∃ bound, o.bind = .ok bound ∧ bound.typeCount = o.typeCount ∧
      Retained bound.table bound'.table := by
  obtain ⟨bound, hbound, hsame⟩ := h.sameType_bind ho ht hf hn hlinked htakes
    (Renaming.fixes_same o.typeCount) hbind
  obtain ⟨other, hother, hapart⟩ := h.sameType_bind ho ht hf hn hlinked htakes
    (Renaming.fixes_behind o.typeCount bound'.typeCount) hbind
  rw [hbound] at hother
  cases hother
  obtain ⟨extra, hmakes, -, -⟩ := ho.makes_bind hbound
  have hshape := hmakes.grows.shape
  have hsize : bound.typeCount = o.typeCount := hshape.size
  refine ⟨bound, hbound, hsize, ?_⟩
  rw [← hsize] at hsame hapart
  exact
    { same := hsame
      apart := hapart
      wellScoped := scoped_bind ho.toWellFormed (scoped_of_bare ho.bare) hbound
      nests := hn.of_agrees hshape.keeps hshape.size
      nested_lt := (ho.toWellFormed.grows hmakes.grows).nested_lt
      container := fun id k hk => container_of_bind ho hbound hk }

end Outline

section

variable {files : List (Text.Bytes × Node)} {file : Text.Bytes × Node}

/-- No type of the file has the name. -/
def Unused (file : Text.Bytes × Node) (name : String) : Prop :=
  ∀ t ∈ topsOfFile file, t.form.name ≠ name

theorem IsUnrelated.unrelated (h : IsUnrelated files file) (implicitUsings : Bool) :
    (ofFiles implicitUsings files).Unrelated (Unused file) (readItems file.1 file.2) where
  isLocal := h.isLocal
  fresh t ht x hx hpath := by
    obtain ⟨u, hu, hupath, hukey⟩ :=
      (Outline.placed_ofFiles_iff x.path x.key).mp ⟨x, hx, rfl, rfl⟩
    rw [← hukey]
    exact h.fresh t ht u hu (hupath.trans hpath)
  unknown t ht hunused := hunused t ht rfl

theorem IsUnrelated.takes (h : IsUnrelated files file) (implicitUsings : Bool) :
    (ofFiles implicitUsings files).Takes (TypeForm.Known (Unused file)) := by
  refine Outline.takes_ofFiles fun other hother => Source.names_readItems fun name hname t ht => ?_
  rintro rfl
  exact h.unknown t ht other hother hname

/-- **A file that is unrelated to others changes nothing about their types.**  Whatever namespaces it
opens and whatever it uses, every type of the others lies where it lay, and has the members, texts,
accessibilities, flags and record that it had.  Files are compiled unless a node in one of their trees
has no child for the type that it puts a shape on. -/
theorem compile_concat_unrelated (identity : AssemblyIdentity) (implicitUsings : Bool)
    (h : IsUnrelated files file) :
    (∃ a b, compile identity implicitUsings files = .ok a ∧
        compile identity implicitUsings (files ++ [file]) = .ok b ∧
        (∀ x : Place, x.id.index < a.table.definitions.size →
          (x ∈ b.root.placed [] ↔ x ∈ a.root.placed [])) ∧
        ∀ id : TypeId, id.index < a.table.definitions.size → SameAccount a.table b.table id) ∨
      (compile identity implicitUsings (files ++ [file]) = .error (.bind .missingOperand) ∧
        ∃ other ∈ files ++ [file], other.2.hasOperands = false) := by
  rcases compile_total identity implicitUsings (files ++ [file]) with ⟨b, hb⟩ | hmissing
  case inr => exact Or.inr hmissing
  have hunrelated := h.unrelated implicitUsings
  have houtlined : (ofFiles implicitUsings files).Outlined := Outline.outlined_ofFiles
  have hreaches := Outline.reaches_addFile (ofFiles implicitUsings files)
    (readItems file.1 file.2)
  obtain ⟨around, hlinked⟩ := Outline.linked_ofFiles implicitUsings files
  rw [compile_eq, Outline.ofFiles_concat] at hb
  cases hbind : ((ofFiles implicitUsings files).addFile (readItems file.1 file.2)).bind with
  | error e =>
    rw [hbind] at hb
    cases hb
  | ok bound' =>
    rw [hbind] at hb
    cases hb
    obtain ⟨bound, hbound, hsize, hretained⟩ := Outline.retained_bind hunrelated houtlined
      Outline.tallied_ofFiles Outline.findable_ofFiles Outline.nests_ofFiles hlinked
      (h.takes implicitUsings) hbind
    obtain ⟨extra, hmakes, -, -⟩ := houtlined.makes_bind hbound
    obtain ⟨extra', hmakes', -, -⟩ := (hreaches.outlined houtlined).makes_bind hbind
    refine Or.inl ⟨assemblyOf identity bound, assemblyOf identity bound', ?_, ?_, fun x hx => ?_,
      fun id hid => hretained.sameAccount hid⟩
    · rw [compile_eq, hbound]
      rfl
    · rw [compile_eq, Outline.ofFiles_concat, hbind]
      rfl
    · show x ∈ bound'.root.placed [] ↔ x ∈ bound.root.placed []
      rw [hmakes.grows.root, hmakes'.grows.root]
      refine ⟨fun hin => ?_, fun hin => hreaches.mem_placed houtlined hin⟩
      rcases (hunrelated.beside houtlined).placed x hin with hold | ⟨hle, -⟩
      · exact hold
      · exact absurd (Nat.lt_of_lt_of_eq hx hsize) (Nat.not_lt_of_le hle)

end

/-! ### A container and a file in its namespace -/

/-- A container of one extension method, in a namespace. -/
def containerFile : Text.Bytes × Node :=
  (bytesOf "namespace N{static class E{static void F(this int x){}}}",
    namedNode "compilation_unit" 0 56 "" [
      namedNode "namespace_declaration" 0 56 "" [
        namedLeaf "identifier" 10 11 "name",
        namedNode "declaration_list" 11 56 "body" [
          namedNode "class_declaration" 12 55 "" [
            namedLeaf "modifier" 12 18 "",
            namedLeaf "identifier" 25 26 "name",
            namedNode "declaration_list" 26 55 "body" [
              namedNode "method_declaration" 27 54 "" [
                namedLeaf "modifier" 27 33 "",
                namedLeaf "predefined_type" 34 38 "returns",
                namedLeaf "identifier" 39 40 "name",
                namedNode "parameter_list" 40 52 "parameters" [
                  namedNode "parameter" 41 51 "" [
                    namedLeaf "modifier" 41 45 "",
                    namedLeaf "predefined_type" 46 49 "type",
                    namedLeaf "identifier" 50 51 "name"]]]]]]]])

/-- A file that uses the same namespace and declares a class in it. -/
def neighbourFile : Text.Bytes × Node :=
  (bytesOf "using N;namespace N{class Q{}}",
    namedNode "compilation_unit" 0 30 "" [
      namedNode "using_directive" 0 8 "" [namedLeaf "identifier" 6 7 ""],
      namedNode "namespace_declaration" 8 30 "" [
        namedLeaf "identifier" 18 19 "name",
        namedNode "declaration_list" 19 30 "body" [
          namedNode "class_declaration" 20 29 "" [
            namedLeaf "identifier" 26 27 "name",
            namedNode "declaration_list" 27 29 "body" []]]]])

theorem isUnrelated_neighbourFile : IsUnrelated [containerFile] neighbourFile := by
  constructor <;> decide +kernel

/-- The container is what it was, although the namespace has one more type. -/
theorem containerFile_sameAccount :
    ∃ a b, compile ⟨"N", "1.0.0.0", "neutral", none⟩ true [containerFile] = .ok a ∧
      compile ⟨"N", "1.0.0.0", "neutral", none⟩ true [containerFile, neighbourFile] = .ok b ∧
      (a.table.discover a.root).length = 1 ∧
      ∀ id : TypeId, id.index < a.table.definitions.size → SameAccount a.table b.table id := by
  have hcompiled : (compile ⟨"N", "1.0.0.0", "neutral", none⟩ true [containerFile]).toOption.map
      (fun a => (a.table.discover a.root).length) = some 1 := by
    decide +kernel
  rcases compile_concat_unrelated ⟨"N", "1.0.0.0", "neutral", none⟩ true
    isUnrelated_neighbourFile with ⟨a, b, ha, hb, -, hsame⟩ | ⟨-, other, hother, hmissing⟩
  · rw [ha] at hcompiled
    exact ⟨a, b, ha, hb, Option.some.inj hcompiled, hsame⟩
  · have hcomplete : ∀ other ∈ [containerFile] ++ [neighbourFile], other.2.hasOperands = true := by
      decide +kernel
    rw [hcomplete other hother] at hmissing
    cases hmissing

end ExtensionCensus.Binding
