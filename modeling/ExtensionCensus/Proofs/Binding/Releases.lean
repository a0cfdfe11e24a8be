import ExtensionCensus.Proofs.Binding.Comments
import ExtensionCensus.Proofs.Source.Loosened

/-!
# Compiling trees of different releases of the grammar

Releases of the grammar differ in whether a modifier stands in a node of its own, and in whether a
parameter array does. What files are compiled to does not depend on it.

* `ReleasedFile` — a file and the same bytes with a tree in which modifiers and parameter arrays are
  made bare or wrapped, any number of them and at any depth;
* `compile_released` — **releases of the grammar agree**: such files are compiled to the same
  assembly.
-/

namespace ExtensionCensus

namespace Binding

open Source

/-- A file and the same bytes with a tree that any steps lead to, each of which makes modifiers and
parameter arrays bare or wraps bare ones. -/
def ReleasedFile (file file' : Text.Bytes × Node) : Prop :=
  file'.1 = file.1 ∧ Relation.EqvGen (Loosened file.1) file.2 file'.2

theorem Compilation.addFile_released {file file' : Text.Bytes × Node} (h : ReleasedFile file file')
    (c : Compilation) : c.addFile file'.1 file'.2 = c.addFile file.1 file.2 := by
  rw [addFile, addFile, h.1, items_eq_of_eqvGen h.2]

theorem Compilation.addFiles_released {files files' : List (Text.Bytes × Node)}
    (h : List.Forall₂ ReleasedFile files files') (c : Compilation) :
    c.addFiles files' = c.addFiles files :=
  addFiles_congr addFile_released h c

/-- **Releases of the grammar agree.**  Files over the same bytes whose trees differ in what stands
bare and what stands wrapped are compiled to the same assembly, with the same parameters, flags and
displayed names, or refused for the same reason. -/
theorem compile_released (identity : AssemblyIdentity) (implicitUsings : Bool)
    {files files' : List (Text.Bytes × Node)} (h : List.Forall₂ ReleasedFile files files') :
    compile identity implicitUsings files' = compile identity implicitUsings files := by
  rw [compile, compile, Compilation.addFiles_released h]

/-! ### An extension method in two releases -/

/-- A class with one extension method, whose second parameter is an array. The modifiers and the
array stand as they are given. -/
def joinFile (ofClass ofMethod ofReceiver : Node) (array : List Node) : Text.Bytes × Node :=
  (bytesOf "static class E{static void F(this int x,params int[] y){}}",
    namedNode "compilation_unit" 0 58 "" [
      namedNode "class_declaration" 0 58 "" [
        ofClass,
        namedLeaf "identifier" 13 14 "name",
        namedNode "declaration_list" 14 58 "body" [
          namedNode "method_declaration" 15 57 "" [
            ofMethod,
            namedLeaf "predefined_type" 22 26 "returns",
            namedLeaf "identifier" 27 28 "name",
            namedNode "parameter_list" 28 55 "parameters" (
              tokenLeaf "(" 28 29 ::
              namedNode "parameter" 29 39 "" [
                ofReceiver,
                namedLeaf "predefined_type" 34 37 "type",
                namedLeaf "identifier" 38 39 "name"] ::
              tokenLeaf "," 39 40 ::
              (array ++ [tokenLeaf ")" 54 55]))]]]])

/-- The keyword, the type and the name of the array. -/
def arrayParts : List Node :=
  [tokenLeaf "params" 40 46,
    namedNode "array_type" 47 52 "type" [
      namedLeaf "predefined_type" 47 50 "type",
      namedLeaf "array_rank_specifier" 50 52 "rank"],
    namedLeaf "identifier" 53 54 "name"]

/-- A modifier in a node of its own. -/
def wrappedWord (word : String) (start stop : Nat) : Node :=
  namedNode "modifier" start stop "" [tokenLeaf word start stop]

/-- What an older release leaves. -/
def wrappedFile : Text.Bytes × Node :=
  joinFile (wrappedWord "static" 0 6) (wrappedWord "static" 15 21) (wrappedWord "this" 29 33)
    [namedNode "parameter_array" 40 54 "" arrayParts]

/-- What a newer release leaves. -/
def bareFile : Text.Bytes × Node :=
  joinFile (tokenLeaf "static" 0 6) (tokenLeaf "static" 15 21) (tokenLeaf "this" 29 33) arrayParts

/-- How the extension methods of an assembly are displayed. -/
def shownMethods (outcome : Except CompilationError Assembly) : List String :=
  match outcome with
  | .error _ => []
  | .ok a => (a.table.discover a.root).flatMap fun id => (a.table.extensionMethods id).map
      fun m => a.table.displayMethod (a.table.method m)

theorem releasedFile_bare : ReleasedFile wrappedFile bareFile := by
  have hkept (n : Node) : Loosened wrappedFile.1 n n := .refl _ n
  refine ⟨rfl, .rel _ _ (.mk (.keep ?_ (.nil _)))⟩
  refine .mk (.word (by decide) (.declaration (by decide) rfl (by decide)) (by decide) rfl
    (by decide) (by decide) (.keep (hkept _) (.keep ?_ (.nil _))))
  refine .mk (.keep ?_ (.nil _))
  refine .mk (.word (by decide) (.declaration (by decide) rfl (by decide)) (by decide) rfl
    (by decide) (by decide) (.keep (hkept _) (.keep (hkept _) (.keep ?_ (.nil _)))))
  refine .mk (.keep (hkept _) (.keep ?_ (.keep (hkept _) ?_)))
  · exact .mk (.word (by decide) (.parameter rfl (.inl rfl) (by decide)) (by decide) rfl
      (by decide) (by decide) (.keep (hkept _) (.keep (hkept _) (.nil _))))
  · refine .array (by decide) ⟨rfl, rfl, rfl, by decide, by decide, rfl, by decide, rfl, rfl,
      by decide⟩ ?_ (.keep (hkept _) (.nil _))
    exact fun c hc => .inr (by cases hc; rfl)

/-- The two trees are compiled to the same extension method. -/
theorem bareFile_compiled :
    compile ⟨"E", "1.0.0.0", "neutral", none⟩ false [bareFile] =
        compile ⟨"E", "1.0.0.0", "neutral", none⟩ false [wrappedFile] ∧
      shownMethods (compile ⟨"E", "1.0.0.0", "neutral", none⟩ false [wrappedFile]) =
        ["void F(this int x, params int[] y)"] :=
  ⟨compile_released _ _ (.cons releasedFile_bare .nil), by decide +kernel⟩

end Binding

end ExtensionCensus
