import ExtensionCensus.Binding.Assembly
import ExtensionCensus.Extension.Container
import ExtensionCensus.Symbol.Display
import ExtensionCensus.Proofs.Source.RespelledItem

/-!
# Compiling files with comments

What files are compiled to does not depend on the comments in them, as long as these stand at places
that are overlooked. Inside a list of type arguments no place is.

* `CommentedFile` — a file and the same file with comments put in where they are overlooked;
* `compile_commented` — **comments at overlooked places change nothing about an assembly**;
* `commentedArgument_differs` — a comment among type arguments is taken for one of them.
-/

namespace ExtensionCensus

namespace Binding

open Source

/-- Files of which each is added like another one are added like the others. -/
theorem Compilation.addFiles_congr {R : Text.Bytes × Node → Text.Bytes × Node → Prop}
    (hadd : ∀ {file file' : Text.Bytes × Node}, R file file' →
      ∀ c : Compilation, c.addFile file'.1 file'.2 = c.addFile file.1 file.2)
    {files files' : List (Text.Bytes × Node)} (h : List.Forall₂ R files files') (c : Compilation) :
    c.addFiles files' = c.addFiles files := by
  induction h generalizing c with
  | nil => rfl
  | cons hfile _ ih =>
    rw [addFiles, addFiles, hadd hfile]
    split
    · rfl
    · exact ih _

/-- A file and the same bytes with a tree that comments were put into where they are overlooked. -/
def CommentedFile (file file' : Text.Bytes × Node) : Prop :=
  file'.1 = file.1 ∧ Commented file.1 file.2 file'.2

/-- Adding a file reads its comments away. -/
theorem Compilation.addFile_commented {file file' : Text.Bytes × Node}
    (h : CommentedFile file file') (c : Compilation) :
    c.addFile file'.1 file'.2 = c.addFile file.1 file.2 := by
  rw [addFile, addFile, h.1, Commented.items_eq _ _ h.2]

theorem Compilation.addFiles_commented {files files' : List (Text.Bytes × Node)}
    (h : List.Forall₂ CommentedFile files files') (c : Compilation) :
    c.addFiles files' = c.addFiles files :=
  addFiles_congr addFile_commented h c

/-- **Comments at overlooked places change nothing.**  Files in which comments were put in at such
places, at any depth and over any bytes, are compiled to the same assembly, with the same names,
symbols and flags, or refused for the same reason. -/
theorem compile_commented (identity : AssemblyIdentity) (implicitUsings : Bool)
    {files files' : List (Text.Bytes × Node)} (h : List.Forall₂ CommentedFile files files') :
    compile identity implicitUsings files' = compile identity implicitUsings files := by
  rw [compile, compile, Compilation.addFiles_commented h]

/-! ### A comment among type arguments -/

/-- A container whose one extension method has the receiver `B<int>`, with nodes put in at the start
of the method's container and of the list of type arguments. -/
def receiverFile (among inside : List Node) : Text.Bytes × Node :=
  (bytesOf "static class E{static void F(this B</*c*/int> x){}}class B<T>{}",
    namedNode "compilation_unit" 0 63 "" [
      namedNode "class_declaration" 0 51 "" [
        namedLeaf "modifier" 0 6 "",
        namedLeaf "identifier" 13 14 "name",
        namedNode "declaration_list" 14 51 "body" (among ++ [
          namedNode "method_declaration" 15 50 "" [
            namedLeaf "modifier" 15 21 "",
            namedLeaf "predefined_type" 22 26 "returns",
            namedLeaf "identifier" 27 28 "name",
            namedNode "parameter_list" 28 48 "parameters" [
              namedNode "parameter" 29 47 "" [
                namedLeaf "modifier" 29 33 "",
                namedNode "generic_name" 34 45 "type" [
                  namedLeaf "identifier" 34 35 "",
                  namedNode "type_argument_list" 35 45 "" (inside ++ [
                    namedLeaf "predefined_type" 41 44 ""])],
                namedLeaf "identifier" 46 47 "name"]]]])],
      namedNode "class_declaration" 51 63 "" [
        namedLeaf "identifier" 57 58 "name",
        namedNode "type_parameter_list" 58 61 "type_parameters" [
          namedNode "type_parameter" 59 60 "" [namedLeaf "identifier" 59 60 "name"]],
        namedNode "declaration_list" 61 63 "body" []]])

/-- The comment of that source. -/
def argumentComment : Node :=
  namedLeaf "comment" 36 41 ""

/-- How the receivers of the extension methods of an assembly are displayed. -/
def receiversOf (outcome : Except CompilationError Assembly) : List String :=
  match outcome with
  | .error _ => []
  | .ok a => (a.table.discover a.root).flatMap fun id => (a.table.extensionMethods id).flatMap
      fun m => ((a.table.method m).parameters.take 1).map (a.table.display ·.type)

/-- The comment stands where it is overlooked. -/
theorem commentedFile_among :
    CommentedFile (receiverFile [] []) (receiverFile [argumentComment] []) := by
  have hkept (n : Node) : Commented (receiverFile [] []).1 n n := .refl _ n
  refine ⟨rfl, .mk (.keep ?_ (.keep (hkept _) (.done _ _)))⟩
  refine .mk (.keep (hkept _) (.keep (hkept _) (.keep ?_ (.done _ _))))
  exact .mk (.comment rfl (.of_kind (by decide) (by decide) _ _)
    (.keep (hkept _) (.done _ _)))

/-- Among the members of the class the comment changes nothing; among the type arguments it is one
of them, and the type of the receiver is not found. -/
theorem commentedArgument_differs :
    compile ⟨"E", "1.0.0.0", "neutral", none⟩ false [receiverFile [argumentComment] []] =
        compile ⟨"E", "1.0.0.0", "neutral", none⟩ false [receiverFile [] []] ∧
      receiversOf (compile ⟨"E", "1.0.0.0", "neutral", none⟩ false [receiverFile [] []]) =
        ["B<int>"] ∧
      receiversOf (compile ⟨"E", "1.0.0.0", "neutral", none⟩ false
        [receiverFile [] [argumentComment]]) = ["B</*c*/, int>"] := by
  refine ⟨compile_commented _ _ (.cons commentedFile_among .nil), ?_, ?_⟩
  · decide +kernel
  · decide +kernel

end Binding

end ExtensionCensus
