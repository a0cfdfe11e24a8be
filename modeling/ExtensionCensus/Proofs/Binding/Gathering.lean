import ExtensionCensus.Binding.Assembly
import ExtensionCensus.Proofs.Binding.Linking
import ExtensionCensus.Proofs.Binding.Nesting
import ExtensionCensus.Proofs.Binding.Placing
import ExtensionCensus.Proofs.Binding.Totality
import Mathlib.Data.List.Induction

/-!
# The outline of some files

What a compilation takes down of its files before anything is bound.

* `Outline.ofFiles` — the outline of some files, and `compile_eq`: compiling is binding it;
* `outlined_ofFiles`, `findable_ofFiles`, `nests_ofFiles`, `takes_ofFiles`, `linked_ofFiles` — what
  holds of it;
* `placed_ofFiles_iff` — where types lie in it;
* `bind_of_compile` — what is compiled is what it is bound to.
-/

namespace ExtensionCensus.Binding

open Source (Node TypeForm readItems topsOfFile)

namespace Outline

/-- The outline of some files. -/
def ofFiles (implicitUsings : Bool) (files : List (Text.Bytes × Node)) : Outline :=
  files.foldl (fun o file => o.addFile (readItems file.1 file.2)) { implicitUsings }

theorem ofFiles_concat (implicitUsings : Bool) (files : List (Text.Bytes × Node))
    (file : Text.Bytes × Node) : ofFiles implicitUsings (files ++ [file])
      = (ofFiles implicitUsings files).addFile (readItems file.1 file.2) := by
  rw [ofFiles, List.foldl_append]
  rfl

end Outline

/-- Files are added to the outline one by one. -/
theorem Compilation.addFiles_eq (files : List (Text.Bytes × Node)) {c : Compilation}
    (hc : c.isBound = false) :
    c.addFiles files = .ok { c with
      outline := files.foldl (fun o file => o.addFile (readItems file.1 file.2)) c.outline } := by
  induction files generalizing c with
  | nil => rfl
  | cons file rest ih =>
    obtain ⟨source, root⟩ := file
    rw [addFiles, addFile, if_neg (by rw [hc]; exact Bool.false_ne_true)]
    refine (ih ?_).trans rfl
    exact hc

/-- The assembly with an outline that is bound. -/
def assemblyOf (identity : AssemblyIdentity) (o : Outline) : Assembly :=
  { identity, table := o.table, root := o.root }

/-- **Compiling files is binding their outline.** -/
theorem compile_eq (identity : AssemblyIdentity) (implicitUsings : Bool)
    (files : List (Text.Bytes × Node)) : compile identity implicitUsings files
      = ((Outline.ofFiles implicitUsings files).bind.map (assemblyOf identity)).mapError
        .bind := by
  have hempty : (Compilation.empty identity implicitUsings).isBound = false := rfl
  rw [compile, Compilation.addFiles_eq files hempty]
  simp only [Compilation.bind, hempty, Bool.false_eq_true, ↓reduceIte]
  generalize hfiles : Outline.bind _ = bound
  have houtline : bound = (Outline.ofFiles implicitUsings files).bind := hfiles.symm
  rw [← houtline]
  cases bound <;> rfl

namespace Outline

variable {implicitUsings : Bool} {files : List (Text.Bytes × Node)}

/-! ### Invariants -/

theorem declares_ofFiles : Declares { implicitUsings } (ofFiles implicitUsings files)
    (files.flatMap topsOfFile) := by
  have hadded := Compilation.addFiles_eq (c := .empty default implicitUsings) files rfl
  exact Compilation.declares_addFiles (outlined_empty implicitUsings) hadded

theorem outlined_ofFiles : Outlined (ofFiles implicitUsings files) :=
  declares_ofFiles.reaches.outlined (outlined_empty implicitUsings)

theorem tallied_ofFiles : Tallied (ofFiles implicitUsings files) :=
  declares_ofFiles.reaches.tallied (outlined_empty implicitUsings) (tallied_empty implicitUsings)

theorem findable_ofFiles : Findable (ofFiles implicitUsings files) :=
  declares_ofFiles.reaches.findable (outlined_empty implicitUsings) (tallied_empty implicitUsings)
    (findable_empty implicitUsings)

theorem nests_ofFiles : (ofFiles implicitUsings files).table.Nests :=
  declares_ofFiles.reaches.nests (outlined_empty implicitUsings) Library.nests

/-- Every written type that is taken down has a property that all types in the files have. -/
theorem takes_ofFiles {P : TypeForm → Prop}
    (h : ∀ file ∈ files, ∀ item ∈ readItems file.1 file.2, item.All P) :
    (ofFiles implicitUsings files).Takes P := by
  refine List.foldlRecOn files _ (takes_empty implicitUsings) fun o ho file hfile => ?_
  exact takes_addFile ho (h file hfile)

/-- A file keeps every scope in the scopes around it. -/
theorem linked_addFile {o : Outline} {around : Nat → ScopeChain} (h : o.Linked around)
    (items : List Source.Item) : ∃ around', (o.addFile items).Linked around' ∧
      ∀ i < o.scopes.size, around' i = around i := by
  obtain ⟨chains, hadds⟩ := @adds_addFile (fun _ => True) (fun _ _ => True) o items
    (fun _ _ => trivial) fun _ _ => trivial
  obtain ⟨around', hlinked, -, hsame⟩ := hadds.linked h
  exact ⟨around', hlinked, hsame⟩

theorem linked_ofFiles (implicitUsings : Bool) (files : List (Text.Bytes × Node)) :
    ∃ around, (ofFiles implicitUsings files).Linked around := by
  induction files using List.reverseRecOn with
  | nil => exact ⟨_, linked_empty implicitUsings⟩
  | append_singleton files file ih =>
    obtain ⟨around, hlinked⟩ := ih
    obtain ⟨around', hlinked', -⟩ := linked_addFile hlinked (readItems file.1 file.2)
    rw [ofFiles_concat]
    exact ⟨around', hlinked'⟩

/-- The parts that lie in no other type are those that the files declare, in order. -/
theorem tops_ofFiles : List.Forall₂ (LiesAt (ofFiles implicitUsings files).root)
    (ofFiles implicitUsings files).tops (files.flatMap topsOfFile) := by
  obtain ⟨new, htops, hlies⟩ := (@declares_ofFiles implicitUsings files).tops
  rw [htops]
  exact hlies

/-- **Types lie where the files declare parts of them.** -/
theorem placed_ofFiles_iff (path : NamespacePath) (key : TypeKey) :
    (∃ x ∈ (ofFiles implicitUsings files).root.placed [], x.path = path ∧ x.key = key) ↔
      ∃ t ∈ files.flatMap topsOfFile, t.path = path ∧ keyOf t.form = key := by
  rw [tallied_ofFiles.placed_iff outlined_ofFiles.toWellFormed tops_ofFiles path key, partsAt]
  simp only [ne_eq, List.filter_eq_nil_iff, decide_eq_true_eq, not_forall, Classical.not_not,
    exists_prop]

end Outline

/-- An assembly that comes of some files is their outline, bound. -/
theorem bind_of_compile {identity : AssemblyIdentity} {implicitUsings : Bool}
    {files : List (Text.Bytes × Node)} {a : Assembly}
    (h : compile identity implicitUsings files = .ok a) :
    ∃ o, (Outline.ofFiles implicitUsings files).bind = .ok o ∧ a = assemblyOf identity o ∧
      a.root = (Outline.ofFiles implicitUsings files).root := by
  rw [compile_eq] at h
  obtain ⟨o, ho, rfl⟩ := ok_of_map (ok_of_mapError h)
  obtain ⟨extra, hmakes, -, -⟩ := (@Outline.outlined_ofFiles implicitUsings files).makes_bind ho
  exact ⟨o, ho, rfl, hmakes.grows.root⟩

end ExtensionCensus.Binding
