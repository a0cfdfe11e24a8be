import ExtensionCensus.Symbol.Namespace
import ExtensionCensus.Proofs.Text.Blank
import ExtensionCensus.Proofs.Text.Segment

/-!
# Paths and dotted names

* `Namespace.Segmented`, `segmented_trimmedParts` — paths of segments, which dotted names add;
* `parts_qualifiedName` — **a path is read back from its dotted name**.
-/

namespace ExtensionCensus

namespace Namespace

/-- The segments of a path are no empty texts, and no dots stand in them. -/
def Segmented (path : NamespacePath) : Prop :=
  ∀ s ∈ path, s ≠ "" ∧ '.' ∉ s.toList

instance (path : NamespacePath) : Decidable (Segmented path) :=
  inferInstanceAs (Decidable (∀ s ∈ path, s ≠ "" ∧ '.' ∉ s.toList))

theorem segmented_trimmedParts (dotted : String) : Segmented (trimmedParts dotted) := by
  intro s hs
  obtain ⟨hmem, hne⟩ := List.mem_filter.mp hs
  obtain ⟨part, hpart, rfl⟩ := List.mem_map.mp hmem
  refine ⟨of_decide_eq_true hne, fun hdot => ?_⟩
  rw [Text.trim, String.toList_ofList] at hdot
  exact Text.not_mem_of_mem_segments hpart (Text.mem_of_mem_trimChars hdot)

/-- A path is read back from its dotted name. -/
theorem parts_qualifiedName {path : NamespacePath} (h : Segmented path) :
    parts (qualifiedName path) = path := by
  cases path with
  | nil => decide
  | cons s rest =>
    rw [parts, qualifiedName, show "." = String.singleton '.' from rfl,
      Text.segments_intercalate (List.cons_ne_nil s rest) fun t ht => (h t ht).2]
    exact List.filter_eq_self.mpr fun t ht => decide_eq_true (h t ht).1

end Namespace

end ExtensionCensus
