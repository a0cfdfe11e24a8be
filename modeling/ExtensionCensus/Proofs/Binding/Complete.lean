import ExtensionCensus.Proofs.Binding.Recorded
import ExtensionCensus.Proofs.Source.Operands

/-!
# Outlines of complete sources

* `Outline.AliasesComplete` — no operand is missing in what using directives give names to;
* `Outline.Complete` — nor in any part of a type;
* `complete_addFile` — the first pass keeps it, as long as the sources lack no operand;
* `Compilation.addFiles_ok` — **files can be added to a compilation, and lack in it what they lack
  in their trees**.
-/

namespace ExtensionCensus.Binding

namespace Outline

/-- No operand is missing in what using directives give names to. -/
structure AliasesComplete (o : Outline) : Prop where
  inScopes : ∀ s ∈ o.scopes, ∀ e ∈ s.aliases, e.2.target.Complete
  inAll : ∀ e ∈ o.globalAliases, e.2.target.Complete

/-- No operand is missing in what an outline takes down. -/
structure Complete (o : Outline) : Prop where
  aliases : o.AliasesComplete
  parts : ∀ part ∈ o.parts, part.form.Complete

section

variable {o : Outline}

/-! ### Names in effect -/

theorem mem_of_lookup {α : Type} {l : List (String × α)} {name : String} {a : α}
    (h : l.lookup name = some a) : ∃ e ∈ l, e.2 = a := by
  obtain ⟨front, back, rfl, -⟩ := List.lookup_eq_some_iff.mp h
  exact ⟨(name, a), List.mem_append_right _ List.mem_cons_self, rfl⟩

/-- A name that is in effect in a scope was given there, or everywhere. -/
theorem exists_of_alias? {id : ScopeId} {isFile : Bool} {name : String} {a : Alias}
    (h : o.alias? id isFile name = some a) :
    (∃ s ∈ o.scopes, ∃ e ∈ s.aliases, e.2 = a) ∨ ∃ e ∈ o.globalAliases, e.2 = a := by
  have hscope : (o.scope id).aliases.lookup name = some a →
      ∃ s ∈ o.scopes, ∃ e ∈ s.aliases, e.2 = a := by
    intro hlookup
    obtain ⟨e, he, rfl⟩ := mem_of_lookup hlookup
    rw [scope] at he
    cases hid : o.scopes[id.index]? with
    | none =>
      rw [hid] at he
      cases he
    | some s =>
      rw [hid] at he
      exact ⟨s, Array.mem_of_getElem? hid, e, he, rfl⟩
  rw [alias?] at h
  split at h
  · rcases Option.or_eq_some_iff.mp h with h | ⟨-, h⟩
    · exact .inl (hscope h)
    · exact .inr (mem_of_lookup h)
  · exact .inl (hscope h)

/-- A name that is in effect in a scope stands for a target that is taken down. -/
theorem AliasesComplete.of_alias? (h : o.AliasesComplete) {id : ScopeId} {isFile : Bool}
    {name : String} {a : Alias} (ha : o.alias? id isFile name = some a) : a.target.Complete := by
  rcases exists_of_alias? ha with ⟨s, hs, e, he, rfl⟩ | ⟨e, he, rfl⟩
  · exact h.inScopes s hs e he
  · exact h.inAll e he

/-! ### Files -/

theorem complete_iff : o.Complete ↔ o.Takes Source.TypeForm.Complete :=
  ⟨fun h => ⟨h.aliases.inScopes, h.aliases.inAll, h.parts⟩,
    fun h => ⟨⟨h.inScopes, h.inAll⟩, h.parts⟩⟩

theorem complete_empty (implicitUsings : Bool) : Complete { implicitUsings } :=
  complete_iff.mpr (takes_empty implicitUsings)

/-- A file whose tree lacks no operand. -/
theorem complete_addFile (h : o.Complete) {source : Text.Bytes} {root : Source.Node}
    (hroot : root.hasOperands = true) : (o.addFile (Source.readItems source root)).Complete :=
  complete_iff.mpr (takes_addFile (complete_iff.mp h) (Source.complete_readItems hroot))

end

end Outline

namespace Compilation

/-- **Files can be added to a compilation that is not finished, and if their trees lack no operand,
what is taken down of them is complete.** -/
theorem addFiles_ok {files : List (Text.Bytes × Source.Node)} {c : Compilation}
    (hc : c.isBound = false) :
    ∃ c', c.addFiles files = .ok c' ∧
      (c.outline.Complete → (∀ file ∈ files, file.2.hasOperands = true) → c'.outline.Complete) := by
  induction files generalizing c with
  | nil => exact ⟨c, rfl, fun h _ => h⟩
  | cons file rest ih =>
    obtain ⟨source, root⟩ := file
    obtain ⟨c', hc', hcomplete⟩ :=
      @ih { c with outline := c.outline.addFile (Source.readItems source root) } hc
    refine ⟨c', ?_, fun h hfiles => hcomplete ?_ fun other hother => ?_⟩
    · rw [addFiles, addFile, if_neg (by rw [hc]; exact Bool.false_ne_true)]
      exact hc'
    · exact Outline.complete_addFile h (hfiles _ List.mem_cons_self)
    · exact hfiles other (List.mem_cons_of_mem _ hother)

end Compilation

end ExtensionCensus.Binding
