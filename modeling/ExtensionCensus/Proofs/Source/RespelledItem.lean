import ExtensionCensus.Proofs.Source.RespelledSignature
import ExtensionCensus.Proofs.Source.DeclarationsAlike

/-!
# Declarations in respelled trees

What is declared in a file is the same in a tree over other bytes with the same texts and with
comments at places that are overlooked.

* `Respelled.declarationsAlike` — the readers of declarations find the same children;
* `Respelled.items_eq` — **a respelled file is read as the same items**.
-/

namespace ExtensionCensus.Source

open Text (Bytes)

section

variable {source source' : Bytes} {n n' : Node}

theorem ne_empty_of_mem_fieldNames {name : String} (h : name ∈ fieldNames) : name ≠ "" := by
  have hall : ∀ name ∈ fieldNames, name ≠ "" := by decide
  exact hall name h

namespace Respelled

/-- The readers of declarations find the same children. -/
theorem declarationsAlike (source source' : Bytes) :
    DeclarationsAlike source source' (Respelled source source') where
  toTypesAlike := typesAlike source source'
  isNamed_eq h := h.isNamed_eq
  field_eq h := h.field_eq
  field h _ name hname := h.rel_field? name (ne_empty_of_mem_fieldNames hname)
  child h _ kind hkind := h.rel_child? kind (List.ne_of_not_mem_cons hkind)
  ofKind h kind hkind := h.forall₂_ofKind kind (List.ne_of_not_mem_cons hkind)
  plain h _ hq hcomment := h.woven.filter hq hcomment
  clause h hk := h.forall₂_counted (by rw [hk]; decide)
  variance h _ := h.variance_eq
  inside h hsilent hf := h.woven.filterMap
    (fun hk => (hsilent _ (by rw [Node.kind_of_isComment hk]; exact List.mem_cons_self)).1) hf
  modifiers_eq h _ := h.modifiers_eq
  parameters_eq h _ := h.parameters_eq

/-- What stands in a file is read in the same way if it is in what lies inside, and if a list of
declarations stands under a file-scoped namespace in both files or in none. -/
theorem item?_eq {around around' : String} (h : Respelled source source' n n')
    (haround : n.kind = "declaration_list" → (around = "file_scoped_namespace_declaration" ↔
      around' = "file_scoped_namespace_declaration"))
    (hinside : readItems source' n' = readItems source n)
    (hbody : ∀ body ∈ body? n, ∀ body', Respelled source source' body body' →
      readItems source' body' = readItems source body) :
    readItem? source' around' n' = readItem? source around n :=
  (declarationsAlike source source').item?_eq h haround hinside hbody

/-- **A file is read as the same items.** -/
theorem items_eq (h : Respelled source source' n n') :
    readItems source' n' = readItems source n :=
  (declarationsAlike source source').items_eq n n' h

end Respelled

/-- A file with comments at overlooked places is read as the same items. -/
theorem Commented.items_eq (n : Node) (n' : Node) (h : Commented source n n') :
    readItems source n' = readItems source n :=
  h.respelled.items_eq

end

end ExtensionCensus.Source
