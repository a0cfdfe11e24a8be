import ExtensionCensus.Proofs.Binding.WellFormed
import ExtensionCensus.Proofs.Symbol.Renaming
import ExtensionCensus.Proofs.Symbol.Scope

/-!
# How types nest

A type lies in a namespace, or in a type that was declared before it.  So what a definition stands for
is made of types that were declared before it, and of nothing else.

* `SymbolTable.Nests` — the invariant, with `Nests.addDefinition` and `Nests.of_agrees`;
* `Library.nests`, `Reaches.nests` — it holds of the library, and the first pass keeps it;
* `Nests.rename_definitionType` — **a renaming that leaves the types of a table where they are leaves
  what they stand for as it is**, and `Nests.within_definitionType`.
-/

namespace ExtensionCensus

namespace SymbolTable

/-- Every declared type lies in a namespace, or in a type that was declared before it. -/
def Nests (table : SymbolTable) : Prop :=
  ∀ id : TypeId, id.index < table.definitions.size →
    (∃ path, (table.definition id).container = .namespace path) ∨
      ∃ outer : TypeId, outer.index < id.index ∧
        (table.definition id).container = .type (table.definitionType outer)

variable {table a b : SymbolTable}

/-- A table of the same size that declares the same types. -/
theorem Nests.of_agrees (h : Nests a) (hk : Keeps a b)
    (hsize : b.definitions.size = a.definitions.size) : Nests b := by
  intro id hid
  rw [hsize] at hid
  rw [(hk.agrees id hid).container]
  rcases h id hid with ⟨path, hpath⟩ | ⟨outer, hlt, houter⟩
  · exact Or.inl ⟨path, hpath⟩
  · refine Or.inr ⟨outer, hlt, ?_⟩
    rw [houter, hk.definitionType (Nat.lt_trans hlt hid)]

/-- One more type, in a namespace or in a type that is there. -/
theorem Nests.addDefinition (h : Nests table) {d : TypeDefinition}
    (hd : (∃ path, d.container = .namespace path) ∨
      ∃ outer : TypeId, outer.index < table.definitions.size ∧
        d.container = .type (table.definitionType outer)) : Nests (table.addDefinition d) := by
  intro id hid
  have hkeeps : Keeps table (table.addDefinition d) := keeps_addDefinition d
  rw [size_addDefinition] at hid
  rcases Nat.lt_succ_iff_lt_or_eq.mp hid with hold | hnew
  · rw [(hkeeps.agrees id hold).container]
    rcases h id hold with ⟨path, hpath⟩ | ⟨outer, hlt, houter⟩
    · exact Or.inl ⟨path, hpath⟩
    · refine Or.inr ⟨outer, hlt, ?_⟩
      rw [houter, hkeeps.definitionType (Nat.lt_trans hlt hold)]
  · rw [definition_addDefinition, if_pos (eq_nextType_iff.mpr hnew)]
    rcases hd with ⟨path, hpath⟩ | ⟨outer, hlt, houter⟩
    · exact Or.inl ⟨path, hpath⟩
    · refine Or.inr ⟨outer, hnew ▸ hlt, ?_⟩
      rw [houter, hkeeps.definitionType hlt]

/-- **A renaming that leaves the types of a table where they are leaves what they stand for as it
is.** -/
theorem Nests.rename_definitionType (h : Nests table) {r : Renaming}
    (hr : ∀ id : TypeId, id.index < table.definitions.size → r.type id = id) (id : TypeId)
    (hid : id.index < table.definitions.size) :
    (table.definitionType id).rename r = table.definitionType id := by
  have hcontainer : (table.definition id).container
      = (table.definition id).container.rename r := by
    rcases h id hid with ⟨path, hpath⟩ | ⟨outer, hlt, houter⟩
    · rw [hpath]
      rfl
    · rw [houter, Container.rename, h.rename_definitionType hr outer (Nat.lt_trans hlt hid)]
  have hsame := hr id hid
  refine (definitionType_rename ?_ ?_).symm.trans (congrArg table.definitionType hsame)
  · rw [hsame]
    exact hcontainer
  · rw [hsame]
termination_by id.index

/-- What a definition stands for mentions type parameters of types only. -/
theorem Nests.within_definitionType (h : Nests table) (id : TypeId)
    (hid : id.index < table.definitions.size) :
    (table.definitionType id).Within fun p => ∃ owner i, p = .ofType owner i := by
  rw [definitionType, Ty.within_named_iff]
  refine ⟨fun t ht => ?_, fun t ht => ?_⟩
  · rw [lexicalOuter] at ht
    rcases h id hid with ⟨path, hpath⟩ | ⟨outer, hlt, houter⟩
    · rw [hpath] at ht
      cases ht
    · rw [houter] at ht
      cases ht
      exact h.within_definitionType outer (Nat.lt_trans hlt hid)
  · obtain ⟨p, hp, rfl⟩ := List.mem_map.mp ht
    obtain ⟨i, -, rfl⟩ := List.mem_map.mp hp
    exact Ty.within_parameter_iff.mpr ⟨id, i, rfl⟩
termination_by id.index

end SymbolTable

/-- The well-known types lie in namespaces. -/
theorem Library.nests : SymbolTable.Nests Library.table := by
  refine Library.draft_induction (P := fun d => SymbolTable.Nests d.table) (fun id hid => ?_)
    fun d spaceName name kind keyword arity hd => ?_
  · exact absurd hid (Nat.not_lt_zero _)
  · exact hd.addDefinition (Or.inl ⟨_, rfl⟩)

namespace Binding.Outline

open SymbolTable (Nests)

variable {a b : Outline}

theorem nests_addPart (h : Outlined a) (hn : Nests a.table) (chain : ScopeChain)
    {enclosing : List TypeId} (henclosing : a.Around enclosing) (d : Source.TypeDeclaration) :
    Nests (a.addPart chain enclosing d).table := by
  have hdeclares := declarePart_declares a chain enclosing d
  have hmerge : ∀ id, Nests (mergePart a.table id d) := fun id =>
    hn.of_agrees (sameShape_mergePart a.table id d).keeps (sameShape_mergePart a.table id d).size
  rw [addPart]
  generalize a.declarePart chain enclosing d = declared at hdeclares ⊢
  cases hdeclares with
  | againInside _ => exact hmerge _
  | @firstInside outer rest _ =>
    have hlt : outer.index < a.table.definitions.size :=
      (h.chain_of_around henclosing).head_lt
    have hadded : Nests (a.table.addDefinition (innerDefinition a.table outer d)) :=
      hn.addDefinition (Or.inr ⟨outer, hlt, rfl⟩)
    exact hadded.of_agrees
      (SymbolTable.keeps_updateDefinition outer ⟨rfl, rfl, rfl, rfl⟩)
      (SymbolTable.size_updateDefinition _ _)
  | againInSpace _ => exact hmerge _
  | firstInSpace _ => exact hn.addDefinition (Or.inl ⟨_, rfl⟩)

/-- **The first pass keeps it.** -/
theorem Reaches.nests (hr : Reaches a b) (h : Outlined a) (hn : Nests a.table) :
    Nests b.table := by
  induction hr with
  | start => exact hn
  | rescoped _ hc ih =>
    rw [hc.table]
    exact ih
  | opened _ _ ih => exact ih
  | part hb chain henclosing d ih => exact nests_addPart (hb.outlined h) ih chain henclosing d

end Binding.Outline

end ExtensionCensus
