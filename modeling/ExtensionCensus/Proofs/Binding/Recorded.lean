import ExtensionCensus.Proofs.Binding.Outlining
import ExtensionCensus.Proofs.Source.Written

/-!
# What an outline takes down

* `Outline.Takes` — every written type that an outline takes down has a property, in the targets of
  using directives and in parts of types;
* `takes_addUsing`, `takes_declareType`, `takes_declareItems` — the first pass adds only what the
  sources write;
* `takes_addFile` — **a file whose types have the property**.
-/

namespace ExtensionCensus.Binding

open Source (TypeForm TypeDeclaration UsingForm Item)

namespace Outline

/-- Every written type that an outline takes down has the property. -/
structure Takes (P : TypeForm → Prop) (o : Outline) : Prop where
  inScopes : ∀ s ∈ o.scopes, ∀ e ∈ s.aliases, P e.2.target
  inAll : ∀ e ∈ o.globalAliases, P e.2.target
  parts : ∀ part ∈ o.parts, part.form.All P

section

variable {P : TypeForm → Prop} {o : Outline}

/-! ### Scopes -/

theorem takes_empty (implicitUsings : Bool) : Takes P { implicitUsings } := by
  refine ⟨fun s hs => ?_, fun e he => ?_, fun part hp => ?_⟩
  · cases Array.not_mem_empty s hs
  · cases he
  · cases hp

theorem takes_pushScope (h : o.Takes P) (chain : ScopeChain) (name : String) :
    (o.pushScope chain name).1.Takes P := by
  refine ⟨fun s hs => ?_, h.inAll, h.parts⟩
  rcases Array.mem_push.mp hs with hs | rfl
  · exact h.inScopes s hs
  · intro e he
    cases he

theorem takes_enterSegments (h : o.Takes P) (chain : ScopeChain) (segments : List String) :
    (o.enterSegments chain segments).1.Takes P := by
  induction segments generalizing o chain with
  | nil => exact h
  | cons segment rest ih => exact ih (takes_pushScope h chain _) _

theorem takes_enter (h : o.Takes P) (chain : ScopeChain) (name : String) :
    (o.enter chain name).1.Takes P := by
  have hentered := takes_enterSegments h chain (Text.segments '.' name)
  rw [enter]
  generalize o.enterSegments chain (Text.segments '.' name) = entered at hentered ⊢
  obtain ⟨inner, innerChain⟩ := entered
  exact ⟨hentered.inScopes, hentered.inAll, hentered.parts⟩

/-- A scope with one more name, if what the name is given to has the property. -/
theorem takes_updateScope (h : o.Takes P) (id : ScopeId) {f : Scope → Scope}
    (hf : ∀ s, ∀ e ∈ (f s).aliases, e ∈ s.aliases ∨ P e.2.target) :
    (o.updateScope id f).Takes P := by
  refine ⟨fun s hs => ?_, h.inAll, h.parts⟩
  have hold : ∀ t ∈ o.scopes, ∀ e ∈ t.aliases, P e.2.target := h.inScopes
  have hmem : s ∈ o.scopes ∨ ∃ t ∈ o.scopes, s = f t := by
    obtain ⟨i, hi, rfl⟩ := Array.mem_iff_getElem.mp hs
    simp only [updateScope, Array.getElem_modify]
    split
    · exact Or.inr ⟨_, Array.getElem_mem _, rfl⟩
    · exact Or.inl (Array.getElem_mem _)
  rcases hmem with hs | ⟨t, ht, rfl⟩
  · exact hold s hs
  · intro e he
    rcases hf t e he with he | he
    · exact hold t ht e he
    · exact he

theorem takes_addUsing (h : o.Takes P) (chain : ScopeChain) {form : UsingForm}
    (hform : form.All P) : (o.addUsing chain form).Takes P := by
  cases form with
  | space isGlobal name =>
    cases isGlobal with
    | true => exact ⟨h.inScopes, h.inAll, h.parts⟩
    | false =>
      cases chain with
      | nil => exact h
      | cons id outer => exact takes_updateScope h id fun s e he => Or.inl he
  | named isGlobal name target written =>
    cases isGlobal with
    | true =>
      refine ⟨h.inScopes, fun e he => ?_, h.parts⟩
      rcases List.mem_cons.mp he with rfl | he
      · exact hform
      · exact h.inAll e he
    | false =>
      cases chain with
      | nil => exact h
      | cons id outer =>
        refine takes_updateScope h id fun s e he => ?_
        rcases List.mem_cons.mp he with rfl | he
        · exact Or.inr hform
        · exact Or.inl he

/-! ### Parts of types -/

theorem takes_addPart (h : o.Takes P) (chain : ScopeChain) (enclosing : List TypeId)
    {d : TypeDeclaration} (hd : d.All P) : (o.addPart chain enclosing d).Takes P := by
  have hscopes : (o.declarePart chain enclosing d).1.scopes = o.scopes ∧
      (o.declarePart chain enclosing d).1.globalAliases = o.globalAliases := by
    have hdeclares := declarePart_declares o chain enclosing d
    generalize o.declarePart chain enclosing d = r at hdeclares ⊢
    cases hdeclares <;> exact ⟨rfl, rfl⟩
  refine ⟨fun s hs => h.inScopes s (hscopes.1 ▸ hs),
    fun e he => h.inAll e (hscopes.2 ▸ he), fun part hp => ?_⟩
  rw [addPart_parts] at hp
  rcases List.mem_append.mp hp with hp | hp
  · exact h.parts part hp
  · rw [List.mem_singleton.mp hp]
    exact hd

mutual

theorem takes_declareType (chain : ScopeChain) : ∀ (d : TypeDeclaration) (o : Outline)
    (enclosing : List TypeId), d.AllInside P → o.Takes P →
      (o.declareType chain enclosing d).Takes P
  | ⟨name, kind, isRecord, modifiers, typeParameters, constraints, returns, hasParameterList,
      parameters, enumMembers, members, nested⟩, o, enclosing, .mk own hnested, h => by
    rw [declareType_eq]
    exact takes_declareTypes chain nested _ _ hnested (takes_addPart h chain enclosing own)

theorem takes_declareTypes (chain : ScopeChain) : ∀ (ds : List TypeDeclaration) (o : Outline)
    (enclosing : List TypeId), (∀ d ∈ ds, d.AllInside P) → o.Takes P →
      (o.declareTypes chain enclosing ds).Takes P
  | [], o, enclosing, _, h => by
    rw [declareTypes]
    exact h
  | d :: rest, o, enclosing, hds, h => by
    rw [declareTypes]
    exact takes_declareTypes chain rest _ enclosing
      (fun e he => hds e (List.mem_cons_of_mem _ he))
      (takes_declareType chain d o enclosing (hds d List.mem_cons_self) h)

end

/-! ### Items -/

mutual

theorem takes_declareItem : ∀ (item : Item) (o : Outline) (chain : ScopeChain),
    item.All P → o.Takes P → (o.declareItem chain item).1.Takes P
  | .using form, o, chain, .using hform, h => by
    rw [declareItem]
    exact takes_addUsing h chain hform
  | .block name items, o, chain, .block _ hitems, h => by
    rw [declareItem]
    exact takes_declareItems items _ _ hitems (takes_enter h chain name)
  | .fileScoped name items, o, chain, .fileScoped _ hitems, h => by
    rw [declareItem]
    exact takes_declareItems items _ _ hitems (takes_enter h chain name)
  | .group items, o, chain, .group hitems, h => by
    rw [declareItem]
    exact takes_declareItems items o chain hitems h
  | .type d, o, chain, .type hd, h => by
    rw [declareItem]
    exact takes_declareType chain d o [] hd h

/-- **Items whose types have the property add only such types.** -/
theorem takes_declareItems : ∀ (items : List Item) (o : Outline) (chain : ScopeChain),
    (∀ item ∈ items, item.All P) → o.Takes P → (o.declareItems chain items).Takes P
  | [], o, chain, _, h => by
    rw [declareItems]
    exact h
  | item :: rest, o, chain, hitems, h => by
    rw [declareItems]
    exact takes_declareItems rest _ _ (fun e he => hitems e (List.mem_cons_of_mem _ he))
      (takes_declareItem item o chain (hitems item List.mem_cons_self) h)

end

theorem takes_addFile (h : o.Takes P) {items : List Item} (hitems : ∀ item ∈ items, item.All P) :
    (o.addFile items).Takes P :=
  takes_declareItems items _ _ hitems (takes_pushScope h [] "")

end

end Outline

end ExtensionCensus.Binding
