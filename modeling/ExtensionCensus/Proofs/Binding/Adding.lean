import ExtensionCensus.Proofs.Binding.TopLevel

/-!
# What a file adds

The walk over one file goes through scopes of its own.  It attaches using directives to these alone,
and the types around a part of a type are again of that file.

* `usingsOfItems` — the using directives among items;
* `Adds` — the steps of such a walk, with the chains of scopes that it opened so far;
* `adds_declareItems`, `adds_addFile` — **the walk over a file takes only such steps**, and declares
  what the items ask for;
* `Adds.fresh`, `Adds.scope`, `Adds.globals` — what it leaves as it is.
-/

namespace ExtensionCensus

/-! ### Using directives -/

namespace Source

/-- The using directive is in effect in every file. -/
def UsingForm.isGlobal : UsingForm → Bool
  | .space isGlobal _ => isGlobal
  | .named isGlobal _ _ _ => isGlobal

mutual

/-- The using directives in an item. -/
def usingsOfItem : Item → List UsingForm
  | .using form => [form]
  | .block _ items => usingsOfItems items
  | .fileScoped _ items => usingsOfItems items
  | .group items => usingsOfItems items
  | .type _ => []

/-- The using directives in some items, in order. -/
def usingsOfItems : List Item → List UsingForm
  | [] => []
  | item :: rest => usingsOfItem item ++ usingsOfItems rest

end

end Source

namespace Binding.Outline

open Source (TypeDeclaration UsingForm Item TopPart topsOfItem topsOfItems usingsOfItem
  usingsOfItems spaceAfter)

/-! ### Steps -/

/-- Nothing lies around a place, or a part that was declared since `a` and what lies around that. -/
def Since (b a : Outline) (enclosing : List TypeId) : Prop :=
  enclosing = [] ∨
    ∃ part ∈ b.parts.drop a.parts.length, enclosing = part.type :: part.enclosing

/-- The outline is reached from `a` by opening some chains of scopes one inside the other, attaching
using directives to them and declaring parts in them. -/
inductive Adds (Form : UsingForm → Prop) (Top : NamespacePath → TypeDeclaration → Prop)
    (a : Outline) : Outline → List ScopeChain → Prop where
  | start : Adds Form Top a a [[]]
  | pushed {b : Outline} {chains : List ScopeChain} (h : Adds Form Top a b chains)
      {chain : ScopeChain} (hchain : chain ∈ chains) (name : String) :
      Adds Form Top a (b.pushScope chain name).1 ((b.pushScope chain name).2 :: chains)
  | opened {b : Outline} {chains : List ScopeChain} (h : Adds Form Top a b chains)
      (name : String) : Adds Form Top a { b with root := (b.root.openAt [] name).1 } chains
  | used {b : Outline} {chains : List ScopeChain} (h : Adds Form Top a b chains)
      {chain : ScopeChain} (hchain : chain ∈ chains) {form : UsingForm} (hform : Form form) :
      Adds Form Top a (b.addUsing chain form) chains
  | part {b : Outline} {chains : List ScopeChain} (h : Adds Form Top a b chains)
      {chain : ScopeChain} (hchain : chain ∈ chains) {enclosing : List TypeId}
      (henclosing : b.Since a enclosing) {d : TypeDeclaration}
      (htop : enclosing = [] → Top (b.pathOf chain) d) :
      Adds Form Top a (b.addPart chain enclosing d) chains

section

variable {Form : UsingForm → Prop} {Top : NamespacePath → TypeDeclaration → Prop}
  {a b c : Outline} {chains : List ScopeChain} {chain : ScopeChain} {enclosing : List TypeId}

/-! ### What stays -/

theorem scopes_addPart (o : Outline) (chain : ScopeChain) (enclosing : List TypeId)
    (d : TypeDeclaration) : (o.addPart chain enclosing d).scopes = o.scopes ∧
      (o.addPart chain enclosing d).globalUsings = o.globalUsings ∧
      (o.addPart chain enclosing d).globalAliases = o.globalAliases ∧
      (o.addPart chain enclosing d).implicitUsings = o.implicitUsings := by
  have hdeclares := declarePart_declares o chain enclosing d
  rw [addPart]
  generalize o.declarePart chain enclosing d = r at hdeclares ⊢
  cases hdeclares <;> exact ⟨rfl, rfl, rfl, rfl⟩

theorem size_addUsing (o : Outline) (chain : ScopeChain) (form : UsingForm) :
    (o.addUsing chain form).scopes.size = o.scopes.size := by
  cases form with
  | space isGlobal name =>
    cases isGlobal <;> cases chain <;> simp [addUsing, updateScope]
  | named isGlobal name target written =>
    cases isGlobal <;> cases chain <;> simp [addUsing, updateScope]

/-- The chains consist of scopes that were opened since. -/
theorem Adds.fresh (h : Adds Form Top a b chains) : a.scopes.size ≤ b.scopes.size ∧
    ∀ chain ∈ chains, ∀ id ∈ chain, a.scopes.size ≤ id.index ∧ id.index < b.scopes.size := by
  induction h with
  | start =>
    refine ⟨Nat.le_refl _, fun chain hchain id hid => ?_⟩
    rw [List.mem_singleton.mp hchain] at hid
    cases hid
  | @pushed b chains _ chain hchain name ih =>
    have hsize : (b.pushScope chain name).1.scopes.size = b.scopes.size + 1 := by
      rw [pushScope, Array.size_push]
    have hold : ∀ other ∈ chains, ∀ id ∈ other,
        a.scopes.size ≤ id.index ∧ id.index < (b.pushScope chain name).1.scopes.size := by
      intro other hother id hid
      rw [hsize]
      exact ⟨(ih.2 other hother id hid).1, Nat.lt_succ_of_lt (ih.2 other hother id hid).2⟩
    refine ⟨hsize ▸ Nat.le_succ_of_le ih.1, fun other hother id hid => ?_⟩
    rcases List.mem_cons.mp hother with rfl | hother
    · rcases List.mem_cons.mp hid with rfl | hid
      · rw [hsize]
        exact ⟨ih.1, Nat.lt_succ_self _⟩
      · exact hold chain hchain id hid
    · exact hold other hother id hid
  | opened _ _ ih => exact ih
  | @used b chains _ chain _ form _ ih =>
    rw [size_addUsing]
    exact ih
  | @part b chains _ chain _ enclosing _ d _ ih =>
    rw [(scopes_addPart b chain enclosing d).1]
    exact ih

theorem Adds.inRange (h : Adds Form Top a b chains) (hchain : chain ∈ chains) :
    b.InRange chain := fun id hid =>
  (h.fresh.2 chain hchain id hid).2

theorem scope_addUsing_of_ne {o : Outline} {id : ScopeId} (hid : id ∉ chain) (form : UsingForm) :
    (o.addUsing chain form).scope id = o.scope id := by
  have hupdate : ∀ (other : ScopeId) (f : Scope → Scope), other ≠ id →
      (o.updateScope other f).scope id = o.scope id := by
    intro other f hne
    have hindex : other.index ≠ id.index := fun he => hne (by cases other; cases id; cases he; rfl)
    rw [updateScope, scope, scope, Array.getElem?_modify, if_neg hindex]
  cases form with
  | space isGlobal name =>
    cases isGlobal with
    | true => rfl
    | false =>
      cases chain with
      | nil => rfl
      | cons other outer => exact hupdate other _ fun he => hid (he ▸ List.mem_cons_self)
  | named isGlobal name target written =>
    cases isGlobal with
    | true => rfl
    | false =>
      cases chain with
      | nil => rfl
      | cons other outer => exact hupdate other _ fun he => hid (he ▸ List.mem_cons_self)

/-- **The scopes of other files stay as they are.** -/
theorem Adds.scope (h : Adds Form Top a b chains) {id : ScopeId} (hid : id.index < a.scopes.size) :
    b.scope id = a.scope id := by
  induction h with
  | start => rfl
  | @pushed b chains hb chain _ name ih =>
    rw [scope_pushScope_of_lt (Nat.lt_of_lt_of_le hid hb.fresh.1), ih]
  | opened _ _ ih => exact ih
  | @used b chains hb chain hchain form _ ih =>
    rw [scope_addUsing_of_ne (fun hmem => ?_), ih]
    exact Nat.not_lt_of_le (hb.fresh.2 chain hchain id hmem).1 hid
  | @part b chains _ chain _ enclosing _ d _ ih =>
    rw [Outline.scope, (scopes_addPart b chain enclosing d).1]
    exact ih

/-- A file without global using directives changes nothing that is in effect everywhere. -/
theorem Adds.globals (h : Adds Form Top a b chains)
    (hform : ∀ form, Form form → form.isGlobal = false) :
    b.globalUsings = a.globalUsings ∧ b.globalAliases = a.globalAliases ∧
      b.implicitUsings = a.implicitUsings := by
  induction h with
  | start => exact ⟨rfl, rfl, rfl⟩
  | pushed _ _ _ ih => exact ih
  | opened _ _ ih => exact ih
  | @used b chains _ chain _ form hf ih =>
    have hlocal := hform form hf
    cases form with
    | space isGlobal name =>
      cases hlocal
      cases chain <;> exact ih
    | named isGlobal name target written =>
      cases hlocal
      cases chain <;> exact ih
  | @part b chains _ chain _ enclosing _ d _ ih =>
    obtain ⟨-, husings, haliases, himplicit⟩ := scopes_addPart b chain enclosing d
    rw [husings, haliases, himplicit]
    exact ih

/-! ### The walk over nested types -/

theorem Since.around (h : b.Since a enclosing) : b.Around enclosing := by
  rcases h with h | ⟨part, hpart, h⟩
  · exact Or.inl h
  · exact Or.inr ⟨part, List.mem_of_mem_drop hpart, h⟩

/-- The steps are steps of the first pass. -/
theorem Adds.reaches (h : Adds Form Top a b chains) : Reaches a b := by
  induction h with
  | start => exact .start
  | pushed _ _ _ ih => exact ih.rescoped (rescoped_pushScope _ _)
  | opened _ name ih => exact ih.opened name
  | used _ _ _ ih => exact ih.trans (reaches_addUsing _ _)
  | part _ _ henclosing _ ih => exact ih.part _ henclosing.around _

/-- Parts are only added at the end. -/
theorem Reaches.parts_append (h : Reaches a b) : ∃ new, b.parts = a.parts ++ new := by
  induction h with
  | start => exact ⟨[], (List.append_nil _).symm⟩
  | rescoped _ hc ih =>
    rw [hc.parts]
    exact ih
  | opened _ _ ih => exact ih
  | @part b _ chain enclosing _ d ih =>
    obtain ⟨new, hnew⟩ := ih
    refine ⟨new ++ [⟨(b.declarePart chain enclosing d).2, d, chain, enclosing⟩], ?_⟩
    rw [addPart_parts, hnew, List.append_assoc]

/-- Parts that were declared since stay so. -/
theorem Since.reaches (h : b.Since a enclosing) (ha : Reaches a b) (hb : Reaches b c) :
    c.Since a enclosing := by
  obtain ⟨old, hold⟩ := ha.parts_append
  obtain ⟨new, hnew⟩ := hb.parts_append
  rcases h with h | ⟨part, hpart, h⟩
  · exact Or.inl h
  · refine Or.inr ⟨part, ?_, h⟩
    rw [hnew, List.drop_append_of_le_length (by rw [hold, List.length_append]; omega)]
    exact List.mem_append_left _ hpart

theorem since_addPart (h : Reaches a b) (chain : ScopeChain) (enclosing : List TypeId)
    (d : TypeDeclaration) : (b.addPart chain enclosing d).Since a
      ((b.declarePart chain enclosing d).2 :: enclosing) := by
  obtain ⟨old, hold⟩ := h.parts_append
  refine Or.inr ⟨⟨(b.declarePart chain enclosing d).2, d, chain, enclosing⟩, ?_, rfl⟩
  rw [addPart_parts, List.drop_append_of_le_length (by rw [hold, List.length_append]; omega)]
  exact List.mem_append_right _ List.mem_cons_self

end

mutual

theorem adds_declareType {Form : UsingForm → Prop} {Top : NamespacePath → TypeDeclaration → Prop}
    {a : Outline} {chains : List ScopeChain} {chain : ScopeChain} (hchain : chain ∈ chains) :
    ∀ (d : TypeDeclaration) (b : Outline) (enclosing : List TypeId), Adds Form Top a b chains →
      b.Since a enclosing → (enclosing = [] → Top (b.pathOf chain) d) →
      Adds Form Top a (b.declareType chain enclosing d) chains
  | ⟨name, kind, isRecord, modifiers, typeParameters, constraints, returns, hasParameterList,
      parameters, enumMembers, members, nested⟩, b, enclosing, h, hsince, htop => by
    rw [declareType_eq]
    exact adds_declareTypes hchain nested _ _ _ (h.part hchain hsince htop)
      (since_addPart h.reaches chain enclosing _)

theorem adds_declareTypes {Form : UsingForm → Prop} {Top : NamespacePath → TypeDeclaration → Prop}
    {a : Outline} {chains : List ScopeChain} {chain : ScopeChain} (hchain : chain ∈ chains) :
    ∀ (ds : List TypeDeclaration) (b : Outline) (outer : TypeId) (rest : List TypeId),
      Adds Form Top a b chains → b.Since a (outer :: rest) →
      Adds Form Top a (b.declareTypes chain (outer :: rest) ds) chains
  | [], b, outer, rest, h, _ => by
    rw [declareTypes]
    exact h
  | d :: ds, b, outer, rest, h, hsince => by
    rw [declareTypes]
    have hd := adds_declareType hchain d b (outer :: rest) h hsince fun hnil => (by cases hnil)
    have hreach := reaches_declareType chain d b (outer :: rest) hsince.around
    exact adds_declareTypes hchain ds _ outer rest hd (hsince.reaches h.reaches hreach)

end

/-! ### The walk over items -/

section

variable {Form : UsingForm → Prop} {Top : NamespacePath → TypeDeclaration → Prop} {a b : Outline}
  {chains : List ScopeChain} {chain : ScopeChain}

theorem adds_enterSegments (segments : List String) (h : Adds Form Top a b chains)
    (hchain : chain ∈ chains) : ∃ more, Adds Form Top a (b.enterSegments chain segments).1 more ∧
      (b.enterSegments chain segments).2 ∈ more ∧ chains ⊆ more := by
  induction segments generalizing b chain chains with
  | nil => exact ⟨chains, h, hchain, fun _ hmem => hmem⟩
  | cons segment rest ih =>
    rw [enterSegments]
    obtain ⟨more, hadds, hmem, hsub⟩ := ih (h.pushed hchain _) List.mem_cons_self
    exact ⟨more, hadds, hmem, fun other hother => hsub (List.mem_cons_of_mem _ hother)⟩

theorem adds_enter (name : String) (h : Adds Form Top a b chains) (hchain : chain ∈ chains) :
    ∃ more, Adds Form Top a (b.enter chain name).1 more ∧ (b.enter chain name).2 ∈ more ∧
      chains ⊆ more := by
  have hsegments := adds_enterSegments (Text.segments '.' name) h hchain
  rw [enter]
  generalize b.enterSegments chain (Text.segments '.' name) = entered at hsegments ⊢
  obtain ⟨inner, innerChain⟩ := entered
  obtain ⟨more, hadds, hmem, hsub⟩ := hsegments
  exact ⟨more, hadds.opened _, hmem, hsub⟩

end

mutual

theorem adds_declareItem {Form : UsingForm → Prop} {Top : NamespacePath → TypeDeclaration → Prop}
    {a : Outline} : ∀ (item : Item) (b : Outline) (chains : List ScopeChain) (chain : ScopeChain),
      Adds Form Top a b chains → chain ∈ chains → (∀ form ∈ usingsOfItem item, Form form) →
      (∀ t ∈ topsOfItem (b.spaceName chain) item, Top t.path t.form) →
      ∃ more, Adds Form Top a (b.declareItem chain item).1 more ∧
        (b.declareItem chain item).2 ∈ more ∧ chains ⊆ more
  | .using form, b, chains, chain, h, hchain, hforms, _ => by
    rw [usingsOfItem] at hforms
    rw [declareItem]
    exact ⟨chains, h.used hchain (hforms form List.mem_cons_self), hchain, fun _ hmem => hmem⟩
  | .block name items, b, chains, chain, h, hchain, hforms, htops => by
    obtain ⟨more, hadds, hmem, hsub⟩ := adds_enter name h hchain
    have hspace := (enter_spec (h.inRange hchain) name).2.2
    rw [usingsOfItem] at hforms
    rw [topsOfItem, ← hspace] at htops
    rw [declareItem]
    generalize b.enter chain name = entered at *
    obtain ⟨inner, innerChain⟩ := entered
    obtain ⟨all, hall, hsub'⟩ := adds_declareItems items inner more innerChain hadds hmem hforms htops
    exact ⟨all, hall, hsub' (hsub hchain), fun _ hother => hsub' (hsub hother)⟩
  | .fileScoped name items, b, chains, chain, h, hchain, hforms, htops => by
    obtain ⟨more, hadds, hmem, hsub⟩ := adds_enter name h hchain
    have hspace := (enter_spec (h.inRange hchain) name).2.2
    rw [usingsOfItem] at hforms
    rw [topsOfItem, ← hspace] at htops
    rw [declareItem]
    generalize b.enter chain name = entered at *
    obtain ⟨inner, innerChain⟩ := entered
    obtain ⟨all, hall, hsub'⟩ := adds_declareItems items inner more innerChain hadds hmem hforms htops
    exact ⟨all, hall, hsub' hmem, fun _ hother => hsub' (hsub hother)⟩
  | .group items, b, chains, chain, h, hchain, hforms, htops => by
    rw [usingsOfItem] at hforms
    rw [topsOfItem] at htops
    rw [declareItem]
    obtain ⟨all, hall, hsub⟩ := adds_declareItems items b chains chain h hchain hforms htops
    exact ⟨all, hall, hsub hchain, hsub⟩
  | .type d, b, chains, chain, h, hchain, _, htops => by
    rw [topsOfItem] at htops
    rw [declareItem]
    exact ⟨chains, adds_declareType hchain d b [] h (Or.inl rfl) fun _ =>
      htops _ List.mem_cons_self, hchain, fun _ hmem => hmem⟩

/-- **The walk over items takes only such steps, and declares what the items ask for.** -/
theorem adds_declareItems {Form : UsingForm → Prop} {Top : NamespacePath → TypeDeclaration → Prop}
    {a : Outline} : ∀ (items : List Item) (b : Outline) (chains : List ScopeChain)
      (chain : ScopeChain), Adds Form Top a b chains → chain ∈ chains →
      (∀ form ∈ usingsOfItems items, Form form) →
      (∀ t ∈ topsOfItems (b.spaceName chain) items, Top t.path t.form) →
      ∃ more, Adds Form Top a (b.declareItems chain items) more ∧ chains ⊆ more
  | [], b, chains, chain, h, _, _, _ => by
    rw [declareItems]
    exact ⟨chains, h, fun _ hmem => hmem⟩
  | item :: rest, b, chains, chain, h, hchain, hforms, htops => by
    rw [usingsOfItems] at hforms
    rw [topsOfItems, ← (declareItem_after item (h.inRange hchain)).2] at htops
    obtain ⟨more, hadds, hmem, hsub⟩ := adds_declareItem item b chains chain h hchain
      (fun form hform => hforms form (List.mem_append_left _ hform))
      (fun t ht => htops t (List.mem_append_left _ ht))
    obtain ⟨all, hall, hsub'⟩ := adds_declareItems rest _ more _ hadds hmem
      (fun form hform => hforms form (List.mem_append_right _ hform))
      (fun t ht => htops t (List.mem_append_right _ ht))
    rw [declareItems]
    exact ⟨all, hall, fun _ hother => hsub' (hsub hother)⟩

end

/-- **A file adds what its items ask for, in chains of scopes of its own.** -/
theorem adds_addFile {Form : UsingForm → Prop} {Top : NamespacePath → TypeDeclaration → Prop}
    (a : Outline) {items : List Item} (hforms : ∀ form ∈ usingsOfItems items, Form form)
    (htops : ∀ t ∈ topsOfItems "" items, Top t.path t.form) :
    ∃ chains, Adds Form Top a (a.addFile items) chains := by
  have hpushed : Adds Form Top a (a.pushScope [] "").1 [(a.pushScope [] "").2, []] :=
    .pushed .start List.mem_cons_self ""
  have hspace : (a.pushScope [] "").1.spaceName (a.pushScope [] "").2 = "" := spaceName_pushScope ""
  rw [← hspace] at htops
  obtain ⟨chains, hadds, -⟩ := adds_declareItems items _ _ _ hpushed List.mem_cons_self hforms htops
  exact ⟨chains, hadds⟩

end Binding.Outline

end ExtensionCensus
