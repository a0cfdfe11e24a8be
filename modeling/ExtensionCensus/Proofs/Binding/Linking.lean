import ExtensionCensus.Proofs.Binding.Adding
import ExtensionCensus.Proofs.Binding.Corresponding
import ExtensionCensus.Proofs.Binding.Recorded

/-!
# Scopes and the chains that they lie in

A scope lies in one chain only, the one in which it was opened.  So what can be said by using
directives at a place is told by the contents of the scopes around it, level by level.

* `Follows`, `Outline.Linked` — every scope has a chain of scopes around it, in which its using
  directives stand;
* `Adds.linked` — the first pass keeps this;
* `Outline.viewOf` — the contents of the scopes of a chain;
* `sameChain_of_viewOf` — **chains with the same contents give the same meaning to names**.
-/

namespace ExtensionCensus.Binding

open Source (TypeForm TypeDeclaration UsingForm)

/-- Behind each scope of the chain stand the scopes that lie around it. -/
def Follows (around : Nat → ScopeChain) : ScopeChain → Prop
  | [] => True
  | id :: outer => outer = around id.index ∧ Follows around outer

theorem Follows.congr {around around' : Nat → ScopeChain} {chain : ScopeChain}
    (h : Follows around chain) (hsame : ∀ id ∈ chain, around' id.index = around id.index) :
    Follows around' chain := by
  induction chain with
  | nil => trivial
  | cons id outer ih =>
    refine ⟨h.1.trans (hsame id List.mem_cons_self).symm, ih h.2 fun other hother => ?_⟩
    exact hsame other (List.mem_cons_of_mem id hother)

namespace Outline

/-- A chain of scopes of the outline, each in the scopes that lie around it. -/
structure Chained (o : Outline) (around : Nat → ScopeChain) (chain : ScopeChain) : Prop where
  inRange : o.InRange chain
  follows : Follows around chain

/-- Every scope lies in the scopes around it, and so do using directives and parts of types. -/
structure Linked (o : Outline) (around : Nat → ScopeChain) : Prop where
  scopes : ∀ i < o.scopes.size, o.Chained around (around i)
  aliases : ∀ id : ScopeId, ∀ e ∈ (o.scope id).aliases, e.2.scopes = id :: around id.index
  globals : ∀ e ∈ o.globalAliases, o.Chained around e.2.scopes
  parts : ∀ part ∈ o.parts, o.Chained around part.scopes

section

variable {Form : UsingForm → Prop} {Top : NamespacePath → TypeDeclaration → Prop} {a b o : Outline}
  {chains : List ScopeChain} {chain : ScopeChain} {around around' : Nat → ScopeChain}

/-! ### The first pass -/

theorem linked_empty (implicitUsings : Bool) : Linked { implicitUsings } fun _ => [] := by
  refine ⟨fun i hi => ?_, fun id e he => ?_, fun e he => ?_, fun part hp => ?_⟩
  · exact absurd hi (Nat.not_lt_zero i)
  · cases he
  · cases he
  · cases hp

/-- More scopes, with the scopes around them, change nothing for those that are there. -/
theorem Chained.mono (h : a.Chained around chain) (hsize : a.scopes.size ≤ b.scopes.size)
    (hsame : ∀ i < a.scopes.size, around' i = around i) : b.Chained around' chain :=
  ⟨fun id hid => Nat.lt_of_lt_of_le (h.inRange id hid) hsize,
    h.follows.congr fun id hid => hsame _ (h.inRange id hid)⟩

theorem Chained.of_scopes_eq (h : a.Chained around chain) (hscopes : b.scopes = a.scopes) :
    b.Chained around chain :=
  h.mono (Nat.le_of_eq (congrArg Array.size hscopes.symm)) fun _ _ => rfl

/-- The same scopes, with other directives that are in effect everywhere and other parts. -/
theorem Linked.of_scopes_eq (h : a.Linked around) (hscopes : b.scopes = a.scopes)
    (hglobals : ∀ e ∈ b.globalAliases, a.Chained around e.2.scopes)
    (hparts : ∀ part ∈ b.parts, a.Chained around part.scopes) : b.Linked around := by
  refine ⟨fun i hi => (h.scopes i (hscopes ▸ hi)).of_scopes_eq hscopes, fun id e he => ?_,
    fun e he => (hglobals e he).of_scopes_eq hscopes,
    fun part hp => (hparts part hp).of_scopes_eq hscopes⟩
  rw [scope, hscopes] at he
  exact h.aliases id e he

theorem scope_pushScope (o : Outline) (chain : ScopeChain) (name : String) (id : ScopeId) :
    (o.pushScope chain name).1.scope id
      = if id.index = o.scopes.size then { spaceName := name } else o.scope id := by
  rw [pushScope, scope, scope]
  exact getD_push o.scopes id.index { spaceName := name }

/-- One more scope, in a chain of the outline. -/
theorem Linked.pushScope (h : o.Linked around) (hchain : o.Chained around chain) (name : String) :
    (o.pushScope chain name).1.Linked (Function.update around o.scopes.size chain) ∧
      (o.pushScope chain name).1.Chained (Function.update around o.scopes.size chain)
        (o.pushScope chain name).2 := by
  have hsize : (o.pushScope chain name).1.scopes.size = o.scopes.size + 1 := by
    rw [Outline.pushScope, Array.size_push]
  have hsame : ∀ i < o.scopes.size, Function.update around o.scopes.size chain i = around i :=
    fun i hi => Function.update_of_ne (Nat.ne_of_lt hi) _ _
  have hnew : Function.update around o.scopes.size chain o.scopes.size = chain :=
    Function.update_self _ _ _
  have hmono : ∀ {other}, o.Chained around other → (o.pushScope chain name).1.Chained
      (Function.update around o.scopes.size chain) other := fun hother =>
    hother.mono (hsize ▸ Nat.le_succ _) hsame
  refine ⟨⟨fun i hi => ?_, fun id e he => ?_, fun e he => hmono (h.globals e he),
    fun part hp => hmono (h.parts part hp)⟩, ?_, ?_⟩
  · rw [hsize] at hi
    rcases Nat.lt_succ_iff_lt_or_eq.mp hi with hi | rfl
    · rw [hsame i hi]
      exact hmono (h.scopes i hi)
    · rw [hnew]
      exact hmono hchain
  · rw [scope_pushScope] at he
    split at he
    · cases he
    · next hid =>
      rw [h.aliases id e he, Function.update_of_ne hid]
  · exact inRange_pushScope hchain.inRange name
  · exact ⟨hnew.symm, (hmono hchain).follows⟩

/-- A change of a scope that adds only using directives that stand in it. -/
theorem Linked.updateScope (h : o.Linked around) (id : ScopeId) {f : Scope → Scope}
    (hf : ∀ s, ∀ e ∈ (f s).aliases, e ∈ s.aliases ∨ e.2.scopes = id :: around id.index) :
    (o.updateScope id f).Linked around := by
  have hsize : (o.updateScope id f).scopes.size = o.scopes.size := Array.size_modify
  have hmono : ∀ {other}, o.Chained around other → (o.updateScope id f).Chained around other :=
    fun hother => hother.mono (Nat.le_of_eq hsize.symm) fun _ _ => rfl
  refine ⟨fun i hi => hmono (h.scopes i (hsize ▸ hi)), fun other e he => ?_,
    fun e he => hmono (h.globals e he), fun part hp => hmono (h.parts part hp)⟩
  have hscope : (o.updateScope id f).scope other
      = if other.index = id.index ∧ id.index < o.scopes.size then f (o.scope id)
        else o.scope other := getD_modify o.scopes id.index other.index f
  rw [hscope] at he
  split at he
  · next hsame =>
    have hother : other = id := by cases other; cases id; exact congrArg _ hsame.1
    subst hother
    rcases hf _ e he with he | he
    · exact h.aliases other e he
    · exact he
  · exact h.aliases other e he

theorem Linked.addUsing (h : o.Linked around) (hchain : o.Chained around chain)
    (form : UsingForm) : (o.addUsing chain form).Linked around := by
  cases form with
  | space isGlobal name =>
    cases isGlobal with
    | true => exact h.of_scopes_eq rfl h.globals h.parts
    | false =>
      cases chain with
      | nil => exact h
      | cons id outer => exact h.updateScope id fun s e he => Or.inl he
  | named isGlobal name target written =>
    cases isGlobal with
    | true =>
      refine h.of_scopes_eq rfl (fun e he => ?_) h.parts
      rcases List.mem_cons.mp he with rfl | he
      · exact hchain
      · exact h.globals e he
    | false =>
      cases chain with
      | nil => exact h
      | cons id outer =>
        refine h.updateScope id fun s e he => ?_
        rcases List.mem_cons.mp he with rfl | he
        · rw [← hchain.follows.1]
          exact Or.inr rfl
        · exact Or.inl he

theorem Linked.addPart (h : o.Linked around) (hchain : o.Chained around chain)
    (enclosing : List TypeId) (d : TypeDeclaration) :
    (o.addPart chain enclosing d).Linked around := by
  obtain ⟨hscopes, -, hglobals, -⟩ := scopes_addPart o chain enclosing d
  refine h.of_scopes_eq hscopes (fun e he => h.globals e (hglobals ▸ he)) fun part hp => ?_
  rw [addPart_parts] at hp
  rcases List.mem_append.mp hp with hp | hp
  · exact h.parts part hp
  · rw [List.mem_singleton.mp hp]
    exact hchain

theorem chained_addUsing (h : o.Chained around chain) (other : ScopeChain) (form : UsingForm) :
    (o.addUsing other form).Chained around chain :=
  h.mono (Nat.le_of_eq (size_addUsing o other form).symm) fun _ _ => rfl

/-- A file keeps every scope in the scopes around it. -/
theorem Adds.linked (h : Adds Form Top a b chains) (ha : a.Linked around) :
    ∃ around', b.Linked around' ∧ (∀ chain ∈ chains, b.Chained around' chain) ∧
      ∀ i < a.scopes.size, around' i = around i := by
  induction h with
  | start =>
    refine ⟨around, ha, fun chain hchain => ?_, fun _ _ => rfl⟩
    rw [List.mem_singleton.mp hchain]
    exact ⟨fun id hid => (by cases hid), trivial⟩
  | @pushed b chains hb chain hchain name ih =>
    obtain ⟨around', hlinked, hchains, hsame⟩ := ih
    obtain ⟨hnew, hinner⟩ := hlinked.pushScope (hchains chain hchain) name
    refine ⟨_, hnew, fun other hother => ?_, fun i hi => ?_⟩
    · rcases List.mem_cons.mp hother with rfl | hother
      · exact hinner
      · refine (hchains other hother).mono ?_ fun i hi => Function.update_of_ne (Nat.ne_of_lt hi) _ _
        rw [Outline.pushScope, Array.size_push]
        exact Nat.le_succ _
    · have hlt := Nat.lt_of_lt_of_le hi hb.fresh.1
      rw [Function.update_of_ne (Nat.ne_of_lt hlt), hsame i hi]
  | opened _ _ ih =>
    obtain ⟨around', hlinked, hchains, hsame⟩ := ih
    exact ⟨around', hlinked.of_scopes_eq rfl hlinked.globals hlinked.parts,
      fun chain hchain => (hchains chain hchain).of_scopes_eq rfl, hsame⟩
  | used _ hchain _ ih =>
    obtain ⟨around', hlinked, hchains, hsame⟩ := ih
    exact ⟨around', hlinked.addUsing (hchains _ hchain) _,
      fun other hother => chained_addUsing (hchains other hother) _ _, hsame⟩
  | @part b chains _ chain hchain enclosing _ d _ ih =>
    obtain ⟨around', hlinked, hchains, hsame⟩ := ih
    exact ⟨around', hlinked.addPart (hchains chain hchain) enclosing d,
      fun other hother => (hchains other hother).of_scopes_eq (scopes_addPart b chain enclosing d).1,
      hsame⟩

/-! ### Contents of scopes -/

/-- What a scope says: its namespace, and its using directives. -/
def contentsOf (s : Scope) : String × List String × List (String × TypeForm × String) :=
  (s.spaceName, s.usings, s.aliases.map fun e => (e.1, e.2.target, e.2.written))

/-- The contents of the scopes of a chain. -/
def viewOf (o : Outline) (chain : ScopeChain) :
    List (String × List String × List (String × TypeForm × String)) :=
  chain.map fun id => contentsOf (o.scope id)

/-- The targets of using directives in a scope ask for known names. -/
theorem Takes.of_scope {P : TypeForm → Prop} (h : o.Takes P) (id : ScopeId) :
    ∀ e ∈ (o.scope id).aliases, P e.2.target := by
  intro e he
  rw [scope] at he
  cases hid : o.scopes[id.index]? with
  | none =>
    rw [hid] at he
    cases he
  | some s =>
    rw [hid] at he
    exact h.inScopes s (Array.mem_of_getElem? hid) e he

theorem forall₂_of_map_eq {α β γ : Type} {f : α → γ} {g : β → γ} {R : α → β → Prop} {xs : List α}
    {ys : List β} (h : xs.map f = ys.map g) (hR : ∀ x ∈ xs, ∀ y ∈ ys, f x = g y → R x y) :
    List.Forall₂ R xs ys := by
  induction xs generalizing ys with
  | nil =>
    cases ys with
    | nil => exact .nil
    | cons y ys => cases h
  | cons x xs ih =>
    cases ys with
    | nil => cases h
    | cons y ys =>
      rw [List.map_cons, List.map_cons, List.cons.injEq] at h
      refine .cons (hR x List.mem_cons_self y List.mem_cons_self h.1) (ih h.2 fun x' hx y' hy => ?_)
      exact hR x' (List.mem_cons_of_mem x hx) y' (List.mem_cons_of_mem y hy)

/-- **Chains with the same contents give the same meaning to names.** -/
theorem sameChain_of_viewOf {Known : String → Prop} (ha : a.Linked around) (hb : b.Linked around')
    (hknown : a.Takes (TypeForm.Known Known)) {chain' : ScopeChain} (hc : Follows around chain)
    (hc' : Follows around' chain') (hview : b.viewOf chain' = a.viewOf chain) :
    SameChain Known a b chain chain' := by
  induction chain generalizing chain' with
  | nil =>
    cases chain' with
    | nil => exact .nil
    | cons j outer' => cases hview
  | cons i outer ih =>
    cases chain' with
    | nil => cases hview
    | cons j outer' =>
      rw [viewOf, viewOf, List.map_cons, List.map_cons, List.cons.injEq, contentsOf, contentsOf,
        Prod.mk.injEq, Prod.mk.injEq] at hview
      obtain ⟨⟨hspace, husings, haliases⟩, houter⟩ := hview
      refine .cons (ih hc.2 hc'.2 houter) hspace husings
        (forall₂_of_map_eq haliases.symm fun x hx y hy hxy => ?_)
      rw [Prod.mk.injEq, Prod.mk.injEq] at hxy
      refine ⟨hxy.1.symm, hxy.2.1.symm, hxy.2.2.symm, hknown.of_scope i x hx, ?_, ?_⟩
      · rw [ha.aliases i x hx, hc.1]
      · rw [hb.aliases j y hy, hc'.1]

end

end Outline

end ExtensionCensus.Binding
