import ExtensionCensus.Proofs.Binding.TopLevel
import ExtensionCensus.Proofs.Text.Segment

/-!
# Entering namespaces

What the name of a namespace does to an outline: one scope is pushed for each segment, and the
namespace is opened with all around it.

* `enter_eq` — the scopes and the tree of namespaces, each on its own;
* `enter_append` — **entering a dotted name is entering its two halves one after the other**;
* `declareItems_append` — items in order, if no file-scoped namespace is among the ones in front.
-/

namespace ExtensionCensus

/-! ### Dotted names -/

namespace Namespace

/-- The two sides of a dot add their own segments. -/
theorem trimmedParts_append (first second : String) :
    trimmedParts (first ++ "." ++ second) = trimmedParts first ++ trimmedParts second := by
  rw [trimmedParts, trimmedParts, trimmedParts, ← List.filter_append, ← List.map_append]
  exact congrArg (fun parts => (parts.map Text.trim).filter (· ≠ ""))
    (Text.segments_append first second)

end Namespace

namespace Binding

open Source

theorem spaceBelow_append (outer : String) (first second : List String) :
    spaceBelow outer (first ++ second) = spaceBelow (spaceBelow outer first) second := by
  induction first generalizing outer with
  | nil => rfl
  | cons segment rest ih => exact ih _

theorem spaceInside_append (outer first second : String) :
    spaceInside outer (first ++ "." ++ second) = spaceInside (spaceInside outer first) second := by
  rw [spaceInside, spaceInside, spaceInside, ← spaceBelow_append]
  exact congrArg (spaceBelow outer) (Text.segments_append first second)

/-- A namespace lies in the one around it. -/
theorem trimmedParts_spaceBelow (outer : String) (segments : List String) :
    ∃ more, Namespace.trimmedParts (spaceBelow outer segments)
      = Namespace.trimmedParts outer ++ more := by
  induction segments generalizing outer with
  | nil => exact ⟨[], (List.append_nil _).symm⟩
  | cons segment rest ih =>
    obtain ⟨more, hmore⟩ := ih (if outer = "" then segment else outer ++ "." ++ segment)
    rw [spaceBelow, hmore]
    split
    · next houter =>
      rw [houter]
      exact ⟨_, rfl⟩
    · rw [Namespace.trimmedParts_append, List.append_assoc]
      exact ⟨_, rfl⟩

namespace Outline

variable {o : Outline} {chain : ScopeChain}

/-! ### Entering -/

theorem enterSegments_append (o : Outline) (chain : ScopeChain) (first second : List String) :
    o.enterSegments chain (first ++ second) =
      (o.enterSegments chain first).1.enterSegments (o.enterSegments chain first).2 second := by
  induction first generalizing o chain with
  | nil => rfl
  | cons segment rest ih => exact ih _ _

/-- The scopes of a namespace are pushed whatever the tree of namespaces is. -/
theorem enterSegments_withRoot (o : Outline) (chain : ScopeChain) (root : Namespace)
    (segments : List String) : ({ o with root } : Outline).enterSegments chain segments =
      ({ (o.enterSegments chain segments).1 with root }, (o.enterSegments chain segments).2) := by
  induction segments generalizing o chain with
  | nil => rfl
  | cons segment rest ih =>
    have hnext := ih (o.pushScope chain (if o.spaceName chain = "" then segment
      else o.spaceName chain ++ "." ++ segment)).1 (⟨o.scopes.size⟩ :: chain)
    exact hnext

theorem root_enterSegments (o : Outline) (chain : ScopeChain) (segments : List String) :
    (o.enterSegments chain segments).1.root = o.root := by
  induction segments generalizing o chain with
  | nil => rfl
  | cons segment rest ih => exact ih _ _

/-- Entering a namespace pushes a scope for each segment and opens the namespace. -/
theorem enter_eq (o : Outline) (chain : ScopeChain) (name : String) : o.enter chain name =
    ({ (o.enterSegments chain (Text.segments '.' name)).1 with
        root := o.root.update id
          (Namespace.trimmedParts (spaceInside (o.spaceName chain) name)) },
      (o.enterSegments chain (Text.segments '.' name)).2) := by
  have hname : _ = spaceInside (o.spaceName chain) name :=
    spaceName_enterSegments o chain (Text.segments '.' name)
  have hroot := root_enterSegments o chain (Text.segments '.' name)
  rewrite [enter, ← hname, ← hroot]
  generalize o.enterSegments chain (Text.segments '.' name) = entered
  rfl

theorem spaceName_withRoot (o : Outline) (chain : ScopeChain) (root : Namespace) :
    ({ o with root } : Outline).spaceName chain = o.spaceName chain := by
  cases chain <;> rfl

theorem spaceName_enter (o : Outline) (chain : ScopeChain) (name : String) :
    (o.enter chain name).1.spaceName (o.enter chain name).2
      = spaceInside (o.spaceName chain) name := by
  rw [enter_eq, spaceName_withRoot, spaceName_enterSegments]
  rfl

/-- **Entering a dotted name is entering its two halves one after the other.**  The namespace of the
first half is on the way to the whole one, so that opening it as well adds nothing. -/
theorem enter_append (o : Outline) (chain : ScopeChain) (first second : String) :
    o.enter chain (first ++ "." ++ second) =
      (o.enter chain first).1.enter (o.enter chain first).2 second := by
  have hsegments : Text.segments '.' (first ++ "." ++ second) =
      Text.segments '.' first ++ Text.segments '.' second := Text.segments_append first second
  obtain ⟨more, hmore⟩ :=
    trimmedParts_spaceBelow (spaceInside (o.spaceName chain) first) (Text.segments '.' second)
  rw [enter_eq _ _ second, spaceName_enter, enter_eq o chain first, enterSegments_withRoot,
    enter_eq, hsegments, enterSegments_append, spaceInside_append, spaceInside.eq_1 _ second, hmore,
    Namespace.update_id_append]

/-! ### Items in order -/

theorem declareItems_cons (o : Outline) (chain : ScopeChain) (item : Item) (rest : List Item) :
    o.declareItems chain (item :: rest) =
      (o.declareItem chain item).1.declareItems (o.declareItem chain item).2 rest := by
  rw [declareItems]

theorem declareItems_nil (o : Outline) (chain : ScopeChain) : o.declareItems chain [] = o := by
  rw [declareItems]

theorem declareItems_block (o : Outline) (chain : ScopeChain) (name : String)
    (items rest : List Item) : o.declareItems chain (.block name items :: rest) =
      ((o.enter chain name).1.declareItems (o.enter chain name).2 items).declareItems chain
        rest := by
  rw [declareItems_cons, declareItem]

theorem declareItems_fileScoped (o : Outline) (chain : ScopeChain) (name : String)
    (items rest : List Item) : o.declareItems chain (.fileScoped name items :: rest) =
      ((o.enter chain name).1.declareItems (o.enter chain name).2 items).declareItems
        (o.enter chain name).2 rest := by
  rw [declareItems_cons, declareItem]

theorem declareItems_group (o : Outline) (chain : ScopeChain) (items rest : List Item) :
    o.declareItems chain (.group items :: rest) =
      (o.declareItems chain items).declareItems chain rest := by
  rw [declareItems_cons, declareItem]

/-- Only a file-scoped namespace changes where the items behind it lie. -/
theorem chain_declareItem {source : Text.Bytes} {around : String} {c : Node} {item : Item}
    (hc : c.kind ≠ "file_scoped_namespace_declaration")
    (h : readItem? source around c = some item) (o : Outline) (chain : ScopeChain) :
    (o.declareItem chain item).2 = chain := by
  cases item with
  | fileScoped name items =>
    rw [readItem?] at h
    split at h
    · obtain ⟨_, _, he⟩ := Option.map_eq_some_iff.mp h
      cases he
    · cases h
    · next hk => exact absurd hk hc
    · split at h
      · cases h
      · cases h
    · obtain ⟨_, _, he⟩ := Option.map_eq_some_iff.mp h
      cases he
  | «using» form => rw [declareItem]
  | block name items => rw [declareItem]
  | group items => rw [declareItem]
  | type d => rw [declareItem]

/-- Behind nodes of which none is a file-scoped namespace, the next ones lie where these do. -/
theorem declareItems_append {source : Text.Bytes} {around : String} {nodes : List Node}
    (h : ∀ c ∈ nodes, c.kind ≠ "file_scoped_namespace_declaration") (o : Outline)
    (chain : ScopeChain) (items : List Item) :
    o.declareItems chain (nodes.filterMap (readItem? source around) ++ items) =
      (o.declareItems chain (nodes.filterMap (readItem? source around))).declareItems chain
        items := by
  induction nodes generalizing o with
  | nil => rw [List.filterMap_nil, List.nil_append, declareItems]
  | cons c rest ih =>
    have hrest := ih fun d hd => h d (List.mem_cons_of_mem _ hd)
    rw [List.filterMap_cons]
    cases hitem : readItem? source around c with
    | none => exact hrest o
    | some item =>
      have hchain := chain_declareItem (h c List.mem_cons_self) hitem o chain
      simp only [List.cons_append, declareItems_cons, hchain, hrest]

end Outline

end Binding

end ExtensionCensus
