import ExtensionCensus.Proofs.Binding.WellFormed
import ExtensionCensus.Proofs.Lists
import ExtensionCensus.Proofs.Source.Items

/-!
# Types directly in namespaces

Which parts of types the first pass declares directly in namespaces, and where.

* `Outline.tops`, `LiesAt` — the parts of an outline in no other type, and where the type of one lies;
* `Outline.Declares` — one outline is reached from another, and declares some parts on the way;
* `declares_declareItems`, `Compilation.declares_addFiles` — **the walk over the sources declares
  exactly the parts that the items ask for, in order**.
-/

namespace ExtensionCensus.Binding

open Source (TypeDeclaration UsingForm Item TopPart spaceBelow spaceInside spaceAfter topsOfItem
  topsOfItems)

namespace Outline

/-- The parts that lie in no other type. -/
def tops (o : Outline) : List DeclaredPart :=
  o.parts.filter (·.enclosing.isEmpty)

/-- A declared part is of some form, and its type lies at some place. -/
structure LiesAt (root : Namespace) (part : DeclaredPart) (t : TopPart) : Prop where
  form : part.form = t.form
  placed : ⟨t.path, keyOf t.form, part.type⟩ ∈ root.placed []

/-- The outline `b` is reached from `a`, and on the way some parts are declared in no other type. -/
structure Declares (a b : Outline) (ts : List TopPart) : Prop where
  reaches : Reaches a b
  tops : ∃ new, b.tops = a.tops ++ new ∧ List.Forall₂ (LiesAt b.root) new ts

section

variable {a b c o : Outline} {chain : ScopeChain} {enclosing : List TypeId} {d : TypeDeclaration}

/-! ### Places stay -/

/-- Inside another type, a part changes no namespace. -/
theorem root_addPart_inside (outer : TypeId) (rest : List TypeId) :
    (o.addPart chain (outer :: rest) d).root = o.root := by
  have h := declarePart_declares o chain (outer :: rest) d
  rw [addPart]
  generalize o.declarePart chain (outer :: rest) d = r at h ⊢
  cases h <;> rfl

theorem WellFormed.tabled_openedRoot (h : WellFormed o) (chain : ScopeChain) :
    (o.openedRoot chain).Tabled :=
  (h.places.openAt [] (o.spaceName chain)).tabled

theorem placed_openedRoot (h : Outlined o) (chain : ScopeChain) :
    (o.openedRoot chain).placed [] = o.root.placed [] :=
  Namespace.placed_update_id (o.pathOf chain) [] h.places.tabled

/-- The path that is found for a part is where its type lies. -/
theorem placed_addPart (h : Outlined o) :
    (∀ x ∈ o.root.placed [], x ∈ (o.addPart chain [] d).root.placed []) ∧
      ⟨o.pathOf chain, keyOf d, (o.declarePart chain [] d).2⟩
        ∈ (o.addPart chain [] d).root.placed [] := by
  have hopened := placed_openedRoot h chain
  have htabled := h.tabled_openedRoot chain
  have hdeclares := declarePart_declares o chain [] d
  rw [addPart]
  generalize o.declarePart chain [] d = r at hdeclares ⊢
  cases hdeclares with
  | againInSpace hid =>
    refine ⟨fun x hx => ?_, Namespace.mem_placed_of_find? htabled (o.pathOf chain) [] hid⟩
    rw [← hopened] at hx
    exact hx
  | firstInSpace _ =>
    have hperm := Namespace.perm_placed_addType (o.pathOf chain) [] (keyOf d) o.table.nextType
      htabled
    refine ⟨fun x hx => hperm.mem_iff.mpr (List.mem_cons_of_mem _ ?_),
      hperm.mem_iff.mpr List.mem_cons_self⟩
    rw [← hopened] at hx
    exact hx

/-- Whatever lies somewhere stays there. -/
theorem Reaches.mem_placed (hr : Reaches a b) (h : Outlined a) {x : Place}
    (hx : x ∈ a.root.placed []) : x ∈ b.root.placed [] := by
  induction hr with
  | start => exact hx
  | rescoped _ hc ih =>
    rw [hc.root]
    exact ih
  | @opened b hb name ih =>
    have hd := (hb.outlined h).places.tabled
    show x ∈ (b.root.update id _).placed []
    rw [Namespace.placed_update_id _ [] hd]
    exact ih
  | @part b hb chain enclosing _ d ih =>
    cases enclosing with
    | nil => exact (placed_addPart (hb.outlined h)).1 x ih
    | cons outer rest =>
      rw [root_addPart_inside]
      exact ih

/-! ### What is declared -/

theorem tops_addPart : (o.addPart chain enclosing d).tops
    = o.tops ++ if enclosing.isEmpty then [⟨(o.declarePart chain enclosing d).2, d, chain, enclosing⟩]
      else [] := by
  rw [tops, addPart_parts, List.filter_append, tops]
  refine congrArg _ ?_
  cases enclosing <;> rfl

theorem Declares.refl (o : Outline) : Declares o o [] :=
  ⟨.start, [], (List.append_nil _).symm, .nil⟩

theorem Declares.trans (h : Outlined a) {ts us : List TopPart} (hab : Declares a b ts)
    (hbc : Declares b c us) : Declares a c (ts ++ us) := by
  obtain ⟨new, hnew, hlies⟩ := hab.tops
  obtain ⟨more, hmore, hlies'⟩ := hbc.tops
  refine ⟨hab.reaches.trans hbc.reaches, new ++ more, ?_, ?_⟩
  · rw [hmore, hnew, List.append_assoc]
  · refine List.rel_append (hlies.imp fun part t hl => ⟨hl.form, ?_⟩) hlies'
    exact hbc.reaches.mem_placed (hab.reaches.outlined h) hl.placed

/-- Steps that declare nothing. -/
theorem declares_of_tops_eq (hr : Reaches a b) (ht : b.tops = a.tops) : Declares a b [] :=
  ⟨hr, [], by rw [ht, List.append_nil], .nil⟩

theorem declares_rescoped (hc : Rescoped a b) : Declares a b [] :=
  declares_of_tops_eq (Reaches.start.rescoped hc) (by rw [tops, hc.parts, tops])

/-- A part in no other type. -/
theorem declares_addPart (h : Outlined o) (chain : ScopeChain) (d : TypeDeclaration) :
    Declares o (o.addPart chain [] d) [⟨o.pathOf chain, d⟩] := by
  refine ⟨Reaches.start.part chain (Or.inl rfl) d,
    [⟨(o.declarePart chain [] d).2, d, chain, []⟩], tops_addPart, ?_⟩
  exact .cons ⟨rfl, (placed_addPart h).2⟩ .nil

mutual

/-- What is nested in a type lies in that type. -/
theorem tops_declareType_inside (chain : ScopeChain) : ∀ (d : TypeDeclaration) (o : Outline)
    (outer : TypeId) (rest : List TypeId),
    (o.declareType chain (outer :: rest) d).tops = o.tops
  | ⟨name, kind, isRecord, modifiers, typeParameters, constraints, returns, hasParameterList,
      parameters, enumMembers, members, nested⟩, o, outer, rest => by
    rw [declareType_eq, tops_declareTypes_inside chain nested, tops_addPart]
    exact List.append_nil _

theorem tops_declareTypes_inside (chain : ScopeChain) : ∀ (ds : List TypeDeclaration)
    (o : Outline) (outer : TypeId) (rest : List TypeId),
    (o.declareTypes chain (outer :: rest) ds).tops = o.tops
  | [], o, outer, rest => by rw [declareTypes]
  | d :: ds, o, outer, rest => by
    rw [declareTypes, tops_declareTypes_inside chain ds, tops_declareType_inside chain d]

end

theorem declares_declareType (h : Outlined o) (chain : ScopeChain) (d : TypeDeclaration) :
    Declares o (o.declareType chain [] d) [⟨o.pathOf chain, d⟩] := by
  rw [declareType_eq]
  have hpart := declares_addPart h chain d
  have hnested := reaches_declareTypes chain d.nested _ _ (around_addPart o chain [] d)
  exact hpart.trans h (declares_of_tops_eq hnested (tops_declareTypes_inside chain d.nested _ _ _))

/-! ### The names of scopes -/

/-- The scopes of a chain are there. -/
def InRange (o : Outline) (chain : ScopeChain) : Prop :=
  ∀ id ∈ chain, id.index < o.scopes.size

/-- Scopes stay, and so do the namespaces that they lie in. -/
theorem Reaches.scopes (hr : Reaches a b) : a.scopes.size ≤ b.scopes.size ∧
    ∀ id : ScopeId, id.index < a.scopes.size → (b.scope id).spaceName = (a.scope id).spaceName := by
  induction hr with
  | start => exact ⟨Nat.le_refl _, fun _ _ => rfl⟩
  | rescoped _ hc ih =>
    refine ⟨Nat.le_trans ih.1 hc.size_le, fun id hid => ?_⟩
    rw [hc.spaceName id (Nat.lt_of_lt_of_le hid ih.1), ih.2 id hid]
  | opened _ name ih => exact ih
  | @part b _ chain enclosing _ d ih =>
    have hscopes : (b.addPart chain enclosing d).scopes = b.scopes := by
      have hdeclares := declarePart_declares b chain enclosing d
      rw [addPart]
      generalize b.declarePart chain enclosing d = r at hdeclares ⊢
      cases hdeclares <;> rfl
    refine ⟨hscopes ▸ ih.1, fun id hid => ?_⟩
    rw [scope, hscopes]
    exact ih.2 id hid

theorem InRange.reaches (hr : Reaches a b) (h : a.InRange chain) : b.InRange chain :=
  fun id hid => Nat.lt_of_lt_of_le (h id hid) hr.scopes.1

theorem spaceName_reaches (hr : Reaches a b) (h : a.InRange chain) :
    b.spaceName chain = a.spaceName chain := by
  cases chain with
  | nil => rfl
  | cons id outer => exact hr.scopes.2 id (h id List.mem_cons_self)

theorem inRange_pushScope (h : o.InRange chain) (name : String) :
    (o.pushScope chain name).1.InRange (o.pushScope chain name).2 := by
  intro id hid
  have hsize : (o.pushScope chain name).1.scopes.size = o.scopes.size + 1 := by
    rw [pushScope, Array.size_push]
  rcases List.mem_cons.mp hid with rfl | hid
  · rw [hsize]
    exact Nat.lt_succ_self _
  · rw [hsize]
    exact Nat.lt_succ_of_lt (h id hid)

theorem spaceName_pushScope (name : String) :
    (o.pushScope chain name).1.spaceName (o.pushScope chain name).2 = name := by
  simp only [pushScope, spaceName, scope, Array.getElem?_push_size, Option.getD_some]

/-- The innermost scope of a namespace lies in the namespace of its name. -/
theorem spaceName_enterSegments (o : Outline) (chain : ScopeChain) (segments : List String) :
    (o.enterSegments chain segments).1.spaceName (o.enterSegments chain segments).2
      = spaceBelow (o.spaceName chain) segments := by
  induction segments generalizing o chain with
  | nil => rfl
  | cons segment rest ih =>
    rw [enterSegments, spaceBelow]
    generalize (if o.spaceName chain = "" then segment else o.spaceName chain ++ "." ++ segment)
      = name
    have hnext := ih (o.pushScope chain name).1 (o.pushScope chain name).2
    rw [spaceName_pushScope] at hnext
    exact hnext

/-- The scopes of a namespace are there, and they lie in the namespace of its name. -/
theorem enterSegments_spec (segments : List String) (h : o.InRange chain) :
    (o.enterSegments chain segments).1.InRange (o.enterSegments chain segments).2 ∧
      (o.enterSegments chain segments).1.spaceName (o.enterSegments chain segments).2
        = spaceBelow (o.spaceName chain) segments := by
  refine ⟨?_, spaceName_enterSegments o chain segments⟩
  induction segments generalizing o chain with
  | nil => exact h
  | cons segment rest ih => exact ih (inRange_pushScope h _)

theorem tops_enterSegments (o : Outline) (chain : ScopeChain) (segments : List String) :
    (o.enterSegments chain segments).1.tops = o.tops := by
  induction segments generalizing o chain with
  | nil => rfl
  | cons segment rest ih =>
    exact ih _ _

/-- Entering a namespace declares no part. -/
theorem enter_spec (h : o.InRange chain) (name : String) :
    Declares o (o.enter chain name).1 [] ∧ (o.enter chain name).1.InRange (o.enter chain name).2 ∧
      (o.enter chain name).1.spaceName (o.enter chain name).2
        = spaceInside (o.spaceName chain) name := by
  have hreach := reaches_enter (o := o) chain name
  have htops := tops_enterSegments o chain (Text.segments '.' name)
  obtain ⟨hrange, hspace⟩ := enterSegments_spec (Text.segments '.' name) h
  rw [enter] at hreach ⊢
  generalize o.enterSegments chain (Text.segments '.' name) = entered at *
  obtain ⟨inner, innerChain⟩ := entered
  exact ⟨declares_of_tops_eq hreach htops, hrange, hspace⟩

theorem declares_addUsing (chain : ScopeChain) (form : UsingForm) :
    Declares o (o.addUsing chain form) [] := by
  refine declares_of_tops_eq (reaches_addUsing chain form) ?_
  cases form with
  | space isGlobal name => cases isGlobal <;> cases chain <;> rfl
  | named isGlobal name target written => cases isGlobal <;> cases chain <;> rfl

/-! ### The walk over items -/

/-- Behind an item, a chain of scopes lies where the item says. -/
theorem declareItem_after (item : Item) (h : o.InRange chain) :
    (o.declareItem chain item).1.InRange (o.declareItem chain item).2 ∧
      (o.declareItem chain item).1.spaceName (o.declareItem chain item).2
        = spaceAfter (o.spaceName chain) item := by
  have hreach := reaches_declareItem item o chain
  cases item with
  | fileScoped name items =>
    obtain ⟨-, hinner, hspace⟩ := enter_spec h name
    rw [declareItem, spaceAfter, ← hspace]
    clear hreach
    generalize o.enter chain name = entered at *
    obtain ⟨o', inner⟩ := entered
    have hitems := reaches_declareItems items o' inner
    exact ⟨hinner.reaches hitems, spaceName_reaches hitems hinner⟩
  | «using» form =>
    rw [declareItem] at hreach ⊢
    exact ⟨h.reaches hreach, spaceName_reaches hreach h⟩
  | block name items =>
    rw [declareItem] at hreach ⊢
    generalize o.enter chain name = entered at *
    obtain ⟨o', inner⟩ := entered
    exact ⟨h.reaches hreach, spaceName_reaches hreach h⟩
  | group items =>
    rw [declareItem] at hreach ⊢
    exact ⟨h.reaches hreach, spaceName_reaches hreach h⟩
  | type d =>
    rw [declareItem] at hreach ⊢
    exact ⟨h.reaches hreach, spaceName_reaches hreach h⟩

end

mutual

/-- **An item declares the parts that it asks for.** -/
theorem declares_declareItem : ∀ (item : Item) (o : Outline) (chain : ScopeChain), Outlined o →
    o.InRange chain →
    Declares o (o.declareItem chain item).1 (topsOfItem (o.spaceName chain) item)
  | .using form, o, chain, h, hc => by
    rw [declareItem, topsOfItem]
    exact declares_addUsing chain form
  | .block name items, o, chain, h, hc => by
    obtain ⟨hentered, hinner, hspace⟩ := enter_spec hc name
    rw [declareItem, topsOfItem, ← hspace]
    generalize o.enter chain name = entered at *
    obtain ⟨o', inner⟩ := entered
    exact hentered.trans h
      (declares_declareItems items o' inner (hentered.reaches.outlined h) hinner)
  | .fileScoped name items, o, chain, h, hc => by
    obtain ⟨hentered, hinner, hspace⟩ := enter_spec hc name
    rw [declareItem, topsOfItem, ← hspace]
    generalize o.enter chain name = entered at *
    obtain ⟨o', inner⟩ := entered
    exact hentered.trans h
      (declares_declareItems items o' inner (hentered.reaches.outlined h) hinner)
  | .group items, o, chain, h, hc => by
    rw [declareItem, topsOfItem]
    exact declares_declareItems items o chain h hc
  | .type d, o, chain, h, hc => by
    rw [declareItem, topsOfItem]
    exact declares_declareType h chain d

theorem declares_declareItems : ∀ (items : List Item) (o : Outline) (chain : ScopeChain),
    Outlined o → o.InRange chain →
    Declares o (o.declareItems chain items) (topsOfItems (o.spaceName chain) items)
  | [], o, chain, _, _ => by
    rw [declareItems, topsOfItems]
    exact .refl o
  | item :: rest, o, chain, h, hc => by
    have hitem := declares_declareItem item o chain h hc
    obtain ⟨hafter, hspace⟩ := declareItem_after item hc
    rw [declareItems, topsOfItems, ← hspace]
    exact hitem.trans h
      (declares_declareItems rest _ _ (hitem.reaches.outlined h) hafter)

end

theorem declares_addFile {o : Outline} (h : Outlined o) (items : List Item) :
    Declares o (o.addFile items) (topsOfItems "" items) := by
  have hpush := rescoped_pushScope (o := o) [] ""
  have hpushed := declares_rescoped hpush
  have hitems := declares_declareItems items (o.pushScope [] "").1 (o.pushScope [] "").2
    (hpushed.reaches.outlined h) (inRange_pushScope (fun id hid => by cases hid) "")
  rw [spaceName_pushScope] at hitems
  exact hpushed.trans h hitems

end Outline

/-! ### Compilations -/

/-- **Adding files declares exactly the parts that they hold, in order.** -/
theorem Compilation.declares_addFiles {files : List (Text.Bytes × Source.Node)}
    {c c' : Compilation} (ho : c.outline.Outlined) (h : c.addFiles files = .ok c') :
    Outline.Declares c.outline c'.outline (files.flatMap Source.topsOfFile) := by
  induction files generalizing c with
  | nil =>
    cases h
    exact .refl _
  | cons file rest ih =>
    obtain ⟨source, root⟩ := file
    simp only [addFiles, addFile] at h
    by_cases hb : c.isBound = true
    · simp only [hb, ↓reduceIte] at h
      cases h
    · rw [Bool.not_eq_true] at hb
      simp only [hb, Bool.false_eq_true, ↓reduceIte] at h
      have hfile := Outline.declares_addFile ho (Source.readItems source root)
      have hrest := fun ho' => ih ho' h
      exact hfile.trans ho (hrest (hfile.reaches.outlined ho))

end ExtensionCensus.Binding
