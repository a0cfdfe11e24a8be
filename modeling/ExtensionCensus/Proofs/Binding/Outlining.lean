import ExtensionCensus.Binding.Assembly

/-!
# The steps of the first pass

The first pass goes through files, namespaces and nested types.  What it does to the outline on the
way is always one of three things: it changes scopes, it opens a namespace, or it declares a part of
a type around which nothing lies or a part that was declared before.

* `DeclaresPart` — the four things that declaring a part comes to;
* `Outline.addPart` — declares a part and takes it down;
* `Outline.Reaches` — an outline is reached from another by such steps;
* `reaches_declareType`, `reaches_declareItems`, `reaches_addFile`, `reaches_addFiles` — the walk
  over the sources takes only such steps.

An invariant of the first pass is a property that each of the three steps keeps.
-/

namespace ExtensionCensus.Binding

open Source (TypeDeclaration UsingForm Item)

namespace Outline

/-! ### Declaring a part -/

/-- What tells a declared type apart inside its container. -/
def keyOf (d : TypeDeclaration) : TypeKey :=
  ⟨d.name, d.typeParameters.length⟩

/-- The table with one more part of a type that is there. -/
def mergePart (table : SymbolTable) (id : TypeId) (d : TypeDeclaration) : SymbolTable :=
  table.updateDefinition id fun t => { t with traits := Traits.addPart d.modifiers t.traits }

/-- The definition of a type inside another one. -/
def innerDefinition (table : SymbolTable) (outer : TypeId) (d : TypeDeclaration) :
    TypeDefinition :=
  firstDefinition table d (.type (table.definitionType outer))
    (memberAccess (table.definition outer).kind)

/-- The path of the namespace that a chain of scopes lies in. -/
def pathOf (o : Outline) (chain : ScopeChain) : NamespacePath :=
  Namespace.trimmedParts (o.spaceName chain)

/-- The namespaces with the one around a chain of scopes opened. -/
def openedRoot (o : Outline) (chain : ScopeChain) : Namespace :=
  (o.root.openAt [] (o.spaceName chain)).1

/-- What declaring a part comes to: a part of a type that is there, or the first part of a new one,
inside another type or in a namespace. -/
inductive DeclaresPart (o : Outline) (chain : ScopeChain) (d : TypeDeclaration) :
    List TypeId → Outline × TypeId → Prop where
  | againInside {outer : TypeId} {rest : List TypeId} {id : TypeId}
      (hid : o.table.nestedType? outer (keyOf d) = some id) :
      DeclaresPart o chain d (outer :: rest) ({ o with table := mergePart o.table id d }, id)
  | firstInside {outer : TypeId} {rest : List TypeId}
      (hnone : o.table.nestedType? outer (keyOf d) = none) :
      DeclaresPart o chain d (outer :: rest)
        ({ o with
           table := (o.table.addDefinition (innerDefinition o.table outer d)).addMember outer
             (.type o.table.nextType) }, o.table.nextType)
  | againInSpace {id : TypeId}
      (hid : ((o.openedRoot chain).find? (o.pathOf chain)).bind (·.type? (keyOf d)) = some id) :
      DeclaresPart o chain d []
        ({ o with root := o.openedRoot chain, table := mergePart o.table id d }, id)
  | firstInSpace
      (hnone : ((o.openedRoot chain).find? (o.pathOf chain)).bind (·.type? (keyOf d)) = none) :
      DeclaresPart o chain d []
        ({ o with
           root := (o.openedRoot chain).update (·.addType (keyOf d) o.table.nextType)
             (o.pathOf chain)
           table := o.table.addDefinition
             (firstDefinition o.table d (.namespace (o.pathOf chain)) .internalAccess) },
         o.table.nextType)

theorem declarePart_declares (o : Outline) (chain : ScopeChain) (enclosing : List TypeId)
    (d : TypeDeclaration) : DeclaresPart o chain d enclosing (o.declarePart chain enclosing d) := by
  cases enclosing with
  | cons outer rest =>
    simp only [declarePart]
    cases hid : o.table.nestedType? outer ⟨d.name, d.typeParameters.length⟩ with
    | some id => exact .againInside hid
    | none => exact .firstInside hid
  | nil =>
    have hpath : (o.root.openAt [] (o.spaceName chain)).2 = o.pathOf chain := rfl
    simp only [declarePart, hpath]
    cases hid : ((o.root.openAt [] (o.spaceName chain)).1.find? (o.pathOf chain)).bind
        (·.type? ⟨d.name, d.typeParameters.length⟩) with
    | some id => exact .againInSpace hid
    | none => exact .firstInSpace hid

/-- The outline with a part of a type declared and taken down. -/
def addPart (o : Outline) (chain : ScopeChain) (enclosing : List TypeId)
    (d : TypeDeclaration) : Outline :=
  let declared := o.declarePart chain enclosing d
  { declared.1 with parts := declared.1.parts ++ [⟨declared.2, d, chain, enclosing⟩] }

/-! ### Steps -/

/-- The outlines differ in scopes and using directives only, and every old scope keeps the name of
its namespace. -/
structure Rescoped (a b : Outline) : Prop where
  table : b.table = a.table
  root : b.root = a.root
  parts : b.parts = a.parts
  size_le : a.scopes.size ≤ b.scopes.size
  spaceName : ∀ id : ScopeId, id.index < a.scopes.size →
    (b.scope id).spaceName = (a.scope id).spaceName

/-- Nothing lies around a place, or a declared part and what lies around that. -/
def Around (o : Outline) (enclosing : List TypeId) : Prop :=
  enclosing = [] ∨ ∃ part ∈ o.parts, enclosing = part.type :: part.enclosing

/-- The outline `b` is reached from `a` by steps of the first pass. -/
inductive Reaches (a : Outline) : Outline → Prop where
  | start : Reaches a a
  | rescoped {b c : Outline} (h : Reaches a b) (hc : Rescoped b c) : Reaches a c
  | opened {b : Outline} (h : Reaches a b) (name : String) :
      Reaches a { b with root := (b.root.openAt [] name).1 }
  | part {b : Outline} (h : Reaches a b) (chain : ScopeChain) {enclosing : List TypeId}
      (henclosing : b.Around enclosing) (d : TypeDeclaration) :
      Reaches a (b.addPart chain enclosing d)

section

variable {a b c : Outline}

theorem Reaches.trans (h : Reaches a b) (h' : Reaches b c) : Reaches a c := by
  induction h' with
  | start => exact h
  | rescoped _ hc ih => exact ih.rescoped hc
  | opened _ name ih => exact ih.opened name
  | part _ chain henclosing d ih => exact ih.part chain henclosing d

theorem declarePart_parts (o : Outline) (chain : ScopeChain) (enclosing : List TypeId)
    (d : TypeDeclaration) : (o.declarePart chain enclosing d).1.parts = o.parts := by
  have h := declarePart_declares o chain enclosing d
  generalize o.declarePart chain enclosing d = r at h ⊢
  cases h <;> rfl

theorem addPart_parts (o : Outline) (chain : ScopeChain) (enclosing : List TypeId)
    (d : TypeDeclaration) : (o.addPart chain enclosing d).parts
      = o.parts ++ [⟨(o.declarePart chain enclosing d).2, d, chain, enclosing⟩] := by
  rw [addPart, declarePart_parts]

/-- What is nested in a part lies in it and in what lies around it. -/
theorem around_addPart (o : Outline) (chain : ScopeChain) (enclosing : List TypeId)
    (d : TypeDeclaration) : (o.addPart chain enclosing d).Around
      ((o.declarePart chain enclosing d).2 :: enclosing) := by
  refine Or.inr ⟨⟨(o.declarePart chain enclosing d).2, d, chain, enclosing⟩, ?_, rfl⟩
  rw [addPart_parts]
  exact List.mem_append_right _ List.mem_cons_self

/-- No part is ever taken back. -/
theorem Reaches.mem_parts (h : Reaches a b) {part : DeclaredPart} (hp : part ∈ a.parts) :
    part ∈ b.parts := by
  induction h with
  | start => exact hp
  | rescoped _ hc ih =>
    rw [hc.parts]
    exact ih
  | opened _ _ ih => exact ih
  | part _ chain _ d ih =>
    rw [addPart_parts]
    exact List.mem_append_left _ ih

theorem Reaches.around (h : Reaches a b) {enclosing : List TypeId} (ha : a.Around enclosing) :
    b.Around enclosing := by
  rcases ha with ha | ⟨part, hp, ha⟩
  · exact Or.inl ha
  · exact Or.inr ⟨part, h.mem_parts hp, ha⟩

end

/-! ### The walk over nested types -/

/-- A type is declared part by part: first itself, then what is nested in it. -/
theorem declareType_eq (o : Outline) (chain : ScopeChain) (enclosing : List TypeId)
    (d : TypeDeclaration) :
    o.declareType chain enclosing d
      = (o.addPart chain enclosing d).declareTypes chain
        ((o.declarePart chain enclosing d).2 :: enclosing) d.nested := by
  cases d
  rw [declareType]
  rfl

mutual

theorem reaches_declareType (chain : ScopeChain) : ∀ (d : TypeDeclaration) (o : Outline)
    (enclosing : List TypeId), o.Around enclosing → Reaches o (o.declareType chain enclosing d)
  | ⟨name, kind, isRecord, modifiers, typeParameters, constraints, returns, hasParameterList,
      parameters, enumMembers, members, nested⟩, o, enclosing, henclosing => by
    rw [declareType_eq]
    exact (Reaches.start.part chain henclosing _).trans
      (reaches_declareTypes chain nested _ _ (around_addPart _ _ _ _))

theorem reaches_declareTypes (chain : ScopeChain) : ∀ (ds : List TypeDeclaration) (o : Outline)
    (enclosing : List TypeId), o.Around enclosing → Reaches o (o.declareTypes chain enclosing ds)
  | [], o, enclosing, _ => by
    rw [declareTypes]
    exact .start
  | d :: rest, o, enclosing, henclosing => by
    rw [declareTypes]
    have hd := reaches_declareType chain d o enclosing henclosing
    exact hd.trans (reaches_declareTypes chain rest _ enclosing (hd.around henclosing))

end

/-! ### The walk over namespaces -/

section

variable {o : Outline}

theorem scope_pushScope_of_lt {chain : ScopeChain} {name : String} {id : ScopeId}
    (h : id.index < o.scopes.size) : (o.pushScope chain name).1.scope id = o.scope id := by
  simp only [pushScope, scope]
  rw [Array.getElem?_push_lt h, Array.getElem?_eq_getElem h]

theorem rescoped_pushScope (chain : ScopeChain) (name : String) :
    Rescoped o (o.pushScope chain name).1 := by
  refine ⟨rfl, rfl, rfl, ?_, fun id hid => ?_⟩
  · simp only [pushScope, Array.size_push]
    omega
  · rw [scope_pushScope_of_lt hid]

theorem rescoped_updateScope (id : ScopeId) {f : Scope → Scope}
    (hf : ∀ s, (f s).spaceName = s.spaceName) : Rescoped o (o.updateScope id f) := by
  refine ⟨rfl, rfl, rfl, ?_, fun other hother => ?_⟩
  · simp only [updateScope, Array.size_modify]
    exact Nat.le_refl _
  · simp only [updateScope, scope, Array.getElem?_modify]
    rw [Array.getElem?_eq_getElem hother]
    split
    · exact hf _
    · rfl

theorem reaches_enterSegments (segments : List String) (chain : ScopeChain) :
    Reaches o (o.enterSegments chain segments).1 := by
  induction segments generalizing o chain with
  | nil => exact .start
  | cons segment rest ih =>
    rw [enterSegments]
    exact (Reaches.start.rescoped (rescoped_pushScope chain _)).trans (ih _)

theorem reaches_enter (chain : ScopeChain) (name : String) : Reaches o (o.enter chain name).1 :=
  (reaches_enterSegments _ chain).opened _

theorem reaches_addUsing (chain : ScopeChain) (form : UsingForm) :
    Reaches o (o.addUsing chain form) := by
  have hsame : ∀ usings aliases,
      Reaches o { o with globalUsings := usings, globalAliases := aliases } := fun _ _ =>
    Reaches.start.rescoped ⟨rfl, rfl, rfl, Nat.le_refl _, fun _ _ => rfl⟩
  cases form with
  | space isGlobal name =>
    cases isGlobal with
    | true => exact hsame _ _
    | false =>
      cases chain with
      | nil => exact .start
      | cons id outer => exact Reaches.start.rescoped (rescoped_updateScope id fun _ => rfl)
  | named isGlobal name target written =>
    cases isGlobal with
    | true => exact hsame _ _
    | false =>
      cases chain with
      | nil => exact .start
      | cons id outer => exact Reaches.start.rescoped (rescoped_updateScope id fun _ => rfl)

end

mutual

theorem reaches_declareItem : ∀ (item : Item) (o : Outline) (chain : ScopeChain),
    Reaches o (o.declareItem chain item).1
  | .using form, o, chain => by
    rw [declareItem]
    exact reaches_addUsing chain form
  | .block name items, o, chain => by
    rw [declareItem]
    exact (reaches_enter chain name).trans (reaches_declareItems items _ _)
  | .fileScoped name items, o, chain => by
    rw [declareItem]
    exact (reaches_enter chain name).trans (reaches_declareItems items _ _)
  | .group items, o, chain => by
    rw [declareItem]
    exact reaches_declareItems items o chain
  | .type d, o, chain => by
    rw [declareItem]
    exact reaches_declareType chain d o [] (Or.inl rfl)

theorem reaches_declareItems : ∀ (items : List Item) (o : Outline) (chain : ScopeChain),
    Reaches o (o.declareItems chain items)
  | [], o, chain => by
    rw [declareItems]
    exact .start
  | item :: rest, o, chain => by
    rw [declareItems]
    exact (reaches_declareItem item o chain).trans (reaches_declareItems rest _ _)

end

theorem reaches_addFile (o : Outline) (items : List Item) : Reaches o (o.addFile items) :=
  (Reaches.start.rescoped (rescoped_pushScope [] "")).trans (reaches_declareItems items _ _)

end Outline

/-! ### The walk over files -/

/-- Adding files takes only steps of the first pass, and leaves a compilation unfinished. -/
theorem Compilation.reaches_addFiles {files : List (Text.Bytes × Source.Node)}
    {c c' : Compilation} (h : c.addFiles files = .ok c') :
    Outline.Reaches c.outline c'.outline ∧ c'.isBound = c.isBound := by
  induction files generalizing c with
  | nil =>
    cases h
    exact ⟨.start, rfl⟩
  | cons file rest ih =>
    obtain ⟨source, root⟩ := file
    simp only [addFiles, addFile] at h
    by_cases hb : c.isBound = true
    · simp only [hb, ↓reduceIte] at h
      cases h
    · rw [Bool.not_eq_true] at hb
      simp only [hb, Bool.false_eq_true, ↓reduceIte] at h
      obtain ⟨hreach, hbound⟩ := ih h
      exact ⟨(Outline.reaches_addFile _ _).trans hreach, hbound.trans hb.symm⟩

end ExtensionCensus.Binding
