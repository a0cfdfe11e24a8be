import ExtensionCensus.Source.Declaration
import ExtensionCensus.Symbol.Library

/-!
# The outline of a compilation

The first pass over the sources. It enters namespaces and types, parts of one type under one
definition, and attaches every using directive to the scope that it was written in. Nothing is
resolved yet, so the order of files matters only for the order of symbols.

* `Scope`, `ScopeChain` — the using directives of one namespace level of one file, and the levels
  around a place, from the inside out.
* `Outline` — what was declared so far.
* `Outline.addFile` — declares what a file holds.
-/

namespace ExtensionCensus.Binding

open Source (TypeForm TypeDeclaration UsingForm Item Modifiers)

/-! ### Scopes -/

/-- The place of a scope in its outline. -/
structure ScopeId where
  index : Nat
  deriving DecidableEq, Repr, Inhabited

/-- The scopes around a place in a file, from the innermost one; the last is the whole file. -/
abbrev ScopeChain := List ScopeId

/-- What a name given by a using directive stands for: a written type and its spelling, to be
read where the directive stands. -/
structure Alias where
  target : TypeForm
  written : String
  scopes : ScopeChain

/-- The using directives of one namespace level of one file. Of two that give the same name the
one in front counts. -/
structure Scope where
  spaceName : String
  usings : List String := []
  aliases : List (String × Alias) := []
  deriving Inhabited

/-! ### Outlines -/

/-- A written type of a kind that is not known. -/
structure UnreadType where
  kind : String
  text : String
  deriving DecidableEq, Repr

/-- One part of a type: the definition it belongs to, what it says, the scopes around it and the
definitions around it, from the inside out. -/
structure DeclaredPart where
  type : TypeId
  form : TypeDeclaration
  scopes : ScopeChain
  enclosing : List TypeId

/-- What the files of a compilation declare, and the types of unknown kinds that were met in binding
it. -/
structure Outline where
  table : SymbolTable := Library.table
  root : Namespace := .empty
  implicitUsings : Bool := false
  scopes : Array Scope := #[]
  globalUsings : List String := []
  globalAliases : List (String × Alias) := []
  parts : List DeclaredPart := []
  unread : List UnreadType := []

namespace Outline

/-- The scope at a place. -/
def scope (o : Outline) (id : ScopeId) : Scope :=
  o.scopes[id.index]?.getD default

/-- The outline with a scope changed. -/
def updateScope (o : Outline) (id : ScopeId) (f : Scope → Scope) : Outline :=
  { o with scopes := o.scopes.modify id.index f }

/-- The outline with one more scope inside a chain, and the chain from it. -/
def pushScope (o : Outline) (chain : ScopeChain) (spaceName : String) : Outline × ScopeChain :=
  ({ o with scopes := o.scopes.push { spaceName } }, ⟨o.scopes.size⟩ :: chain)

/-- The dotted name of the namespace that a chain of scopes lies in. -/
def spaceName (o : Outline) : ScopeChain → String
  | [] => ""
  | id :: _ => (o.scope id).spaceName

/-- Opens one scope for each segment of a namespace's name. -/
def enterSegments (o : Outline) (chain : ScopeChain) : List String → Outline × ScopeChain
  | [] => (o, chain)
  | segment :: rest =>
    let outer := o.spaceName chain
    let (o, chain) := o.pushScope chain (if outer = "" then segment else outer ++ "." ++ segment)
    o.enterSegments chain rest

/-- Opens the scopes of a namespace and makes sure that the namespace exists. -/
def enter (o : Outline) (chain : ScopeChain) (name : String) : Outline × ScopeChain :=
  let (o, chain) := o.enterSegments chain (Text.segments '.' name)
  ({ o with root := (o.root.openAt [] (o.spaceName chain)).1 }, chain)

/-- Attaches a using directive to the innermost scope, or to every file if it is global. -/
def addUsing (o : Outline) (chain : ScopeChain) : UsingForm → Outline
  | .space true name => { o with globalUsings := o.globalUsings ++ [name] }
  | .named true name target written =>
    { o with globalAliases := (name, ⟨target, written, chain⟩) :: o.globalAliases }
  | .space false name =>
    match chain with
    | id :: _ => o.updateScope id fun s => { s with usings := s.usings ++ [name] }
    | [] => o
  | .named false name target written =>
    match chain with
    | id :: _ =>
      o.updateScope id fun s => { s with aliases := (name, ⟨target, written, chain⟩) :: s.aliases }
    | [] => o

/-! ### Types -/

/-- The accessibility of a member that states none. -/
def memberAccess (kind : DefinitionKind) : Accessibility :=
  match kind with
  | .interfaceType | .enumType => .publicAccess
  | _ => .privateAccess

/-- The traits that the first part of a type gives it. -/
def firstTraits (m : Modifiers) (defaultAccess : Accessibility) : Traits :=
  { access := m.access.getD defaultAccess, isStatic := m.isStatic, isAbstract := m.isAbstract }

/-- The traits of a type after one more part: a stated accessibility replaces the one before, and
a modifier on any part counts for all. -/
def Traits.addPart (m : Modifiers) (t : Traits) : Traits :=
  { t with
    access := m.access.getD t.access
    isStatic := t.isStatic || m.isStatic
    isAbstract := t.isAbstract || m.isAbstract }

/-- The definition that the first part of a type makes. -/
def firstDefinition (table : SymbolTable) (d : TypeDeclaration) (container : Container)
    (defaultAccess : Accessibility) : TypeDefinition :=
  { name := d.name
    container
    kind := d.kind
    traits := firstTraits d.modifiers defaultAccess
    metadataName := table.metadataNameIn container d.name
    typeParameters := TypeParameter.listed (.ofType table.nextType)
      (d.typeParameters.map fun p => { name := p.name, variance := p.variance }) }

/-- Declares one part of a type inside another type, or in a namespace if `enclosing` is empty,
and says which definition it belongs to. -/
def declarePart (o : Outline) (chain : ScopeChain) (enclosing : List TypeId)
    (d : TypeDeclaration) : Outline × TypeId :=
  let key : TypeKey := ⟨d.name, d.typeParameters.length⟩
  let fresh := o.table.nextType
  match enclosing with
  | outer :: _ =>
    match o.table.nestedType? outer key with
    | some id =>
      ({ o with
         table := o.table.updateDefinition id fun t =>
           { t with traits := Traits.addPart d.modifiers t.traits } }, id)
    | none =>
      let definition := firstDefinition o.table d (.type (o.table.definitionType outer))
        (memberAccess (o.table.definition outer).kind)
      ({ o with table := (o.table.addDefinition definition).addMember outer (.type fresh) }, fresh)
  | [] =>
    let (root, path) := o.root.openAt [] (o.spaceName chain)
    match (root.find? path).bind (·.type? key) with
    | some id =>
      ({ o with
         root
         table := o.table.updateDefinition id fun t =>
           { t with traits := Traits.addPart d.modifiers t.traits } }, id)
    | none =>
      let definition := firstDefinition o.table d (.namespace path) .internalAccess
      ({ o with
         root := root.update (·.addType key fresh) path
         table := o.table.addDefinition definition }, fresh)

mutual

/-- Declares a part of a type and the types nested in it. -/
def declareType (o : Outline) (chain : ScopeChain) (enclosing : List TypeId) :
    TypeDeclaration → Outline
  | ⟨name, kind, isRecord, modifiers, typeParameters, constraints, returns, hasParameterList,
      parameters, enumMembers, members, nested⟩ =>
    let d : TypeDeclaration := ⟨name, kind, isRecord, modifiers, typeParameters, constraints,
      returns, hasParameterList, parameters, enumMembers, members, nested⟩
    let (o, id) := o.declarePart chain enclosing d
    let o := { o with parts := o.parts ++ [⟨id, d, chain, enclosing⟩] }
    declareTypes o chain (id :: enclosing) nested

/-- Declares types in order. -/
def declareTypes (o : Outline) (chain : ScopeChain) (enclosing : List TypeId) :
    List TypeDeclaration → Outline
  | [] => o
  | d :: rest => declareTypes (declareType o chain enclosing d) chain enclosing rest

end

/-! ### Files -/

mutual

/-- Declares an item, and says which scopes lie around the items behind it. -/
def declareItem (o : Outline) (chain : ScopeChain) : Item → Outline × ScopeChain
  | .using form => (o.addUsing chain form, chain)
  | .block name items =>
    let (o, inner) := o.enter chain name
    (declareItems o inner items, chain)
  | .fileScoped name items =>
    let (o, inner) := o.enter chain name
    (declareItems o inner items, inner)
  | .group items => (declareItems o chain items, chain)
  | .type d => (o.declareType chain [] d, chain)

/-- Declares items in order. -/
def declareItems (o : Outline) (chain : ScopeChain) : List Item → Outline
  | [] => o
  | item :: rest =>
    match declareItem o chain item with
    | (o, chain) => declareItems o chain rest

end

/-- Declares what a file holds, in a scope of its own. -/
def addFile (o : Outline) (items : List Item) : Outline :=
  let (o, chain) := o.pushScope [] ""
  o.declareItems chain items

end Outline

end ExtensionCensus.Binding
