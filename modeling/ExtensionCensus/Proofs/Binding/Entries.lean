import ExtensionCensus.Proofs.Binding.Described
import ExtensionCensus.Proofs.Binding.Gathering

/-!
# What files enter

The walk over a file opens scopes of its own behind those that are there.  But for where scopes and
types are, a file enters the same whatever stands in front of it.

* `ScopeId.behind`, `Alias.behind`, `Scope.behind` — scopes of a file with others in front of them;
* `Outline.Abreast` — a file on its way behind others, and on its own;
* `abreast_declareType`, `abreast_declareItems`, `abreast_addFile` — **the walk over a file keeps
  both abreast**;
* `Outline.entries`, `Outline.globalEntries` — what was entered, without where scopes and types are;
* `entries_ofFiles` — **some files enter what each of them enters on its own**.
-/

namespace ExtensionCensus.Binding

open Source (Node TypeForm TypeDeclaration UsingForm Item readItems)

/-! ### Scopes behind others -/

/-- A scope with `n` scopes in front of those of its file. -/
def ScopeId.behind (n : Nat) (id : ScopeId) : ScopeId :=
  ⟨id.index + n⟩

/-- A name of a using directive with `n` scopes in front of those of its file. -/
def Alias.behind (n : Nat) (x : Alias) : Alias :=
  { x with scopes := x.scopes.map (ScopeId.behind n) }

/-- The contents of a scope with `n` scopes in front of those of its file. -/
def Scope.behind (n : Nat) (s : Scope) : Scope :=
  { s with aliases := s.aliases.map fun e => (e.1, e.2.behind n) }

namespace Outline

/-- An outline of the first pass in which types nest in types that were declared before them. -/
structure Grounded (o : Outline) : Prop extends Outlined o where
  nests : o.table.Nests

/-- The address of the type around a place, if one is around it. -/
def outerAddress (o : Outline) (enclosing : List TypeId) : Option Address :=
  enclosing.head?.map o.table.address

/-- A part of a file, in `b` with `n` scopes in front of those of the file and in `c` with none. -/
structure SamePart (n : Nat) (b c : Outline) (p q : DeclaredPart) : Prop where
  form : p.form = q.form
  scopes : p.scopes = q.scopes.map (ScopeId.behind n)
  left_lt : p.type.index < b.table.definitions.size
  right_lt : q.type.index < c.table.definitions.size
  address : b.table.address p.type = c.table.address q.type

/-- The outlines `b` and `c` are at the same point of a file, `b` behind what `a` holds and `c` with
nothing in front. -/
structure Abreast (a b c : Outline) : Prop where
  left : Grounded b
  right : Grounded c
  size : b.scopes.size = c.scopes.size + a.scopes.size
  scope : ∀ id, b.scope (id.behind a.scopes.size) = (c.scope id).behind a.scopes.size
  implicitUsings : b.implicitUsings = a.implicitUsings
  globalUsings : b.globalUsings = a.globalUsings ++ c.globalUsings
  globalAliases : b.globalAliases
    = (c.globalAliases.map fun e => (e.1, e.2.behind a.scopes.size)) ++ a.globalAliases
  parts : ∃ new, b.parts = a.parts ++ new ∧
    List.Forall₂ (SamePart a.scopes.size b c) new c.parts

section

variable {a b c o o' : Outline} {chain chain' : ScopeChain} {enclosing enclosing' : List TypeId}

/-! ### Grounded outlines -/

theorem Grounded.reaches (h : Grounded o) (hr : Reaches o o') : Grounded o' :=
  ⟨hr.outlined h.toOutlined, hr.nests h.toOutlined h.nests⟩

theorem grounded_empty (implicitUsings : Bool) : Grounded { implicitUsings } :=
  ⟨outlined_empty implicitUsings, Library.nests⟩

theorem Grounded.address_part (h : Grounded o) (hk : SymbolTable.Keeps o.table o'.table)
    {part : DeclaredPart} (hp : part ∈ o.parts) :
    o'.table.address part.type = o.table.address part.type :=
  hk.address h.nests part.type (h.parts part hp).head_lt

/-- What lies around a place keeps its address. -/
theorem Grounded.outerAddress (h : Grounded o) (ha : o.Around enclosing) (hr : Reaches o o') :
    o'.outerAddress enclosing = o.outerAddress enclosing := by
  rcases ha with rfl | ⟨part, hp, rfl⟩
  · rfl
  · exact congrArg some (h.address_part hr.keeps hp)

theorem addressIn_eq {key : TypeKey} (hpath : o'.pathOf chain' = o.pathOf chain)
    (houter : o'.outerAddress enclosing' = o.outerAddress enclosing) :
    o'.addressIn chain' enclosing' key = o.addressIn chain enclosing key := by
  cases enclosing with
  | nil =>
    cases enclosing' with
    | nil => rw [addressIn, addressIn, hpath]
    | cons outer' rest' => cases houter
  | cons outer rest =>
    cases enclosing' with
    | nil => cases houter
    | cons outer' rest' => rw [addressIn, addressIn, Option.some.inj houter]

/-! ### Scopes -/

theorem scope_updateScope (o : Outline) (id other : ScopeId) (f : Scope → Scope) :
    (o.updateScope id f).scope other
      = if other.index = id.index ∧ id.index < o.scopes.size then f (o.scope id)
        else o.scope other :=
  getD_modify o.scopes id.index other.index f

theorem size_updateScope (o : Outline) (id : ScopeId) (f : Scope → Scope) :
    (o.updateScope id f).scopes.size = o.scopes.size :=
  Array.size_modify

theorem size_pushScope (o : Outline) (chain : ScopeChain) (name : String) :
    (o.pushScope chain name).1.scopes.size = o.scopes.size + 1 :=
  Array.size_push _

/-- Scopes in front change nothing about the scopes of a file. -/
theorem contentsOf_behind (n : Nat) (s : Scope) : contentsOf (s.behind n) = contentsOf s := by
  rw [contentsOf, contentsOf, Scope.behind, List.map_map]
  rfl

theorem Abreast.spaceName (h : Abreast a b c) (chain : ScopeChain) :
    b.spaceName (chain.map (ScopeId.behind a.scopes.size)) = c.spaceName chain := by
  cases chain with
  | nil => rfl
  | cons id outer =>
    have hspace := congrArg Scope.spaceName (h.scope id)
    exact hspace

theorem Abreast.pathOf (h : Abreast a b c) (chain : ScopeChain) :
    b.pathOf (chain.map (ScopeId.behind a.scopes.size)) = c.pathOf chain := by
  rw [Outline.pathOf, Outline.pathOf, h.spaceName]

theorem Abreast.viewOf (h : Abreast a b c) (chain : ScopeChain) :
    b.viewOf (chain.map (ScopeId.behind a.scopes.size)) = c.viewOf chain := by
  rw [Outline.viewOf, Outline.viewOf, List.map_map]
  refine List.map_congr_left fun id _ => ?_
  rw [Function.comp_apply, h.scope, contentsOf_behind]

/-! ### Steps -/

/-- A file begins with nothing of its own. -/
theorem abreast_start (h : Grounded a) (implicitUsings : Bool) :
    Abreast a a { implicitUsings } where
  left := h
  right := grounded_empty implicitUsings
  size := (Nat.zero_add _).symm
  scope id := by
    have hnone : a.scopes.size ≤ (id.behind a.scopes.size).index := Nat.le_add_left _ _
    rw [Outline.scope, Array.getElem?_eq_none hnone]
    rfl
  implicitUsings := rfl
  globalUsings := (List.append_nil _).symm
  globalAliases := rfl
  parts := ⟨[], (List.append_nil _).symm, .nil⟩

theorem SamePart.of_table_eq {n : Nat} {b' c' : Outline} {p q : DeclaredPart}
    (h : SamePart n b c p q) (hb : b'.table = b.table) (hc : c'.table = c.table) :
    SamePart n b' c' p q :=
  ⟨h.form, h.scopes, hb ▸ h.left_lt, hc ▸ h.right_lt, by rw [hb, hc, h.address]⟩

/-- A part of a file stays one when types are declared. -/
theorem SamePart.keeps {n : Nat} {b' c' : Outline} {p q : DeclaredPart} (h : SamePart n b c p q)
    (hb : b.table.Nests) (hc : c.table.Nests) (hkb : SymbolTable.Keeps b.table b'.table)
    (hkc : SymbolTable.Keeps c.table c'.table) : SamePart n b' c' p q where
  form := h.form
  scopes := h.scopes
  left_lt := Nat.lt_of_lt_of_le h.left_lt hkb.size_le
  right_lt := Nat.lt_of_lt_of_le h.right_lt hkc.size_le
  address := by
    rw [hkb.address hb p.type h.left_lt, hkc.address hc q.type h.right_lt, h.address]

/-- Steps that change only where types lie. -/
theorem Abreast.opened (h : Abreast a b c) (name name' : String) :
    Abreast a { b with root := (b.root.openAt [] name).1 }
      { c with root := (c.root.openAt [] name').1 } where
  left := h.left.reaches (Reaches.start.opened name)
  right := h.right.reaches (Reaches.start.opened name')
  size := h.size
  scope := h.scope
  implicitUsings := h.implicitUsings
  globalUsings := h.globalUsings
  globalAliases := h.globalAliases
  parts := by
    obtain ⟨new, hnew, hsame⟩ := h.parts
    exact ⟨new, hnew, hsame.imp fun p q hpq => hpq.of_table_eq rfl rfl⟩

theorem Abreast.pushScope (h : Abreast a b c) (chain : ScopeChain) (name : String) :
    Abreast a (b.pushScope (chain.map (ScopeId.behind a.scopes.size)) name).1
        (c.pushScope chain name).1 ∧
      (b.pushScope (chain.map (ScopeId.behind a.scopes.size)) name).2
        = (c.pushScope chain name).2.map (ScopeId.behind a.scopes.size) := by
  refine ⟨⟨h.left.reaches (Reaches.start.rescoped (rescoped_pushScope _ _)),
    h.right.reaches (Reaches.start.rescoped (rescoped_pushScope _ _)), ?_, fun id => ?_,
    h.implicitUsings, h.globalUsings, h.globalAliases, ?_⟩, ?_⟩
  · rw [size_pushScope, size_pushScope, h.size]
    omega
  · have hsame : (id.behind a.scopes.size).index = b.scopes.size ↔ id.index = c.scopes.size := by
      rw [h.size]
      exact Nat.add_right_cancel_iff
    rw [scope_pushScope, scope_pushScope]
    by_cases hid : id.index = c.scopes.size
    · rw [if_pos hid, if_pos (hsame.mpr hid)]
      rfl
    · rw [if_neg hid, if_neg fun hb => hid (hsame.mp hb), h.scope]
  · obtain ⟨new, hnew, hsame⟩ := h.parts
    exact ⟨new, hnew, hsame.imp fun p q hpq => hpq.of_table_eq rfl rfl⟩
  · show ScopeId.mk b.scopes.size :: _ = _
    rw [h.size]
    rfl

/-- Scopes are changed alike. -/
theorem Abreast.updateScope (h : Abreast a b c) (id : ScopeId) {f g : Scope → Scope}
    (hspace : ∀ s, (f s).spaceName = s.spaceName) (hspace' : ∀ s, (g s).spaceName = s.spaceName)
    (hfg : ∀ s, f (s.behind a.scopes.size) = (g s).behind a.scopes.size) :
    Abreast a (b.updateScope (id.behind a.scopes.size) f) (c.updateScope id g) where
  left := h.left.reaches (Reaches.start.rescoped (rescoped_updateScope _ hspace))
  right := h.right.reaches (Reaches.start.rescoped (rescoped_updateScope _ hspace'))
  size := by
    rw [size_updateScope, size_updateScope, h.size]
  scope other := by
    have hsame : ((other.behind a.scopes.size).index = (id.behind a.scopes.size).index ∧
        (id.behind a.scopes.size).index < b.scopes.size) ↔
        (other.index = id.index ∧ id.index < c.scopes.size) := by
      rw [h.size]
      simp only [ScopeId.behind]
      omega
    rw [scope_updateScope, scope_updateScope]
    by_cases hid : other.index = id.index ∧ id.index < c.scopes.size
    · rw [if_pos hid, if_pos (hsame.mpr hid), h.scope, hfg]
    · rw [if_neg hid, if_neg fun hb => hid (hsame.mp hb), h.scope]
  implicitUsings := h.implicitUsings
  globalUsings := h.globalUsings
  globalAliases := h.globalAliases
  parts := by
    obtain ⟨new, hnew, hsame⟩ := h.parts
    exact ⟨new, hnew, hsame.imp fun p q hpq => hpq.of_table_eq rfl rfl⟩

/-- Other directives that are in effect everywhere. -/
theorem Abreast.globals (h : Abreast a b c) {usings usings' : List String}
    {aliases aliases' : List (String × Alias)} (husings : usings = a.globalUsings ++ usings')
    (haliases : aliases = (aliases'.map fun e => (e.1, e.2.behind a.scopes.size))
      ++ a.globalAliases) :
    Abreast a { b with globalUsings := usings, globalAliases := aliases }
      { c with globalUsings := usings', globalAliases := aliases' } where
  left := h.left.reaches
    (Reaches.start.rescoped ⟨rfl, rfl, rfl, Nat.le_refl _, fun _ _ => rfl⟩)
  right := h.right.reaches
    (Reaches.start.rescoped ⟨rfl, rfl, rfl, Nat.le_refl _, fun _ _ => rfl⟩)
  size := h.size
  scope := h.scope
  implicitUsings := h.implicitUsings
  globalUsings := husings
  globalAliases := haliases
  parts := by
    obtain ⟨new, hnew, hsame⟩ := h.parts
    exact ⟨new, hnew, hsame.imp fun p q hpq => hpq.of_table_eq rfl rfl⟩

theorem Abreast.addUsing (h : Abreast a b c) (chain : ScopeChain) (form : UsingForm) :
    Abreast a (b.addUsing (chain.map (ScopeId.behind a.scopes.size)) form)
      (c.addUsing chain form) := by
  cases form with
  | space isGlobal name =>
    cases isGlobal with
    | true =>
      refine h.globals ?_ h.globalAliases
      rw [h.globalUsings, List.append_assoc]
    | false =>
      cases chain with
      | nil => exact h
      | cons id outer => exact h.updateScope id (fun _ => rfl) (fun _ => rfl) fun _ => rfl
  | named isGlobal name target written =>
    cases isGlobal with
    | true =>
      refine h.globals h.globalUsings ?_
      rw [h.globalAliases]
      rfl
    | false =>
      cases chain with
      | nil => exact h
      | cons id outer => exact h.updateScope id (fun _ => rfl) (fun _ => rfl) fun _ => rfl

theorem mem_addPart (o : Outline) (chain : ScopeChain) (enclosing : List TypeId)
    (d : TypeDeclaration) : ⟨(o.declarePart chain enclosing d).2, d, chain, enclosing⟩
      ∈ (o.addPart chain enclosing d).parts := by
  rw [addPart_parts]
  exact List.mem_append_right _ List.mem_cons_self

/-- **A part is declared at the same address.** -/
theorem Abreast.addPart (h : Abreast a b c) (chain : ScopeChain) (hb : b.Around enclosing)
    (hc : c.Around enclosing') (houter : b.outerAddress enclosing = c.outerAddress enclosing')
    (d : TypeDeclaration) :
    Abreast a (b.addPart (chain.map (ScopeId.behind a.scopes.size)) enclosing d)
        (c.addPart chain enclosing' d) ∧
      (b.addPart (chain.map (ScopeId.behind a.scopes.size)) enclosing d).outerAddress
          ((b.declarePart (chain.map (ScopeId.behind a.scopes.size)) enclosing d).2 :: enclosing)
        = (c.addPart chain enclosing' d).outerAddress
          ((c.declarePart chain enclosing' d).2 :: enclosing') := by
  have hstep := Reaches.start.part (chain.map (ScopeId.behind a.scopes.size)) hb d
  have hstep' := Reaches.start.part chain hc d
  have hsame : (b.addPart (chain.map (ScopeId.behind a.scopes.size)) enclosing d).table.address
        (b.declarePart (chain.map (ScopeId.behind a.scopes.size)) enclosing d).2
      = (c.addPart chain enclosing' d).table.address (c.declarePart chain enclosing' d).2 := by
    rw [address_addPart h.left.toOutlined h.left.nests hb,
      address_addPart h.right.toOutlined h.right.nests hc]
    exact addressIn_eq (h.pathOf chain) houter
  have hleft := h.left.reaches hstep
  have hright := h.right.reaches hstep'
  have hpart : SamePart a.scopes.size
      (b.addPart (chain.map (ScopeId.behind a.scopes.size)) enclosing d)
      (c.addPart chain enclosing' d)
      ⟨(b.declarePart (chain.map (ScopeId.behind a.scopes.size)) enclosing d).2, d,
        chain.map (ScopeId.behind a.scopes.size), enclosing⟩
      ⟨(c.declarePart chain enclosing' d).2, d, chain, enclosing'⟩ :=
    ⟨rfl, rfl, (hleft.parts _ (mem_addPart b _ enclosing d)).head_lt,
      (hright.parts _ (mem_addPart c chain enclosing' d)).head_lt, hsame⟩
  obtain ⟨hscopes, husings, haliases, himplicit⟩ :=
    scopes_addPart b (chain.map (ScopeId.behind a.scopes.size)) enclosing d
  obtain ⟨hscopes', husings', haliases', -⟩ := scopes_addPart c chain enclosing' d
  refine ⟨⟨hleft, hright, ?_, fun id => ?_, himplicit.trans h.implicitUsings, ?_, ?_, ?_⟩,
    congrArg some hsame⟩
  · rw [hscopes, hscopes', h.size]
  · rw [Outline.scope, Outline.scope, hscopes, hscopes']
    exact h.scope id
  · rw [husings, husings', h.globalUsings]
  · rw [haliases, haliases', h.globalAliases]
  · obtain ⟨new, hnew, hparts⟩ := h.parts
    have hold := hparts.imp fun p q hpq =>
      hpq.keeps h.left.nests h.right.nests hstep.keeps hstep'.keeps
    have hall := List.rel_append hold (.cons hpart .nil)
    rw [addPart_parts, addPart_parts, hnew, List.append_assoc]
    exact ⟨_, rfl, hall⟩

end

/-! ### The walk over nested types -/

mutual

theorem abreast_declareType {a : Outline} (chain : ScopeChain) : ∀ (d : TypeDeclaration)
    (b c : Outline) (enclosing enclosing' : List TypeId), Abreast a b c → b.Around enclosing →
      c.Around enclosing' → b.outerAddress enclosing = c.outerAddress enclosing' →
      Abreast a (b.declareType (chain.map (ScopeId.behind a.scopes.size)) enclosing d)
        (c.declareType chain enclosing' d)
  | ⟨name, kind, isRecord, modifiers, typeParameters, constraints, returns, hasParameterList,
      parameters, enumMembers, members, nested⟩, b, c, enclosing, enclosing', h, hb, hc, houter => by
    rw [declareType_eq, declareType_eq]
    obtain ⟨hpart, hinside⟩ := h.addPart chain hb hc houter _
    exact abreast_declareTypes chain nested _ _ _ _ hpart (around_addPart _ _ _ _)
      (around_addPart _ _ _ _) hinside

theorem abreast_declareTypes {a : Outline} (chain : ScopeChain) : ∀ (ds : List TypeDeclaration)
    (b c : Outline) (enclosing enclosing' : List TypeId), Abreast a b c → b.Around enclosing →
      c.Around enclosing' → b.outerAddress enclosing = c.outerAddress enclosing' →
      Abreast a (b.declareTypes (chain.map (ScopeId.behind a.scopes.size)) enclosing ds)
        (c.declareTypes chain enclosing' ds)
  | [], b, c, enclosing, enclosing', h, _, _, _ => by
    rw [declareTypes, declareTypes]
    exact h
  | d :: rest, b, c, enclosing, enclosing', h, hb, hc, houter => by
    rw [declareTypes, declareTypes]
    have hreach := reaches_declareType (chain.map (ScopeId.behind a.scopes.size)) d b enclosing hb
    have hreach' := reaches_declareType chain d c enclosing' hc
    refine abreast_declareTypes chain rest _ _ _ _
      (abreast_declareType chain d b c enclosing enclosing' h hb hc houter) (hreach.around hb)
      (hreach'.around hc) ?_
    rw [h.left.outerAddress hb hreach, h.right.outerAddress hc hreach', houter]

end

/-! ### The walk over items -/

section

variable {a b c : Outline}

theorem Abreast.enterSegments (segments : List String) (h : Abreast a b c) (chain : ScopeChain) :
    Abreast a (b.enterSegments (chain.map (ScopeId.behind a.scopes.size)) segments).1
        (c.enterSegments chain segments).1 ∧
      (b.enterSegments (chain.map (ScopeId.behind a.scopes.size)) segments).2
        = (c.enterSegments chain segments).2.map (ScopeId.behind a.scopes.size) := by
  induction segments generalizing b c chain with
  | nil => exact ⟨h, rfl⟩
  | cons segment rest ih =>
    rw [Outline.enterSegments, Outline.enterSegments, h.spaceName]
    obtain ⟨hpushed, hchain⟩ := h.pushScope chain
      (if c.spaceName chain = "" then segment else c.spaceName chain ++ "." ++ segment)
    simp only [hchain]
    exact ih hpushed _

theorem Abreast.enter (h : Abreast a b c) (chain : ScopeChain) (name : String) :
    Abreast a (b.enter (chain.map (ScopeId.behind a.scopes.size)) name).1 (c.enter chain name).1 ∧
      (b.enter (chain.map (ScopeId.behind a.scopes.size)) name).2
        = (c.enter chain name).2.map (ScopeId.behind a.scopes.size) := by
  have hsegments := h.enterSegments (Text.segments '.' name) chain
  rw [Outline.enter, Outline.enter]
  generalize b.enterSegments (chain.map (ScopeId.behind a.scopes.size)) (Text.segments '.' name)
    = left at hsegments ⊢
  generalize c.enterSegments chain (Text.segments '.' name) = right at hsegments ⊢
  obtain ⟨hentered, hchain⟩ := hsegments
  exact ⟨hentered.opened _ _, hchain⟩

end

mutual

theorem abreast_declareItem {a : Outline} : ∀ (item : Item) (b c : Outline) (chain : ScopeChain),
    Abreast a b c →
      Abreast a (b.declareItem (chain.map (ScopeId.behind a.scopes.size)) item).1
          (c.declareItem chain item).1 ∧
        (b.declareItem (chain.map (ScopeId.behind a.scopes.size)) item).2
          = (c.declareItem chain item).2.map (ScopeId.behind a.scopes.size)
  | .using form, b, c, chain, h => by
    rw [declareItem, declareItem]
    exact ⟨h.addUsing chain form, rfl⟩
  | .block name items, b, c, chain, h => by
    obtain ⟨hentered, hchain⟩ := h.enter chain name
    have hitems := abreast_declareItems items _ _ (c.enter chain name).2 hentered
    rw [← hchain] at hitems
    rw [declareItem, declareItem]
    generalize b.enter (chain.map (ScopeId.behind a.scopes.size)) name = left at hitems ⊢
    generalize c.enter chain name = right at hitems ⊢
    exact ⟨hitems, rfl⟩
  | .fileScoped name items, b, c, chain, h => by
    obtain ⟨hentered, hchain⟩ := h.enter chain name
    have hitems := abreast_declareItems items _ _ (c.enter chain name).2 hentered
    rw [← hchain] at hitems
    rw [declareItem, declareItem]
    generalize b.enter (chain.map (ScopeId.behind a.scopes.size)) name = left at hitems hchain ⊢
    generalize c.enter chain name = right at hitems hchain ⊢
    exact ⟨hitems, hchain⟩
  | .group items, b, c, chain, h => by
    rw [declareItem, declareItem]
    exact ⟨abreast_declareItems items b c chain h, rfl⟩
  | .type d, b, c, chain, h => by
    rw [declareItem, declareItem]
    exact ⟨abreast_declareType chain d b c [] [] h (Or.inl rfl) (Or.inl rfl) rfl, rfl⟩

/-- **The walk over items keeps both abreast.** -/
theorem abreast_declareItems {a : Outline} : ∀ (items : List Item) (b c : Outline)
    (chain : ScopeChain), Abreast a b c →
      Abreast a (b.declareItems (chain.map (ScopeId.behind a.scopes.size)) items)
        (c.declareItems chain items)
  | [], b, c, chain, h => by
    rw [declareItems, declareItems]
    exact h
  | item :: rest, b, c, chain, h => by
    obtain ⟨hitem, hchain⟩ := abreast_declareItem item b c chain h
    rw [declareItems, declareItems]
    simp only [hchain]
    exact abreast_declareItems rest _ _ _ hitem

end

/-- What a file declares on its own. -/
def alone (items : List Item) : Outline :=
  ({ implicitUsings := false } : Outline).addFile items

/-- **The walk over a file keeps both abreast.** -/
theorem abreast_addFile {a : Outline} (h : Grounded a) (items : List Item) :
    Abreast a (a.addFile items) (alone items) := by
  obtain ⟨hpushed, hchain⟩ := (abreast_start h false).pushScope [] ""
  have hwalk := abreast_declareItems items _ _
    (({ implicitUsings := false } : Outline).pushScope [] "").2 hpushed
  rw [← hchain] at hwalk
  exact hwalk

/-! ### Entries -/

/-- What the scopes around a place say, from the inside out. -/
abbrev ScopeView :=
  List (String × List String × List (String × TypeForm × String))

/-- A part of a type as it was entered: what it says, what the scopes around it say, and the address
of its type. -/
structure Entry where
  form : TypeDeclaration
  view : ScopeView
  address : Address

/-- What an outline entered of a part. -/
def entryOf (o : Outline) (part : DeclaredPart) : Entry :=
  ⟨part.form, o.viewOf part.scopes, o.table.address part.type⟩

/-- The parts of types as they were entered, in order. -/
def entries (o : Outline) : List Entry :=
  o.parts.map o.entryOf

/-- The names that using directives give in every file, with what the scopes around them say. -/
def globalEntries (o : Outline) : List (String × TypeForm × String × ScopeView) :=
  o.globalAliases.map fun e => (e.1, e.2.target, e.2.written, o.viewOf e.2.scopes)

section

variable {a b : Outline} {around : Nat → ScopeChain} {chain : ScopeChain}

theorem viewOf_addFile (hchain : a.InRange chain) (items : List Item) :
    (a.addFile items).viewOf chain = a.viewOf chain := by
  obtain ⟨chains, hadds⟩ := @adds_addFile (fun _ => True) (fun _ _ => True) a items
    (fun _ _ => trivial) fun _ _ => trivial
  exact List.map_congr_left fun id hid => congrArg contentsOf (hadds.scope (hchain id hid))

/-- **A file enters its parts behind those that are there.** -/
theorem entries_addFile (h : Grounded a) (hl : a.Linked around) (items : List Item) :
    (a.addFile items).entries = a.entries ++ (alone items).entries := by
  have habreast := abreast_addFile h items
  obtain ⟨new, hnew, hparts⟩ := habreast.parts
  have hold : a.parts.map (a.addFile items).entryOf = a.entries := by
    refine List.map_congr_left fun part hp => ?_
    rw [entryOf, entryOf, viewOf_addFile (hl.parts part hp).inRange,
      h.address_part (reaches_addFile a items).keeps hp]
  have hentered : new.map (a.addFile items).entryOf = (alone items).entries := by
    refine map_eq_map_of_forall₂ hparts fun p _ q hpq => ?_
    rw [entryOf, entryOf, hpq.form, hpq.scopes, habreast.viewOf, hpq.address]
  rw [entries, hnew, List.map_append, hold, hentered]

/-- **Its global names go in front of those that are there.** -/
theorem globalEntries_addFile (h : Grounded a) (hl : a.Linked around) (items : List Item) :
    (a.addFile items).globalEntries = (alone items).globalEntries ++ a.globalEntries := by
  have habreast := abreast_addFile h items
  rw [globalEntries, habreast.globalAliases, List.map_append, List.map_map]
  refine congrArg₂ _ (List.map_congr_left fun e _ => ?_) (List.map_congr_left fun e he => ?_)
  · simp only [Function.comp_apply, Alias.behind, habreast.viewOf]
  · simp only [viewOf_addFile (hl.globals e he).inRange items]

end

/-! ### Files -/

section

variable {files files' : List (Text.Bytes × Node)}

theorem grounded_ofFiles (implicitUsings : Bool) (files : List (Text.Bytes × Node)) :
    Grounded (ofFiles implicitUsings files) :=
  ⟨outlined_ofFiles, nests_ofFiles⟩

theorem described_ofFiles (implicitUsings : Bool) (files : List (Text.Bytes × Node)) :
    Described (ofFiles implicitUsings files) :=
  declares_ofFiles.reaches.described (outlined_empty implicitUsings) Library.nests
    (described_empty implicitUsings)

/-- What a file declares on its own. -/
def ofFile (file : Text.Bytes × Node) : Outline :=
  alone (readItems file.1 file.2)

/-- **Files enter what each of them enters on its own.** -/
theorem entries_ofFiles (implicitUsings : Bool) (files : List (Text.Bytes × Node)) :
    (ofFiles implicitUsings files).entries = files.flatMap fun file => (ofFile file).entries := by
  induction files using List.reverseRecOn with
  | nil => rfl
  | append_singleton files file ih =>
    obtain ⟨around, hlinked⟩ := linked_ofFiles implicitUsings files
    rw [ofFiles_concat, entries_addFile (grounded_ofFiles _ _) hlinked, ih, List.flatMap_append,
      List.flatMap_singleton]
    rfl

theorem globalEntries_ofFiles (implicitUsings : Bool) (files : List (Text.Bytes × Node)) :
    (ofFiles implicitUsings files).globalEntries
      = files.reverse.flatMap fun file => (ofFile file).globalEntries := by
  induction files using List.reverseRecOn with
  | nil => rfl
  | append_singleton files file ih =>
    obtain ⟨around, hlinked⟩ := linked_ofFiles implicitUsings files
    rw [ofFiles_concat, globalEntries_addFile (grounded_ofFiles _ _) hlinked, ih,
      List.reverse_append, List.reverse_singleton, List.singleton_append, List.flatMap_cons]
    rfl

theorem globalUsings_ofFiles (implicitUsings : Bool) (files : List (Text.Bytes × Node)) :
    (ofFiles implicitUsings files).globalUsings
      = files.flatMap fun file => (ofFile file).globalUsings := by
  induction files using List.reverseRecOn with
  | nil => rfl
  | append_singleton files file ih =>
    rw [ofFiles_concat, (abreast_addFile (grounded_ofFiles _ _) _).globalUsings, ih,
      List.flatMap_append, List.flatMap_singleton]
    rfl

theorem implicitUsings_ofFiles (implicitUsings : Bool) (files : List (Text.Bytes × Node)) :
    (ofFiles implicitUsings files).implicitUsings = implicitUsings := by
  induction files using List.reverseRecOn with
  | nil => rfl
  | append_singleton files file ih =>
    rw [ofFiles_concat, (abreast_addFile (grounded_ofFiles _ _) _).implicitUsings, ih]

end

end Outline

end ExtensionCensus.Binding
