import ExtensionCensus.Proofs.Binding.Gathering
import ExtensionCensus.Proofs.Binding.NamedSpace

/-!
# What a name of a using directive stands for

The target of a using directive that gives a name is to be read without the names of its own scope
and with those of the scopes around. The resolver reads it with no such name as a type, and with all
of them as namespaces.

* `Outline.without`, `Outline.boundTarget` — the names of one scope taken away, and what the target
  denotes then;
* `TypeForm.dottedNames` — the dotted names in a written type;
* `resolveWith_congr` — what is written denotes the same under two readings if every dotted name in
  it does;
* `Unhidden`, `bindName_without` — a dotted name for which both readings agree;
* `lookupInScopes_unsupplied` — a name that no namespace supplies is left to using directives;
* `Compilation.resolveAlias_without` — **a target of such names is read as it should be, and a name
  that only a scope around gives to a type is not found**.
-/

namespace ExtensionCensus

namespace Source

mutual

/-- The dotted names in a written type, those in arguments included. -/
def TypeForm.dottedNames : TypeForm → List (List NamePart)
  | .name parts => parts :: dottedNamesOfParts parts
  | .nullable underlying => underlying.dottedNames
  | .array element _ => element.dottedNames
  | .pointer target => target.dottedNames
  | .tuple elements _ => dottedNamesOfForms elements
  | .wrapped inner => inner.dottedNames
  | .missing | .predefined _ | .functionPointer _ | .inferred | .other _ _ => []

/-- The dotted names in some written types. -/
def dottedNamesOfForms : List TypeForm → List (List NamePart)
  | [] => []
  | form :: forms => form.dottedNames ++ dottedNamesOfForms forms

/-- The dotted names in the arguments of a part. -/
def NamePart.dottedNames : NamePart → List (List NamePart)
  | .mk _ args => dottedNamesOfForms args

/-- The dotted names in the arguments of some parts. -/
def dottedNamesOfParts : List NamePart → List (List NamePart)
  | [] => []
  | part :: parts => part.dottedNames ++ dottedNamesOfParts parts

end

end Source

namespace Binding

open Source (TypeForm NamePart dottedNamesOfForms dottedNamesOfParts bytesOf namedNode namedLeaf
  tokenLeaf)

/-- A scope does not lie around itself. -/
theorem not_mem_of_follows {around : Nat → ScopeChain} {id : ScopeId} {outer : ScopeChain}
    (h : Follows around (id :: outer)) : id ∉ outer := by
  intro hmem
  obtain ⟨front, back, he⟩ := List.append_of_mem hmem
  have hback : back = outer := by
    suffices hfollows : ∀ chain, Follows around (chain ++ id :: back) → back = around id.index from
      (hfollows front (he ▸ h.2)).trans h.1.symm
    intro chain hchain
    induction chain with
    | nil => exact hchain.1
    | cons s chain ih => exact ih hchain.2
  have hlength := congrArg List.length he
  rw [List.length_append, List.length_cons, hback] at hlength
  omega

namespace Outline

/-- The outline without the names that the using directives of a scope give; for a whole file, the
global ones are taken away as well. -/
def without (o : Outline) (id : ScopeId) (isFile : Bool) : Outline :=
  { o.updateScope id fun s => { s with aliases := [] } with
    globalAliases := if isFile then [] else o.globalAliases }

/-- What the target of a using directive denotes where it stands, if it denotes anything. -/
def boundTarget (o : Outline) (a : Alias) : Except BindError (Option Ty) :=
  match o.resolve { scopes := a.scopes } a.target with
  | .error e => .error e
  | .ok t => .ok (if t.isUnbound then none else some t)

/-- The first part of a dotted name leads to no name of the scope `id` as a namespace, and no scope
around gives it to a type. -/
def Unhidden (o : Outline) (id : ScopeId) (outer : ScopeChain) : List NamePart → Prop
  | .mk name [] :: rest =>
    (rest ≠ [] → o.alias? id outer.isEmpty name = none) ∧
      ∀ a ∈ o.aliasesNamed name outer, (o.without id outer.isEmpty).resolveAlias a = .ok none
  | _ => True

/-- No namespace around a place and no imported one has a type of a name. -/
def Unsupplied (o : Outline) (chain : ScopeChain) (name : String) : Prop :=
  ∀ s ∈ levels chain, o.typeIn? (o.scope s.1).spaceName ⟨name, 0⟩ = none ∧
    ∀ u ∈ o.usingsOf s.1 s.2, o.typeIn? u ⟨name, 0⟩ = none

/-- A using directive of the outline gives a name to the target. -/
def Gives (o : Outline) (a : Alias) : Prop :=
  (∃ id name, (name, a) ∈ (o.scope id).aliases) ∨ ∃ name, (name, a) ∈ o.globalAliases

section

variable {o o' : Outline} {id : ScopeId} {outer chain : ScopeChain} {name : String}
  {meaning meaning' : AliasMeaning} {ctx : Context}

/-! ### Taking names away -/

theorem scope_without (o : Outline) (id : ScopeId) (isFile : Bool) (s : ScopeId) :
    (o.without id isFile).scope s
      = if s = id then { o.scope s with aliases := [] } else o.scope s := by
  have hscope : (o.without id isFile).scope s
      = if s.index = id.index ∧ id.index < o.scopes.size then { o.scope id with aliases := [] }
        else o.scope s := getD_modify o.scopes id.index s.index _
  rw [hscope]
  by_cases hs : s = id
  · subst hs
    rw [if_pos rfl]
    split
    · rfl
    · next hout =>
      have hnone : o.scope s = default := by
        rw [scope, Array.getElem?_eq_none (Nat.le_of_not_lt fun hlt => hout ⟨rfl, hlt⟩)]
        rfl
      rw [hnone]
      rfl
  · rw [if_neg hs, if_neg]
    rintro ⟨hindex, -⟩
    cases s
    cases id
    exact hs (congrArg _ hindex)

theorem spaceName_without (o : Outline) (id : ScopeId) (isFile : Bool) (s : ScopeId) :
    ((o.without id isFile).scope s).spaceName = (o.scope s).spaceName := by
  rw [scope_without]
  split <;> rfl

theorem usingsOf_without (o : Outline) (id : ScopeId) (isFile : Bool) (s : ScopeId)
    (isFile' : Bool) : (o.without id isFile).usingsOf s isFile' = o.usingsOf s isFile' := by
  have husings : ((o.without id isFile).scope s).usings = (o.scope s).usings := by
    rw [scope_without]
    split <;> rfl
  rw [usingsOf, usingsOf, husings]
  rfl

/-- Nothing is left of what the scope gives names to. -/
theorem alias?_without_self (o : Outline) (id : ScopeId) (isFile : Bool) (name : String) :
    (o.without id isFile).alias? id isFile name = none := by
  rw [alias?, scope_without, if_pos rfl]
  cases isFile <;> rfl

theorem mem_of_mem_levels {s : ScopeId × Bool} (h : s ∈ levels chain) : s.1 ∈ chain := by
  induction chain with
  | nil => cases h
  | cons id outer ih =>
    rcases List.mem_cons.mp h with rfl | h
    · exact List.mem_cons_self
    · exact List.mem_cons_of_mem id (ih h)

/-- The scopes around keep their names. -/
theorem alias?_without (hid : id ∉ outer) {s : ScopeId × Bool} (hs : s ∈ levels outer)
    (name : String) :
    (o.without id outer.isEmpty).alias? s.1 s.2 name = o.alias? s.1 s.2 name := by
  have hmem := mem_of_mem_levels hs
  have hempty : outer.isEmpty = false := by
    cases outer with
    | nil => cases hmem
    | cons => rfl
  have hne : s.1 ≠ id := fun he => hid (he ▸ hmem)
  rw [alias?, alias?, scope_without, if_neg hne, hempty]
  rfl

theorem aliasesNamed_without (hid : id ∉ outer) (name : String) :
    (o.without id outer.isEmpty).aliasesNamed name outer = o.aliasesNamed name outer :=
  List.filterMap_congr fun _ hs => alias?_without hid hs name

/-- A name of parts without arguments has no other names in it. -/
theorem dottedNames_plainName (names : List String) :
    (plainName names).dottedNames = [names.map (.mk · [])] := by
  have harguments : dottedNamesOfParts (names.map (.mk · [])) = [] := by
    induction names with
    | nil => rw [List.map_nil, dottedNamesOfParts]
    | cons name rest ih =>
      rw [List.map_cons, dottedNamesOfParts, NamePart.dottedNames, dottedNamesOfForms, ih]
      rfl
  rw [plainName, TypeForm.dottedNames, harguments]

/-! ### Readings that agree -/

/-- Two outlines with the same types and imports. -/
structure SameTypes (a b : Outline) : Prop where
  table : b.table = a.table
  root : b.root = a.root
  spaceName : ∀ s, (b.scope s).spaceName = (a.scope s).spaceName
  usings : ∀ s isFile, b.usingsOf s isFile = a.usingsOf s isFile

theorem sameTypes_without (o : Outline) (id : ScopeId) (isFile : Bool) :
    SameTypes o (o.without id isFile) :=
  ⟨rfl, rfl, spaceName_without o id isFile, usingsOf_without o id isFile⟩

theorem SameTypes.typeIn? (h : SameTypes o o') (spaceName : String) (key : TypeKey) :
    o'.typeIn? spaceName key = o.typeIn? spaceName key := by
  rw [Outline.typeIn?, Outline.typeIn?, h.root]

theorem SameTypes.descend (h : SameTypes o o') (t : Ty) (parts : List BoundPart) :
    o'.descend t parts = o.descend t parts := by
  induction parts generalizing t with
  | nil => rfl
  | cons part rest ih =>
    obtain ⟨name, args⟩ := part
    rw [Outline.descend, Outline.descend, h.table]
    simp only [ih]

theorem SameTypes.lookupPath (h : SameTypes o o') (rooted : Bool) (tops : List String)
    (parts : List BoundPart) : o'.lookupPath rooted tops parts = o.lookupPath rooted tops parts := by
  have hsplit : ∀ top, o'.lookupSplit rooted top = o.lookupSplit rooted top := by
    intro top
    funext s
    obtain ⟨front, ⟨name, args⟩, rest⟩ := s
    rw [lookupSplit_rooted o', lookupSplit_rooted o]
    simp only [lookupSplit, Bool.false_and, Bool.false_eq_true, ↓reduceIte, apply, h.typeIn?,
      h.table, h.descend]
  rw [Outline.lookupPath, Outline.lookupPath]
  simp only [hsplit]

/-- A name denotes the same along a chain if the names that its scopes give do. -/
theorem SameTypes.lookupInScopes (h : SameTypes o o') {arity : Nat}
    (hnamed : ∀ s ∈ levels chain, o'.namedIn meaning' s.1 s.2 name arity
      = o.namedIn meaning s.1 s.2 name arity) :
    o'.lookupInScopes meaning' name arity chain = o.lookupInScopes meaning name arity chain := by
  induction chain with
  | nil => rfl
  | cons id outer ih =>
    rw [lookupInScopes_cons, lookupInScopes_cons, h.spaceName, h.typeIn?,
      hnamed _ List.mem_cons_self, h.usings, ih fun s hs => hnamed s (List.mem_cons_of_mem _ hs),
      h.table]
    simp only [h.typeIn?]

theorem SameTypes.lookupSimple (h : SameTypes o o') {arity : Nat}
    (hnamed : ∀ s ∈ levels chain, o'.namedIn meaning' s.1 s.2 name arity
      = o.namedIn meaning s.1 s.2 name arity) :
    o'.lookupSimple meaning' { scopes := chain } name arity
      = o.lookupSimple meaning { scopes := chain } name arity := by
  rw [Outline.lookupSimple, Outline.lookupSimple, h.lookupInScopes hnamed]
  rfl

/-- A dotted name denotes the same if its first part leads to the same types and namespaces. -/
theorem SameTypes.bindName (h : SameTypes o o') {args : List Ty} {rest : List BoundPart}
    (hnamed : ∀ s ∈ levels chain, o'.namedIn meaning' s.1 s.2 name args.length
      = o.namedIn meaning s.1 s.2 name args.length)
    (hspaces : args = [] → rest ≠ [] →
      o'.namespacesNamed name chain = o.namespacesNamed name chain) :
    o'.bindName meaning' { scopes := chain } ((name, args) :: rest)
      = o.bindName meaning { scopes := chain } ((name, args) :: rest) := by
  have hsimple := h.lookupSimple hnamed
  cases rest with
  | nil =>
    simp only [Outline.bindName, hsimple, apply, h.table]
  | cons second rest =>
    rw [bindName_dotted, bindName_dotted, lookupQualified, lookupQualified]
    simp only [hsimple, apply, h.table, h.descend, h.lookupPath]
    cases args with
    | cons a as => rfl
    | nil => rw [hspaces rfl (List.cons_ne_nil second rest)]

theorem length_of_resolveList {forms : List TypeForm} {ts : List Ty}
    (h : o.resolveList meaning ctx forms = .ok ts) : ts.length = forms.length := by
  induction forms generalizing ts with
  | nil =>
    rw [resolveList] at h
    cases h
    rfl
  | cons form rest ih =>
    rw [resolveList] at h
    split at h
    · cases h
    · obtain ⟨us, hus, rfl⟩ := ok_of_map h
      rw [List.length_cons, List.length_cons, ih hus]

/-- The parts that a dotted name is resolved to have its names, and arguments where it has some. -/
theorem resolveParts_cons_ok {args : List TypeForm} {rest : List NamePart}
    {bound : List BoundPart}
    (h : o.resolveParts meaning ctx (.mk name args :: rest) = .ok bound) :
    ∃ ts more, bound = (name, ts) :: more ∧ ts.length = args.length ∧
      more.length = rest.length := by
  rw [resolveParts, resolvePart] at h
  split at h
  · cases h
  · next part hpart =>
    obtain ⟨ts, hts, rfl⟩ := ok_of_map hpart
    obtain ⟨more, hmore, rfl⟩ := ok_of_map h
    refine ⟨ts, more, rfl, length_of_resolveList hts, ?_⟩
    have hnames := congrArg List.length (names_of_resolveParts hmore)
    rwa [List.length_map, List.length_map] at hnames

theorem SameTypes.nullableOf (h : SameTypes o o') (t : Ty) : o'.nullableOf t = o.nullableOf t := by
  unfold Outline.nullableOf
  rw [h.table]

theorem SameTypes.tupleOf (h : SameTypes o o') (ts : List Ty) (written : String) :
    o'.tupleOf ts written = o.tupleOf ts written := by
  rw [tupleOf_eq, tupleOf_eq, h.table]

mutual

/-- **What is written denotes the same under two readings if every dotted name in it does.** -/
theorem SameTypes.resolveWith (h : SameTypes o o') : ∀ form : TypeForm,
    (∀ parts ∈ form.dottedNames, ∀ bound, o.resolveParts meaning ctx parts = .ok bound →
      o'.bindName meaning' ctx bound = o.bindName meaning ctx bound) →
      o'.resolveWith meaning' ctx form = o.resolveWith meaning ctx form
  | .missing, _ => by rw [Outline.resolveWith, Outline.resolveWith]
  | .predefined _, _ => by rw [Outline.resolveWith, Outline.resolveWith]
  | .name parts, hnames => by
    rw [TypeForm.dottedNames] at hnames
    have hparts := h.resolveParts parts fun ps hps =>
      hnames ps (List.mem_cons_of_mem _ hps)
    rw [Outline.resolveWith, Outline.resolveWith, hparts]
    cases hbound : o.resolveParts meaning ctx parts with
    | error e => rfl
    | ok bound => exact hnames parts List.mem_cons_self bound hbound
  | .nullable underlying, hnames => by
    rw [TypeForm.dottedNames] at hnames
    rw [Outline.resolveWith, Outline.resolveWith, h.resolveWith underlying hnames]
    simp only [h.nullableOf]
  | .array element _, hnames => by
    rw [TypeForm.dottedNames] at hnames
    rw [Outline.resolveWith, Outline.resolveWith, h.resolveWith element hnames]
  | .pointer target, hnames => by
    rw [TypeForm.dottedNames] at hnames
    rw [Outline.resolveWith, Outline.resolveWith, h.resolveWith target hnames]
  | .functionPointer _, _ => by rw [Outline.resolveWith, Outline.resolveWith]
  | .tuple elements _, hnames => by
    rw [TypeForm.dottedNames] at hnames
    rw [Outline.resolveWith, Outline.resolveWith, h.resolveList elements hnames]
    simp only [h.tupleOf]
  | .wrapped inner, hnames => by
    rw [TypeForm.dottedNames] at hnames
    rw [Outline.resolveWith, Outline.resolveWith, h.resolveWith inner hnames]
  | .inferred, _ => by rw [Outline.resolveWith, Outline.resolveWith]
  | .other _ _, _ => by rw [Outline.resolveWith, Outline.resolveWith]

theorem SameTypes.resolveList (h : SameTypes o o') : ∀ forms : List TypeForm,
    (∀ parts ∈ dottedNamesOfForms forms, ∀ bound, o.resolveParts meaning ctx parts = .ok bound →
      o'.bindName meaning' ctx bound = o.bindName meaning ctx bound) →
      o'.resolveList meaning' ctx forms = o.resolveList meaning ctx forms
  | [], _ => by rw [Outline.resolveList, Outline.resolveList]
  | form :: rest, hnames => by
    rw [dottedNamesOfForms] at hnames
    rw [Outline.resolveList, Outline.resolveList,
      h.resolveWith form fun ps hps => hnames ps (List.mem_append_left _ hps),
      h.resolveList rest fun ps hps => hnames ps (List.mem_append_right _ hps)]

theorem SameTypes.resolvePart (h : SameTypes o o') : ∀ part : NamePart,
    (∀ parts ∈ part.dottedNames, ∀ bound, o.resolveParts meaning ctx parts = .ok bound →
      o'.bindName meaning' ctx bound = o.bindName meaning ctx bound) →
      o'.resolvePart meaning' ctx part = o.resolvePart meaning ctx part
  | .mk name args, hnames => by
    rw [NamePart.dottedNames] at hnames
    rw [Outline.resolvePart, Outline.resolvePart, h.resolveList args hnames]

theorem SameTypes.resolveParts (h : SameTypes o o') : ∀ parts : List NamePart,
    (∀ ps ∈ dottedNamesOfParts parts, ∀ bound, o.resolveParts meaning ctx ps = .ok bound →
      o'.bindName meaning' ctx bound = o.bindName meaning ctx bound) →
      o'.resolveParts meaning' ctx parts = o.resolveParts meaning ctx parts
  | [], _ => by rw [Outline.resolveParts, Outline.resolveParts]
  | part :: rest, hnames => by
    rw [dottedNamesOfParts] at hnames
    rw [Outline.resolveParts, Outline.resolveParts,
      h.resolvePart part fun ps hps => hnames ps (List.mem_append_left _ hps),
      h.resolveParts rest fun ps hps => hnames ps (List.mem_append_right _ hps)]

end

/-! ### The names of one scope taken away -/

/-- Names that are given to nothing leave a name to the rest of the scope. -/
theorem namedIn_noAliases (id : ScopeId) (isFile : Bool) (name : String) (arity : Nat) :
    o.namedIn noAliases id isFile name arity = .ok none := by
  rw [namedIn]
  split <;> rfl

theorem namedIn_without_self (id : ScopeId) (isFile : Bool) (name : String) (arity : Nat) :
    (o.without id isFile).namedIn meaning id isFile name arity = .ok none := by
  rw [namedIn, alias?_without_self, ite_self]

/-- A scope around whose names are no types leaves a name to the rest as well. -/
theorem namedIn_without_outer (hid : id ∉ outer) {s : ScopeId × Bool} (hs : s ∈ levels outer)
    (arity : Nat) (hnone : arity = 0 → ∀ a ∈ o.aliasesNamed name outer, meaning a = .ok none) :
    (o.without id outer.isEmpty).namedIn meaning s.1 s.2 name arity = .ok none := by
  rw [namedIn, alias?_without hid hs]
  by_cases harity : arity = 0
  · rw [if_pos harity]
    cases ha : o.alias? s.1 s.2 name with
    | none => rfl
    | some a => exact hnone harity a (List.mem_filterMap.mpr ⟨s, hs, ha⟩)
  · rw [if_neg harity]

theorem namespacesNamed_congr (h : SameTypes o o')
    (halias : ∀ s ∈ levels chain, o'.alias? s.1 s.2 name = o.alias? s.1 s.2 name) :
    o'.namespacesNamed name chain = o.namespacesNamed name chain := by
  induction chain with
  | nil => rfl
  | cons id outer ih =>
    rw [namespacesNamed, namespacesNamed, h.spaceName, halias _ List.mem_cons_self,
      ih fun s hs => halias s (List.mem_cons_of_mem _ hs)]

/-- **A dotted name denotes the same with no names as types, and with the names of the scopes around
alone, if no name of its own scope is in its way and none of a scope around is a type.** -/
theorem bindName_without (hid : id ∉ outer) {parts : List NamePart}
    (hclear : o.Unhidden id outer parts) {bound : List BoundPart}
    (hbound : o.resolveParts noAliases ctx parts = .ok bound) :
    (o.without id outer.isEmpty).bindName (o.without id outer.isEmpty).resolveAlias
        { scopes := id :: outer } bound
      = o.bindName noAliases { scopes := id :: outer } bound := by
  cases parts with
  | nil =>
    rw [resolveParts] at hbound
    cases hbound
    rfl
  | cons part rest =>
    obtain ⟨name, args⟩ := part
    obtain ⟨ts, more, rfl, hts, hmore⟩ := resolveParts_cons_ok hbound
    have hplain : ts.length = 0 → args = [] := fun hzero => List.length_eq_zero_iff.mp (hts ▸ hzero)
    refine (sameTypes_without o id outer.isEmpty).bindName (fun s hs => ?_) fun hnil hne => ?_
    · rw [namedIn_noAliases]
      rcases List.mem_cons.mp hs with rfl | hs
      · exact namedIn_without_self id outer.isEmpty name _
      · refine namedIn_without_outer hid hs _ fun hzero => ?_
        rw [hplain hzero] at hclear
        exact hclear.2
    · rw [hplain (by rw [hnil]; rfl)] at hclear
      have hrest : rest ≠ [] := by
        rintro rfl
        exact hne (List.length_eq_zero_iff.mp hmore)
      refine namespacesNamed_congr (sameTypes_without o id outer.isEmpty) fun s hs => ?_
      rcases List.mem_cons.mp hs with rfl | hs
      · rw [alias?_without_self, hclear.1 hrest]
      · exact alias?_without hid hs name

/-- **A target of such names is read as if the names of its scope alone were taken away.** -/
theorem resolveAlias_eq_boundTarget (hid : id ∉ outer) {a : Alias} (hscopes : a.scopes = id :: outer)
    (hclear : ∀ parts ∈ a.target.dottedNames, o.Unhidden id outer parts) :
    o.resolveAlias a = (o.without id outer.isEmpty).boundTarget a := by
  have htarget : (o.without id outer.isEmpty).resolve { scopes := a.scopes } a.target
      = o.resolveWith noAliases { scopes := a.scopes } a.target := by
    rw [hscopes]
    exact (sameTypes_without o id outer.isEmpty).resolveWith a.target fun parts hparts bound hbound =>
      bindName_without hid (hclear parts hparts) hbound
  rw [boundTarget, htarget]
  rfl

/-! ### A name that only using directives supply -/

theorem Unsupplied.tail (h : o.Unsupplied (id :: outer) name) : o.Unsupplied outer name :=
  fun s hs => h s (List.mem_cons_of_mem _ hs)

/-- **A name that no namespace supplies is left to using directives, from the inside out.** -/
theorem lookupInScopes_unsupplied (h : o.Unsupplied chain name) :
    o.lookupInScopes meaning name 0 chain = firstFound meaning (o.aliasesNamed name chain) := by
  induction chain with
  | nil => rfl
  | cons id outer ih =>
    obtain ⟨hspace, husings⟩ := h _ List.mem_cons_self
    rw [lookupInScopes_cons, hspace, List.findSome?_eq_none_iff.mpr husings, ih h.tail,
      aliasesNamed_cons]
    cases ha : o.alias? id outer.isEmpty name with
    | none =>
      rw [namedIn, if_pos rfl, ha]
      rfl
    | some a =>
      have hnamed : o.namedIn meaning id outer.isEmpty name 0 = meaning a := by
        rw [namedIn, if_pos rfl, ha]
      rw [hnamed, Option.toList_some, List.singleton_append, firstFound]
      rcases meaning a with e | _ | t <;> rfl

theorem firstFound_noAliases (as : List Alias) : firstFound noAliases as = .ok none := by
  induction as with
  | nil => rfl
  | cons a as ih => exact ih

/-- No name of a using directive stands for an unbound type. -/
theorem resolveAlias_bound {a : Alias} {t : Ty} (h : o.resolveAlias a = .ok (some t)) :
    t.isUnbound = false := by
  rw [resolveAlias] at h
  split at h
  · cases h
  · next u _ =>
    cases hu : u.isUnbound with
    | true => simp [hu] at h
    | false =>
      simp only [hu, Bool.false_eq_true, ↓reduceIte, Except.ok.injEq, Option.some.injEq] at h
      exact h ▸ hu

theorem Unsupplied.without (h : o.Unsupplied chain name) (id : ScopeId) (isFile : Bool) :
    (o.without id isFile).Unsupplied chain name := by
  have hsame := sameTypes_without o id isFile
  intro s hs
  rw [hsame.spaceName, hsame.typeIn?, hsame.usings]
  exact ⟨(h s hs).1, fun u hu => (hsame.typeIn? u _).trans ((h s hs).2 u hu)⟩

/-- What a name denotes that only using directives supply, unless it is a word of the language. -/
theorem resolveWith_unsupplied (h : o.Unsupplied chain name)
    (hword : name ∉ ["nint", "nuint", "dynamic"]) :
    o.resolveWith meaning { scopes := chain } (plainName [name])
      = match firstFound meaning (o.aliasesNamed name chain) with
        | .error e => .error e
        | .ok (some t) => .ok t
        | .ok none => .ok (unboundName [(name, [])]) := by
  simp only [List.mem_cons, List.not_mem_nil, or_false, not_or] at hword
  have hnative : nativeInteger? name = none := nativeInteger?_eq_none_iff.mpr ⟨hword.1, hword.2.1⟩
  rw [plainName, resolveWith, resolveParts_space]
  simp only [spaceBound, List.map_cons, List.map_nil, bindName, List.length_nil,
    lookupSimple_outside, lookupInScopes_unsupplied h, hnative]
  rcases firstFound meaning (o.aliasesNamed name chain) with e | _ | t
  · rfl
  · simp [hword.2.2]
  · by_cases ht : t.declaration?.isSome = true <;> simp [ht, apply, Except.map]

/-- A name that only using directives supply is not found by the resolver in a target, and without
the names of its own scope it is what the scopes around give it to. -/
theorem resolveAlias_unsupplied (hid : id ∉ outer) {a : Alias} (hscopes : a.scopes = id :: outer)
    (htarget : a.target = plainName [name]) (hword : name ∉ ["nint", "nuint", "dynamic"])
    (hnone : o.Unsupplied (id :: outer) name) :
    o.resolveAlias a = .ok none ∧
      (o.without id outer.isEmpty).boundTarget a
        = firstFound (o.without id outer.isEmpty).resolveAlias (o.aliasesNamed name outer) := by
  constructor
  · rw [resolveAlias, hscopes, htarget, resolveWith_unsupplied hnone hword, firstFound_noAliases]
    simp only [isUnbound_unboundName, ↓reduceIte]
  · have hnames : (o.without id outer.isEmpty).aliasesNamed name (id :: outer)
        = o.aliasesNamed name outer := by
      rw [aliasesNamed_cons, alias?_without_self, aliasesNamed_without hid]
      rfl
    rw [boundTarget, resolve, hscopes, htarget, resolveWith_unsupplied (hnone.without id _) hword,
      hnames]
    cases hfound : firstFound (o.without id outer.isEmpty).resolveAlias (o.aliasesNamed name outer)
      with
    | error e => rfl
    | ok found =>
      cases found with
      | none => simp only [isUnbound_unboundName, ↓reduceIte]
      | some t =>
        obtain ⟨b, -, hb⟩ := mem_of_firstFound hfound
        simp only [resolveAlias_bound hb, Bool.false_eq_true, ↓reduceIte]

/-- A using directive does not stand in a scope twice. -/
theorem Gives.not_mem {around : Nat → ScopeChain} (h : o.Linked around) {a : Alias} (ha : o.Gives a)
    (hscopes : a.scopes = id :: outer) : id ∉ outer := by
  suffices hfollows : Follows around (id :: outer) from not_mem_of_follows hfollows
  rcases ha with ⟨s, name, hmem⟩ | ⟨name, hmem⟩
  · have hlt : s.index < o.scopes.size := by
      by_contra hout
      rw [scope, Array.getElem?_eq_none (Nat.le_of_not_lt hout)] at hmem
      cases hmem
    have haround := h.aliases s _ hmem
    rw [hscopes, List.cons.injEq] at haround
    obtain ⟨rfl, rfl⟩ := haround
    exact ⟨rfl, (h.scopes id.index hlt).follows⟩
  · exact hscopes ▸ (h.globals _ hmem).follows

end

end Outline

namespace Compilation

/-- **What a using directive gives a name to, in a compilation and at every point of the second
pass.** If no dotted name in the target leads to a name of the directive's own scope as a namespace,
and none to a type by a name of a scope around, the name stands for what its target denotes without
the names of that scope. A target that is a single name and that only a scope around gives to a type
is not found, though it denotes that type. -/
theorem resolveAlias_without {identity : AssemblyIdentity} {implicitUsings : Bool}
    {files : List (Text.Bytes × Source.Node)} {c : Compilation}
    (hfiles : (empty identity implicitUsings).addFiles files = .ok c) {o : Outline}
    (ho : c.outline.Grows o) {a : Alias} (ha : o.Gives a) {id : ScopeId} {outer : ScopeChain}
    (hscopes : a.scopes = id :: outer) :
    ((∀ parts ∈ a.target.dottedNames, o.Unhidden id outer parts) →
      o.resolveAlias a = (o.without id outer.isEmpty).boundTarget a) ∧
    ∀ name, a.target = Outline.plainName [name] → name ∉ ["nint", "nuint", "dynamic"] →
      o.Unsupplied (id :: outer) name →
        o.resolveAlias a = .ok none ∧
          (o.without id outer.isEmpty).boundTarget a
            = Outline.firstFound (o.without id outer.isEmpty).resolveAlias
                (o.aliasesNamed name outer) := by
  have houtline : c.outline = Outline.ofFiles implicitUsings files := by
    rw [addFiles_eq files rfl] at hfiles
    cases hfiles
    rfl
  obtain ⟨around, hlinked⟩ := Outline.linked_ofFiles implicitUsings files
  rw [← houtline] at hlinked
  have hgives : c.outline.Gives a := by
    rw [ho.frame] at ha
    exact ha
  have hid := hgives.not_mem hlinked hscopes
  exact ⟨Outline.resolveAlias_eq_boundTarget hid hscopes, fun name htarget hword hnone =>
    Outline.resolveAlias_unsupplied hid hscopes htarget hword hnone⟩

/-! ### A name that a scope around gives -/

/-- The names of parts without arguments. -/
def plainParts? : List NamePart → Option (List String)
  | [] => some []
  | .mk name [] :: rest => (plainParts? rest).map (name :: ·)
  | _ => none

theorem eq_of_plainParts? {parts : List NamePart} {names : List String}
    (h : plainParts? parts = some names) : parts = names.map (.mk · []) := by
  induction parts generalizing names with
  | nil =>
    cases h
    rfl
  | cons part rest ih =>
    obtain ⟨name, args⟩ := part
    cases args with
    | nil =>
      obtain ⟨more, hmore, rfl⟩ := Option.map_eq_some_iff.mp h
      rw [ih hmore]
      rfl
    | cons arg args => cases h

/-- The names of a dotted name without arguments. -/
def plainNames? : TypeForm → Option (List String)
  | .name parts => plainParts? parts
  | _ => none

theorem eq_of_plainNames? {form : TypeForm} {names : List String}
    (h : plainNames? form = some names) : form = Outline.plainName names := by
  cases form with
  | name parts => rw [Outline.plainName, eq_of_plainParts? h]
  | _ => cases h

/-- A file that gives a name to a well-known type, and in a namespace a name to that name and one to
the type. -/
def renamingFile : Text.Bytes × Source.Node :=
  (bytesOf "using I = System.Int32;namespace N\x7busing J = I;using K = System.Int32;\x7d",
    namedNode "compilation_unit" 0 71 "" [
      namedNode "using_directive" 0 23 "" [
        namedLeaf "identifier" 6 7 "name",
        tokenLeaf "=" 8 9,
        namedNode "qualified_name" 10 22 "" [
          namedLeaf "identifier" 10 16 "qualifier",
          namedLeaf "identifier" 17 22 "name"]],
      namedNode "namespace_declaration" 23 71 "" [
        namedLeaf "identifier" 33 34 "name",
        namedNode "declaration_list" 34 71 "body" [
          namedNode "using_directive" 35 47 "" [
            namedLeaf "identifier" 41 42 "name",
            tokenLeaf "=" 43 44,
            namedLeaf "identifier" 45 46 ""],
          namedNode "using_directive" 47 70 "" [
            namedLeaf "identifier" 53 54 "name",
            tokenLeaf "=" 55 56,
            namedNode "qualified_name" 57 69 "" [
              namedLeaf "identifier" 57 63 "qualifier",
              namedLeaf "identifier" 64 69 "name"]]]]])

/-- What that file declares. -/
def renamingOutline : Outline :=
  ({} : Outline).addFile (Source.readItems renamingFile.1 renamingFile.2)

/-- The directives in the namespace: name, names of the target and scopes around. -/
theorem renamingOutline_directives :
    (renamingOutline.scope ⟨1⟩).aliases.map (fun e => (e.1, plainNames? e.2.target, e.2.scopes))
      = [("K", some ["System", "Int32"], [⟨1⟩, ⟨0⟩]), ("J", some ["I"], [⟨1⟩, ⟨0⟩])] := by
  decide +kernel

/-- The names in the targets: neither scope gives the one in front, and only the outer scope gives
the other one, to the well-known type. -/
theorem renamingOutline_names :
    (renamingOutline.alias? ⟨1⟩ false "System").isNone ∧
      (renamingOutline.aliasesNamed "System" [⟨0⟩]).isEmpty ∧
      (∀ s ∈ levels [⟨1⟩, ⟨0⟩],
        renamingOutline.typeIn? (renamingOutline.scope s.1).spaceName ⟨"I", 0⟩ = none ∧
          renamingOutline.usingsOf s.1 s.2 = []) ∧
      Outline.firstFound (renamingOutline.without ⟨1⟩ false).resolveAlias
          (renamingOutline.aliasesNamed "I" [⟨0⟩])
        = .ok (some (renamingOutline.table.definitionType ⟨7⟩)) := by
  decide +kernel

/-- Of the two names in the namespace the one for the full name of the type is read as it should be.
The other one is given to nothing, though its target denotes the type. -/
theorem renamingFile_unfound :
    ∃ c j k, (empty ⟨"R", "1.0.0.0", "neutral", none⟩ false).addFiles [renamingFile] = .ok c ∧
      (c.outline.scope ⟨1⟩).aliases = [("K", k), ("J", j)] ∧
      c.outline.resolveAlias k = (c.outline.without ⟨1⟩ false).boundTarget k ∧
      c.outline.resolveAlias j = .ok none ∧
      (c.outline.without ⟨1⟩ false).boundTarget j
        = .ok (some (c.outline.table.definitionType ⟨7⟩)) := by
  have hfiles : (empty ⟨"R", "1.0.0.0", "neutral", none⟩ false).addFiles [renamingFile]
      = .ok ⟨⟨"R", "1.0.0.0", "neutral", none⟩, renamingOutline, false⟩ := rfl
  obtain ⟨⟨_, k⟩, others, haliases, hk, hothers⟩ :=
    List.map_eq_cons_iff.mp renamingOutline_directives
  obtain ⟨⟨_, j⟩, rfl, hj⟩ := List.map_eq_singleton_iff.mp hothers
  simp only [Prod.mk.injEq] at hk hj
  obtain ⟨rfl, hkTarget, hkScopes⟩ := hk
  obtain ⟨rfl, hjTarget, hjScopes⟩ := hj
  obtain ⟨hown, houter, hnone, hfound⟩ := renamingOutline_names
  have hkGiven : renamingOutline.Gives k :=
    Or.inl ⟨⟨1⟩, "K", haliases ▸ List.mem_cons_self⟩
  have hjGiven : renamingOutline.Gives j :=
    Or.inl ⟨⟨1⟩, "J", haliases ▸ List.mem_cons_of_mem _ List.mem_cons_self⟩
  have hunsupplied : renamingOutline.Unsupplied [⟨1⟩, ⟨0⟩] "I" := by
    intro s hs
    rw [(hnone s hs).2]
    exact ⟨(hnone s hs).1, List.forall_mem_nil _⟩
  refine ⟨_, j, k, hfiles, haliases, ?_, ?_⟩
  · refine (resolveAlias_without hfiles (Outline.Grows.refl _) hkGiven hkScopes).1 ?_
    intro parts hparts
    rw [eq_of_plainNames? hkTarget, Outline.dottedNames_plainName, List.mem_singleton] at hparts
    rw [hparts]
    refine ⟨fun _ => Option.isNone_iff_eq_none.mp hown, fun b hb => ?_⟩
    rw [show Outline.aliasesNamed _ _ _ = [] from List.isEmpty_iff.mp houter] at hb
    cases hb
  · obtain ⟨hcode, hclaim⟩ := (resolveAlias_without hfiles (Outline.Grows.refl _) hjGiven
      hjScopes).2 "I" (eq_of_plainNames? hjTarget) (by decide) hunsupplied
    exact ⟨hcode, hclaim.trans hfound⟩

end Compilation

end Binding

end ExtensionCensus
