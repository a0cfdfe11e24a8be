import ExtensionCensus.Proofs.Binding.Placing
import ExtensionCensus.Proofs.Source.Items
import ExtensionCensus.Proofs.Source.Spelling

/-!
# Fully qualified names

A type in which every declared type is written with its full name, from the global namespace on,
denotes the same type at every place.

* `fullForm`, `fullParts`, `dottedName` — a type written out, and the names on the way to it;
* `Outline.Closed` — a type made of declared types over types, of arrays and of pointers, with no
  namespace named like a type that others are nested in;
* `splits_append`, `lookupPath_of_leads` — the longest namespace is tried first, and none longer than
  the right one has what the path names;
* `Closed.leads` — a full name leads to its type;
* `Closed.resolveWith_fullForm` — **a closed type is what its form denotes**, and
  `Compilation.resolve_qualified` — the same of every tree that writes the form, in both passes.
-/

namespace ExtensionCensus.Binding

open Source (TypeForm NamePart Writes globalWord bytesOf namedNode namedLeaf)

namespace Outline

/-! ### Writing a type out -/

/-- The name that a part of a dotted name begins with. -/
def partName : NamePart → String
  | .mk name _ => name

/-- The parts that lead to the namespace that a declared type lies in. -/
def spaceParts (table : SymbolTable) (id : TypeId) : List NamePart :=
  match (table.definition id).container with
  | .namespace path => path.map (.mk · [])
  | _ => []

mutual

/-- A type written out: every declared type in it with its full name, from the global namespace on.
There is no such form of a type parameter. -/
def fullForm (table : SymbolTable) : Ty → TypeForm
  | .named (.declared id) outer args =>
    .name (.mk globalWord [] :: (frontParts table id outer ++
      [.mk (table.definition id).name (fullForms table args)]))
  | .array element rank => .array (fullForm table element) [rank]
  | .pointer target => .pointer (fullForm table target)
  | _ => .missing

/-- The parts of the full name of an instance of a declared type in front of the last one. -/
def frontParts (table : SymbolTable) (id : TypeId) : Option Ty → List NamePart
  | none => spaceParts table id
  | some (.named (.declared outer) before args) =>
    frontParts table outer before ++ [.mk (table.definition outer).name (fullForms table args)]
  | some _ => []

/-- Types written out, in order. -/
def fullForms (table : SymbolTable) : List Ty → List TypeForm
  | [] => []
  | t :: ts => fullForm table t :: fullForms table ts

end

/-- The parts of the full name of an instance of a declared type. -/
def fullParts (table : SymbolTable) : Ty → List NamePart
  | .named (.declared id) outer args =>
    frontParts table id outer ++ [.mk (table.definition id).name (fullForms table args)]
  | _ => []

/-- The dotted name of an instance of a declared type, without its arguments. -/
def dottedName (table : SymbolTable) (t : Ty) : String :=
  Namespace.qualifiedName ((fullParts table t).map partName)

/-- The type lies in a namespace of the compilation, or it is a well-known type and the compilation
declares none under its path and key. -/
def Available (o : Outline) (x : Place) : Prop :=
  x ∈ o.root.placed [] ∨
    x ∈ Library.root.placed [] ∧ ∀ y ∈ o.root.placed [], y.path = x.path → y.key ≠ x.key

/-- A type that is made of declared types: each over as many types as it takes, inside an instance
of the type that lists it if it is nested in one, and no namespace has the dotted name of that. -/
inductive Closed (o : Outline) : Ty → Prop where
  | top {x : Place} (hx : o.Available x) {args : List Ty} (hargs : ∀ a ∈ args, Closed o a)
      (hcount : args.length = o.table.arity x.id) :
      Closed o (.named (.declared x.id) none args)
  | nested {outer id : TypeId} {before : Option Ty} {outerArgs args : List Ty}
      (houter : Closed o (.named (.declared outer) before outerArgs))
      (hid : id ∈ o.table.nestedTypes outer)
      (hclear : o.hasNamespace (dottedName o.table (.named (.declared outer) before outerArgs))
        = false)
      (hargs : ∀ a ∈ args, Closed o a) (hcount : args.length = o.table.arity id) :
      Closed o (.named (.declared id) (some (.named (.declared outer) before outerArgs)) args)
  | array {element : Ty} (rank : Nat) (helement : Closed o element) :
      Closed o (.array element rank)
  | pointer {target : Ty} (htarget : Closed o target) : Closed o (.pointer target)

section

variable {o : Outline}

/-! ### Ways to read a path -/

theorem splits_cons (part : BoundPart) (parts : List BoundPart) :
    splits (part :: parts)
      = (splits parts).map (fun s => (part :: s.1, s.2)) ++ [([], part, parts)] := by
  rw [splits, List.length_cons, List.range_succ_eq_map, List.reverse_cons, List.filterMap_append,
    ← List.map_reverse, List.filterMap_map, splits, List.map_filterMap]
  congr 1
  refine List.filterMap_congr fun i _ => ?_
  rw [Function.comp_apply, List.getElem?_cons_succ, Option.map_map]
  rfl

/-- What a split puts in front, in its head and behind is the path. -/
theorem append_of_mem_splits {parts : List BoundPart}
    {s : List BoundPart × BoundPart × List BoundPart} (h : s ∈ splits parts) :
    s.1 ++ s.2.1 :: s.2.2 = parts := by
  induction parts generalizing s with
  | nil => cases h
  | cons part parts ih =>
    rw [splits_cons] at h
    rcases List.mem_append.mp h with h | h
    · obtain ⟨inner, hinner, rfl⟩ := List.mem_map.mp h
      exact congrArg (part :: ·) (ih hinner)
    · rw [List.mem_singleton.mp h]
      rfl

/-- The splits come in the order of their heads, the last head first. -/
theorem splits_append (front : List BoundPart) (head : BoundPart) (back : List BoundPart) :
    ∃ longer shorter, splits (front ++ head :: back) = longer ++ (front, head, back) :: shorter ∧
      ∀ s ∈ longer, ∃ between, s.1 = front ++ head :: between ∧
        between ++ s.2.1 :: s.2.2 = back := by
  induction front with
  | nil =>
    refine ⟨_, [], splits_cons head back, fun s hs => ?_⟩
    obtain ⟨inner, hinner, rfl⟩ := List.mem_map.mp hs
    exact ⟨inner.1, rfl, append_of_mem_splits hinner⟩
  | cons part front ih =>
    obtain ⟨longer, shorter, hsplits, hlonger⟩ := ih
    refine ⟨longer.map fun s => (part :: s.1, s.2),
      shorter.map (fun s => (part :: s.1, s.2)) ++ [([], part, front ++ head :: back)], ?_,
      fun s hs => ?_⟩
    · rw [List.cons_append, splits_cons, hsplits, List.map_append, List.map_cons, List.append_assoc,
        List.cons_append]
    · obtain ⟨inner, hinner, rfl⟩ := List.mem_map.mp hs
      obtain ⟨between, hfront, hback⟩ := hlonger inner hinner
      exact ⟨between, congrArg (part :: ·) hfront, hback⟩

/-- The first answer is that of the first candidate that has one. -/
theorem firstFound_append {α : Type} {f : α → Except BindError (Option Ty)} {before after : List α}
    {a : α} {t : Ty} (hbefore : ∀ b ∈ before, f b = .ok none) (ha : f a = .ok (some t)) :
    firstFound f (before ++ a :: after) = .ok (some t) := by
  induction before with
  | nil =>
    rw [List.nil_append, firstFound, ha]
  | cons b before ih =>
    rw [List.cons_append, firstFound, hbefore b List.mem_cons_self]
    exact ih fun c hc => hbefore c (List.mem_cons_of_mem b hc)

/-- There are no types in a namespace that is not there. -/
theorem typeIn?_of_not_hasNamespace {spaceName : String} (h : o.hasNamespace spaceName = false)
    (key : TypeKey) : o.typeIn? spaceName key = none := by
  rw [hasNamespace, Bool.or_eq_false_iff] at h
  simp only [Namespace.lookup?, List.nil_append, Option.isSome_map, Option.isSome_eq_false_iff,
    Option.isNone_iff_eq_none] at h
  rw [typeIn?, Namespace.lookupType?, Library.lookupType?, Namespace.lookupType?, h.1, h.2]
  rfl

/-! ### Going down -/

/-- The parts without arguments for the segments of a path. -/
def spaceBound (path : NamespacePath) : List BoundPart :=
  path.map (·, [])

/-- A path, a part for a type in the namespace there and parts for nested types lead to a type, and
no namespace has the dotted name of a type on the way. -/
structure Leads (o : Outline) (path : NamespacePath) (head : BoundPart) (steps : List BoundPart)
    (t : Ty) : Prop where
  reaches : ∃ id first, o.typeIn? (Namespace.qualifiedName path) ⟨head.1, head.2.length⟩ = some id ∧
    o.apply (o.table.definitionType id) head.2 = .ok first ∧
    o.descend first steps = .ok (some t)
  clear : ∀ between part rest, steps = between ++ part :: rest →
    o.hasNamespace (Namespace.qualifiedName (path ++ head.1 :: between.map (·.1))) = false

theorem descend_append {t u : Ty} {steps more : List BoundPart}
    (h : o.descend t steps = .ok (some u)) :
    o.descend t (steps ++ more) = o.descend u more := by
  induction steps generalizing t with
  | nil =>
    cases h
    rfl
  | cons step steps ih =>
    obtain ⟨name, args⟩ := step
    rw [descend] at h
    rw [List.cons_append, descend]
    cases hid : t.declaration?.bind (o.table.nestedType? · ⟨name, args.length⟩) with
    | none =>
      rw [hid] at h
      cases h
    | some id =>
      simp only [hid] at h ⊢
      cases hc : o.table.construct (o.table.definitionType id) args (some t) with
      | error e =>
        rw [hc] at h
        cases h
      | ok v =>
        simp only [hc] at h ⊢
        exact ih h

theorem map_fst_spaceBound (path : NamespacePath) : (spaceBound path).map (·.1) = path := by
  rw [spaceBound, List.map_map]
  exact List.map_id path

/-- **Every way to read more of the path as a namespace fails, and the right one leads to the
type.** -/
theorem lookupPath_of_leads {path : NamespacePath} {head : BoundPart} {steps : List BoundPart}
    {t : Ty} (h : o.Leads path head steps t) :
    o.lookupPath false [""] (spaceBound path ++ head :: steps) = .ok (some t) := by
  obtain ⟨longer, shorter, hsplits, hlonger⟩ := splits_append (spaceBound path) head steps
  have hnone : ∀ s ∈ longer, o.lookupSplit false "" s = .ok none := by
    intro s hs
    obtain ⟨front, ⟨name, args⟩, back⟩ := s
    obtain ⟨between, hfront, hback⟩ := hlonger _ hs
    have hnames : front.map (·.1) = path ++ head.1 :: between.map (·.1) := by
      rw [show front = spaceBound path ++ head :: between from hfront, List.map_append,
        map_fst_spaceBound, List.map_cons]
    have hclear := h.clear between _ _ hback.symm
    rw [← hnames] at hclear
    rw [lookupSplit]
    split
    · rfl
    · simp only [↓reduceIte, List.nil_append, Bool.false_and, Bool.false_eq_true]
      rw [← Namespace.qualifiedName, typeIn?_of_not_hasNamespace hclear]
  have hfound : o.lookupSplit false "" (spaceBound path, head, steps) = .ok (some t) := by
    obtain ⟨id, first, hid, happly, hdescend⟩ := h.reaches
    obtain ⟨name, args⟩ := head
    have hplain : ((spaceBound path).any fun p => !p.2.isEmpty) = false := by
      simp [spaceBound]
    have hspace : ".".intercalate ([] ++ (spaceBound path).map (·.1))
        = Namespace.qualifiedName path := by
      rw [List.nil_append, map_fst_spaceBound, Namespace.qualifiedName]
    rw [lookupSplit]
    simp only [hplain, Bool.false_eq_true, ↓reduceIte, Bool.false_and, hspace, hid, happly]
    exact hdescend
  have hinner : firstFound (o.lookupSplit false "") (splits (spaceBound path ++ head :: steps))
      = .ok (some t) := by
    rw [hsplits]
    exact firstFound_append hnone hfound
  exact firstFound_append (List.forall_mem_nil _) hinner

/-! ### Full names -/

theorem construct_definitionType {id : TypeId} {args : List Ty}
    (hcount : args.length = o.table.arity id) (outer : Option Ty) :
    o.table.construct (o.table.definitionType id) args outer
      = .ok (.named (.declared id) (outer <|> o.table.lexicalOuter id) args) := by
  rw [SymbolTable.definitionType]
  simp only [SymbolTable.construct, hcount, ↓reduceIte]

/-- A type in a namespace is instantiated there; without type parameters it is its own instance. -/
theorem apply_definitionType {id : TypeId} {args : List Ty}
    (hcount : args.length = o.table.arity id) (houter : o.table.lexicalOuter id = none) :
    o.apply (o.table.definitionType id) args = .ok (.named (.declared id) none args) := by
  cases args with
  | nil =>
    have hnone : o.table.typeParametersOf id = [] := by
      rw [SymbolTable.typeParametersOf]
      rw [SymbolTable.arity] at hcount
      rw [← hcount]
      rfl
    rw [apply, SymbolTable.definitionType, houter, hnone]
    rfl
  | cons a rest =>
    rw [apply, construct_definitionType hcount none, houter]
    rfl

/-- An available type is declared where it lies, and it is what its dotted name finds. -/
theorem Available.spec {x : Place} (h : o.Findable) (hx : o.Available x) :
    (o.table.definition x.id).container = .namespace x.path ∧ o.table.key x.id = x.key ∧
      o.typeIn? (Namespace.qualifiedName x.path) x.key = some x.id := by
  rcases hx with hx | ⟨hx, hfree⟩
  · exact ⟨h.places.container x hx, h.places.key x hx, h.typeIn?_of_placed hx⟩
  · have hagrees := h.library.agrees x.id (Library.places.index_lt x hx)
    refine ⟨hagrees.container.trans (Library.places.container x hx), ?_,
      h.typeIn?_of_library hx hfree⟩
    exact (SymbolTable.key_of_agrees hagrees).trans (Library.places.key x hx)

section

variable {meaning : AliasMeaning} {ctx : Context}

theorem resolveParts_append {front back : List NamePart} {bound more : List BoundPart}
    (hfront : o.resolveParts meaning ctx front = .ok bound)
    (hback : o.resolveParts meaning ctx back = .ok more) :
    o.resolveParts meaning ctx (front ++ back) = .ok (bound ++ more) := by
  induction front generalizing bound with
  | nil =>
    rw [resolveParts] at hfront
    cases hfront
    exact hback
  | cons part front ih =>
    rw [resolveParts] at hfront
    rw [List.cons_append, resolveParts]
    split at hfront
    · cases hfront
    · next first hfirst =>
      obtain ⟨rest, hrest, rfl⟩ := ok_of_map hfront
      rw [ih hrest]
      rfl

/-- Resolving the arguments of parts leaves their names. -/
theorem names_of_resolveParts {parts : List NamePart} {bound : List BoundPart}
    (h : o.resolveParts meaning ctx parts = .ok bound) :
    bound.map (·.1) = parts.map partName := by
  induction parts generalizing bound with
  | nil =>
    rw [resolveParts] at h
    cases h
    rfl
  | cons part parts ih =>
    obtain ⟨name, args⟩ := part
    rw [resolveParts, resolvePart] at h
    split at h
    · cases h
    · next first hfirst =>
      obtain ⟨ts, -, rfl⟩ := ok_of_map hfirst
      obtain ⟨rest, hrest, rfl⟩ := ok_of_map h
      rw [List.map_cons, List.map_cons, ih hrest]
      rfl

theorem resolveParts_space (path : NamespacePath) :
    o.resolveParts meaning ctx (path.map (.mk · [])) = .ok (spaceBound path) := by
  induction path with
  | nil => rw [List.map_nil, resolveParts]; rfl
  | cons name rest ih =>
    rw [List.map_cons, resolveParts, resolvePart, resolveList, ih]
    rfl

theorem resolveParts_last {name : String} {args : List TypeForm} {ts : List Ty}
    (hargs : o.resolveList meaning ctx args = .ok ts) :
    o.resolveParts meaning ctx [.mk name args] = .ok [(name, ts)] := by
  rw [resolveParts, resolvePart, hargs, resolveParts]
  rfl

theorem resolveList_fullForms {ts : List Ty}
    (h : ∀ t ∈ ts, o.resolveWith meaning ctx (fullForm o.table t) = .ok t) :
    o.resolveList meaning ctx (fullForms o.table ts) = .ok ts := by
  induction ts with
  | nil => rw [fullForms, resolveList]
  | cons t ts ih =>
    rw [fullForms, resolveList, h t List.mem_cons_self,
      ih fun u hu => h u (List.mem_cons_of_mem t hu)]
    rfl

end

/-- The full name of a type leads to it, whatever the arguments are resolved with. -/
def LeadsTo (o : Outline) (t : Ty) : Prop :=
  ∃ path head steps, o.Leads path head steps t ∧ ∀ meaning ctx,
    o.resolveParts meaning ctx (fullParts o.table t) = .ok (spaceBound path ++ head :: steps)

/-- The full name of a type in a namespace. -/
theorem leadsTo_top (h : o.Findable) {x : Place} (hx : o.Available x) {args : List Ty}
    (hargs : ∀ a ∈ args, ∀ meaning ctx, o.resolveWith meaning ctx (fullForm o.table a) = .ok a)
    (hcount : args.length = o.table.arity x.id) :
    o.LeadsTo (.named (.declared x.id) none args) := by
  obtain ⟨hcontainer, hkey, hfound⟩ := hx.spec h
  have houter : o.table.lexicalOuter x.id = none := by
    rw [SymbolTable.lexicalOuter, hcontainer]
  have hname : x.key = ⟨(o.table.definition x.id).name, args.length⟩ := by
    rw [← hkey, hcount]
    rfl
  rw [hname] at hfound
  refine ⟨x.path, ((o.table.definition x.id).name, args), [],
    ⟨⟨x.id, _, hfound, apply_definitionType hcount houter, rfl⟩, fun between part rest he => ?_⟩,
    fun meaning ctx => ?_⟩
  · simp at he
  · rw [fullParts, frontParts, spaceParts, hcontainer]
    exact resolveParts_append (resolveParts_space x.path)
      (resolveParts_last (resolveList_fullForms fun a ha => hargs a ha meaning ctx))

/-- The full name of a type that is nested in an instance. -/
theorem leadsTo_nested (h : o.Findable) {outer id : TypeId} {before : Option Ty}
    {outerArgs args : List Ty} (houter : o.LeadsTo (.named (.declared outer) before outerArgs))
    (hid : id ∈ o.table.nestedTypes outer)
    (hclear : o.hasNamespace (dottedName o.table (.named (.declared outer) before outerArgs))
      = false)
    (hargs : ∀ a ∈ args, ∀ meaning ctx, o.resolveWith meaning ctx (fullForm o.table a) = .ok a)
    (hcount : args.length = o.table.arity id) :
    o.LeadsTo (.named (.declared id) (some (.named (.declared outer) before outerArgs)) args) := by
  obtain ⟨path, head, steps, hleads, hparts⟩ := houter
  obtain ⟨top, first, htop, hfirst, hdescend⟩ := hleads.reaches
  have hnested := h.nestedType?_of_mem hid
  rw [SymbolTable.key, ← hcount] at hnested
  have hstep : o.descend (.named (.declared outer) before outerArgs)
      [((o.table.definition id).name, args)]
        = .ok (some (.named (.declared id) (some (.named (.declared outer) before outerArgs))
            args)) := by
    rw [descend]
    simp only [Ty.declaration?, Option.bind_some, hnested, construct_definitionType hcount]
    rfl
  refine ⟨path, head, steps ++ [((o.table.definition id).name, args)],
    ⟨⟨top, first, htop, hfirst, ?_⟩, fun between part rest he => ?_⟩, fun meaning ctx => ?_⟩
  · rw [descend_append hdescend]
    exact hstep
  · rcases List.eq_nil_or_concat rest with rfl | ⟨rest, last, rfl⟩
    · -- all that lies in front is the full name of the outer type
      obtain ⟨rfl, -⟩ := List.append_inj' he rfl
      have hnames := names_of_resolveParts (hparts noAliases { scopes := [] })
      rw [List.map_append, map_fst_spaceBound, List.map_cons] at hnames
      rw [hnames]
      exact hclear
    · refine hleads.clear between part rest ?_
      rw [List.concat_eq_append, ← List.cons_append, ← List.append_assoc] at he
      exact (List.append_inj' he rfl).1
  · rw [fullParts, frontParts, ← fullParts, ← List.cons_append, ← List.append_assoc]
    exact resolveParts_append (hparts meaning ctx)
      (resolveParts_last (resolveList_fullForms fun a ha => hargs a ha meaning ctx))

/-- What a full name leads to is what the form of the type denotes. -/
theorem resolveWith_of_leadsTo {id : TypeId} {outer : Option Ty} {args : List Ty}
    (h : o.LeadsTo (.named (.declared id) outer args)) (meaning : AliasMeaning) (ctx : Context) :
    o.resolveWith meaning ctx (fullForm o.table (.named (.declared id) outer args))
      = .ok (.named (.declared id) outer args) := by
  obtain ⟨path, head, steps, hleads, hparts⟩ := h
  have hpath := lookupPath_of_leads hleads
  have hbound : o.resolveParts meaning ctx
      (.mk globalWord [] :: fullParts o.table (.named (.declared id) outer args))
        = .ok ((globalWord, []) :: (spaceBound path ++ head :: steps)) := by
    rw [resolveParts, resolvePart, resolveList, hparts]
    rfl
  obtain ⟨next, others, hnext⟩ := List.exists_cons_of_ne_nil
    (List.append_ne_nil_of_right_ne_nil (spaceBound path) (List.cons_ne_nil head steps))
  rw [hnext] at hpath hbound
  -- the word in front ends in the colons of an alias, and it is that of the global namespace
  have hqualified : o.lookupQualified meaning ctx (globalWord, []) (next :: others)
      = .ok (some (.named (.declared id) outer args)) := by
    rw [lookupQualified, if_pos (by decide), if_pos (by decide)]
    exact hpath
  rw [fullForm, resolveWith, ← fullParts, hbound]
  simp only [bindName, hqualified]

/-- **A closed type is what its form denotes at every place, whatever names of using directives
denote.** -/
theorem Closed.resolveWith_fullForm (h : o.Findable) {t : Ty} (ht : o.Closed t)
    (meaning : AliasMeaning) (ctx : Context) :
    o.resolveWith meaning ctx (fullForm o.table t) = .ok t := by
  suffices hboth : (∀ meaning ctx, o.resolveWith meaning ctx (fullForm o.table t) = .ok t) ∧
      (t.isNamed = true → o.LeadsTo t) from hboth.1 meaning ctx
  induction ht with
  | top hx _ hcount ih =>
    have hleads := leadsTo_top h hx (fun a ha => (ih a ha).1) hcount
    exact ⟨resolveWith_of_leadsTo hleads, fun _ => hleads⟩
  | nested _ hid hclear _ hcount ihouter ih =>
    have hleads := leadsTo_nested h (ihouter.2 rfl) hid hclear (fun a ha => (ih a ha).1) hcount
    exact ⟨resolveWith_of_leadsTo hleads, fun _ => hleads⟩
  | array rank _ ih =>
    refine ⟨fun meaning ctx => ?_, fun hnamed => by cases hnamed⟩
    rw [fullForm, resolveWith, ih.1]
    rfl
  | pointer _ ih =>
    refine ⟨fun meaning ctx => ?_, fun hnamed => by cases hnamed⟩
    rw [fullForm, resolveWith, ih.1]
    rfl

end

end Outline

namespace Compilation

/-- **A closed type is what is bound for every tree that writes it out in full**: at every place, in
every scope with whatever using directives, inside whatever types and method, and at every point of
the second pass. -/
theorem resolve_qualified {identity : AssemblyIdentity} {implicitUsings : Bool}
    {files : List (Text.Bytes × Source.Node)} {c : Compilation}
    (hfiles : (empty identity implicitUsings).addFiles files = .ok c) {o : Outline}
    (ho : c.outline.Grows o) {t : Ty} (ht : o.Closed t) {source : Text.Bytes} {n : Source.Node}
    (hn : Writes source n (Outline.fullForm o.table t)) (ctx : Context) :
    o.resolve ctx (TypeForm.read source n) = .ok t ∧
      o.resolveWith Outline.noAliases ctx (TypeForm.read source n) = .ok t := by
  have hfindable := (findable_addFiles hfiles).grows ho
  rw [hn.read, Outline.resolve]
  exact ⟨ht.resolveWith_fullForm hfindable _ ctx, ht.resolveWith_fullForm hfindable _ ctx⟩

/-! ### A type nested in an instance -/

/-- A generic class with another class nested in it, in a namespace. -/
def nestingFile : Text.Bytes × Source.Node :=
  (bytesOf "namespace N{class A<T>{class B{}}}",
    namedNode "compilation_unit" 0 34 "" [
      namedNode "namespace_declaration" 0 34 "" [
        namedLeaf "identifier" 10 11 "name",
        namedNode "declaration_list" 11 34 "body" [
          namedNode "class_declaration" 12 33 "" [
            namedLeaf "identifier" 18 19 "name",
            namedNode "type_parameter_list" 19 22 "type_parameters" [
              namedNode "type_parameter" 20 21 "" [namedLeaf "identifier" 20 21 "name"]],
            namedNode "declaration_list" 22 33 "body" [
              namedNode "class_declaration" 23 32 "" [
                namedLeaf "identifier" 29 30 "name",
                namedNode "declaration_list" 30 32 "body" []]]]]]])

/-- What that file declares. -/
def nestingOutline : Outline :=
  ({ implicitUsings := true } : Outline).addFile
    (Source.readItems nestingFile.1 nestingFile.2)

/-- The source of an array of the nested class over a well-known type. -/
def arraySource : Text.Bytes :=
  bytesOf "global::N.A<global::System.Int32>.B[]"

/-- The tree of that source. -/
def arrayTree : Source.Node :=
  namedNode "array_type" 0 37 "" [
    namedNode "qualified_name" 0 35 "type" [
      namedNode "qualified_name" 0 33 "qualifier" [
        namedNode "alias_qualified_name" 0 9 "qualifier" [
          namedLeaf "identifier" 0 6 "alias", namedLeaf "identifier" 8 9 "name"],
        namedNode "generic_name" 10 33 "name" [
          namedLeaf "identifier" 10 11 "",
          namedNode "type_argument_list" 11 33 "" [
            namedNode "qualified_name" 12 32 "" [
              namedNode "alias_qualified_name" 12 26 "qualifier" [
                namedLeaf "identifier" 12 18 "alias", namedLeaf "identifier" 20 26 "name"],
              namedLeaf "identifier" 27 32 "name"]]]],
      namedLeaf "identifier" 34 35 "name"],
    namedLeaf "array_rank_specifier" 35 37 "rank"]

/-- The array of the nested class over a well-known type; the classes are declared behind all
well-known types. -/
def nestedArray : Ty :=
  .array (.named (.declared ⟨146⟩)
    (some (.named (.declared ⟨145⟩) none [.named (.declared ⟨7⟩) none []])) []) 1

/-- The form of that array. -/
def nestedArrayForm : TypeForm :=
  .array (.name [.mk "global::" [], .mk "N" [],
    .mk "A" [.name [.mk "global::" [], .mk "System" [], .mk "Int32" []]], .mk "B" []]) [1]

/-- What the file declares, and what is known of the well-known type. -/
theorem nestingOutline_facts :
    (nestingOutline.root.placed []).map (fun x => (x.path, x.key, x.id))
        = [(["N"], ⟨"A", 1⟩, ⟨145⟩)] ∧
      ((Library.root.placed []).find? (·.id.index = 7)).map (fun x => (x.path, x.key, x.id))
        = some (["System"], ⟨"Int32", 0⟩, ⟨7⟩) ∧
      [7, 145, 146].map (fun i => nestingOutline.table.key ⟨i⟩)
        = [⟨"Int32", 0⟩, ⟨"A", 1⟩, ⟨"B", 0⟩] ∧
      nestingOutline.table.nestedTypes ⟨145⟩ = [⟨146⟩] ∧
      nestingOutline.hasNamespace "N.A" = false := by
  decide +kernel

theorem findable_nestingOutline : nestingOutline.Findable :=
  @findable_addFiles ⟨"N", "1.0.0.0", "neutral", none⟩ true [nestingFile]
    ⟨⟨"N", "1.0.0.0", "neutral", none⟩, nestingOutline, false⟩ rfl

theorem nestedArray_spec :
    Outline.fullForm nestingOutline.table nestedArray = nestedArrayForm ∧
      nestingOutline.Closed nestedArray := by
  obtain ⟨hplaced, hknown, hkeys, hnested, hclear⟩ := nestingOutline_facts
  obtain ⟨⟨path, key, id⟩, hx, hx'⟩ := List.map_eq_singleton_iff.mp hplaced
  obtain ⟨⟨path', key', id'⟩, hy, hy'⟩ := Option.map_eq_some_iff.mp hknown
  cases hx'
  cases hy'
  simp only [List.map_cons, List.map_nil, List.cons.injEq, and_true, SymbolTable.key,
    TypeKey.mk.injEq] at hkeys
  obtain ⟨⟨hnameInt, hint⟩, ⟨hnameA, ha⟩, hnameB, hb⟩ := hkeys
  have hplaceA : nestingOutline.Available ⟨["N"], ⟨"A", 1⟩, ⟨145⟩⟩ := by
    refine Or.inl ?_
    rw [hx]
    exact List.mem_cons_self
  have hplaceInt : nestingOutline.Available ⟨["System"], ⟨"Int32", 0⟩, ⟨7⟩⟩ := by
    refine Or.inr ⟨List.mem_of_find?_eq_some hy, fun z hz hpath => ?_⟩
    rw [hx, List.mem_singleton] at hz
    subst hz
    exact absurd hpath (by decide)
  have hspaceA := (hplaceA.spec findable_nestingOutline).1
  have hspaceInt := (hplaceInt.spec findable_nestingOutline).1
  refine ⟨?_, .array 1 (.nested (.top hplaceA ?_ ha.symm) ?_ ?_ (List.forall_mem_nil _) hb.symm)⟩
  · simp only [nestedArray, nestedArrayForm, Outline.fullForm, Outline.frontParts,
      Outline.fullForms, Outline.spaceParts, hnameInt, hnameA, hnameB, hspaceA, hspaceInt]
    rfl
  · intro a hmem
    rw [List.mem_singleton.mp hmem]
    exact .top hplaceInt (List.forall_mem_nil _) hint.symm
  · rw [hnested]
    exact List.mem_cons_self
  · simp only [Outline.dottedName, Outline.fullParts, Outline.frontParts, Outline.spaceParts,
      hnameA, hspaceA]
    exact hclear

theorem writes_nestedArray : Writes arraySource arrayTree nestedArrayForm := by
  have hword : ∀ {n : Source.Node} {word : String}, n.kind = "identifier" →
      n.text arraySource = word → Source.WritesName arraySource n [.mk word []] :=
    fun hkind htext => htext ▸ .identifier hkind
  have hargument : Source.WritesAll arraySource
      [namedNode "qualified_name" 12 32 "" [
        namedNode "alias_qualified_name" 12 26 "qualifier" [
          namedLeaf "identifier" 12 18 "alias", namedLeaf "identifier" 20 26 "name"],
        namedLeaf "identifier" 27 32 "name"]]
      [.name [.mk "global::" [], .mk "System" [], .mk "Int32" []]] := by
    refine .cons (.name ?_) .nil
    refine .qualified rfl rfl rfl (.rooted rfl rfl ?_ rfl (hword rfl ?_)) (hword rfl ?_)
    all_goals decide
  have hgeneric : Source.WritesName arraySource
      (namedNode "generic_name" 10 33 "name" [
        namedLeaf "identifier" 10 11 "",
        namedNode "type_argument_list" 11 33 "" [
          namedNode "qualified_name" 12 32 "" [
            namedNode "alias_qualified_name" 12 26 "qualifier" [
              namedLeaf "identifier" 12 18 "alias", namedLeaf "identifier" 20 26 "name"],
            namedLeaf "identifier" 27 32 "name"]]])
      [.mk "A" [.name [.mk "global::" [], .mk "System" [], .mk "Int32" []]]] := by
    have htext : (namedLeaf "identifier" 10 11 "").text arraySource = "A" := by decide
    rw [← htext]
    exact .generic rfl rfl rfl hargument
  refine .array rfl rfl (by decide) (.name ?_)
  refine .qualified rfl rfl rfl (.qualified rfl rfl rfl (.rooted rfl rfl ?_ rfl (hword rfl ?_))
    hgeneric) (hword rfl ?_)
  all_goals decide

/-- The array of the class nested in an instance over a well-known type is what its tree denotes, at
every place. -/
theorem nestedArray_qualified :
    ∃ c, (empty ⟨"N", "1.0.0.0", "neutral", none⟩ true).addFiles [nestingFile] = .ok c ∧
      c.outline.Closed nestedArray ∧
      Writes arraySource arrayTree (Outline.fullForm c.outline.table nestedArray) ∧
      ∀ ctx, c.outline.resolve ctx (TypeForm.read arraySource arrayTree) = .ok nestedArray := by
  obtain ⟨hform, hclosed⟩ := nestedArray_spec
  have hwrites : Writes arraySource arrayTree
      (Outline.fullForm nestingOutline.table nestedArray) := hform ▸ writes_nestedArray
  have hfiles : (empty ⟨"N", "1.0.0.0", "neutral", none⟩ true).addFiles [nestingFile]
      = .ok ⟨⟨"N", "1.0.0.0", "neutral", none⟩, nestingOutline, false⟩ := rfl
  exact ⟨_, hfiles, hclosed, hwrites,
    fun ctx => (resolve_qualified hfiles (Outline.Grows.refl _) hclosed hwrites ctx).1⟩

end Compilation

end ExtensionCensus.Binding
