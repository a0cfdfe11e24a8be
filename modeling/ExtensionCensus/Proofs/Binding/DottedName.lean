import ExtensionCensus.Proofs.Binding.Corresponding
import ExtensionCensus.Proofs.Binding.Qualified

/-!
# Dotted names outside types

What a name of plain parts leads to where no type and no method lies around it: a type that lies in
a namespace is found in a namespace or not at all.

* `Namespace.parts_inside`, `Outline.Findable.typeIn?_spec` — dotted names of one path are one
  namespace, and what is found there is declared there;
* `Outline.plainName` — a name of parts without arguments;
* `Outline.resolve_simple_iff`, `Outline.resolve_dotted_iff` — a name denotes a type in a namespace
  if and only if its lookup comes to that type;
* `Outline.descend_ne_topLevel` — no type in a namespace lies below another type;
* `Outline.lookupPath_topLevel` — **a path that leads to a type in a namespace names that namespace**,
  and `Outline.lookupPath_last` — the last part alone is looked for in one namespace after the other.
-/

namespace ExtensionCensus

/-! ### Paths of dotted names -/

namespace Namespace

/-- The two sides of a dot ask for their own segments. -/
theorem parts_append_dot (s t : String) : parts (s ++ "." ++ t) = parts s ++ parts t := by
  rw [parts, parts, parts, ← List.filter_append]
  exact congrArg (·.filter (· ≠ "")) (Text.segments_append s t)

theorem parts_empty : parts "" = [] := by
  decide

/-- Below a namespace lies the path of the namespace and then the names. -/
theorem parts_intercalate_cons (top : String) {names : List String} (h : Segmented names) :
    parts (".".intercalate (top :: names)) = parts top ++ names := by
  induction names generalizing top with
  | nil => rw [String.intercalate_singleton, List.append_nil]
  | cons name rest ih =>
    have hname : parts name = [name] := by
      have hsegmented : Segmented [name] :=
        fun s hs => h s (List.mem_singleton.mp hs ▸ List.mem_cons_self)
      have hone := parts_qualifiedName hsegmented
      rwa [qualifiedName, String.intercalate_singleton] at hone
    rw [String.intercalate_cons_cons, parts_append_dot, ih name fun s hs =>
      h s (List.mem_cons_of_mem name hs), hname, List.singleton_append]

/-- The dotted name of a namespace that lies in another one; the global namespace has no name. -/
def inside (spaceName name : String) : String :=
  if spaceName = "" then name else spaceName ++ "." ++ name

theorem parts_inside (spaceName name : String) :
    parts (inside spaceName name) = parts spaceName ++ parts name := by
  rw [inside]
  split
  · next h => rw [h, parts_empty, List.nil_append]
  · exact parts_append_dot spaceName name

end Namespace

namespace Library

/-- The native integers have other names in the table. -/
theorem native_spec : ∀ word ∈ ["nint", "nuint"], ∃ id : TypeId,
    specialType? word = some (.named (.declared id) none []) ∧
      id.index < table.definitions.size ∧ (table.definition id).name ≠ word := by
  intro word hword
  rcases List.mem_cons.mp hword with rfl | hword
  · exact ⟨⟨13⟩, by decide +kernel, by decide +kernel, by decide +kernel⟩
  · rw [List.mem_singleton.mp hword]
    exact ⟨⟨14⟩, by decide +kernel, by decide +kernel, by decide +kernel⟩

end Library

namespace Binding.Outline

open Source (TypeForm NamePart)

section

variable {o : Outline} {meaning : AliasMeaning} {ctx : Context} {id : TypeId}

/-! ### Types in namespaces -/

/-- A namespace is known by the path of its dotted name. -/
theorem typeIn?_of_parts {s t : String} (h : Namespace.parts s = Namespace.parts t) (key : TypeKey) :
    o.typeIn? s key = o.typeIn? t key := by
  simp only [typeIn?, Library.lookupType?, Namespace.lookupType?, h]

/-- What is found in a namespace is declared there, under the key that is looked for. -/
theorem Findable.typeIn?_spec (h : o.Findable) {spaceName : String} {key : TypeKey}
    (hid : o.typeIn? spaceName key = some id) :
    (o.table.definition id).container = .namespace (Namespace.parts spaceName) ∧
      o.table.key id = key := by
  rcases Option.or_eq_some_iff.mp hid with hid | ⟨-, hid⟩
  · exact (h.places.of_find? hid).2
  · obtain ⟨hlt, hcontainer, hkey⟩ := Library.places.of_find? hid
    have hagrees := h.library.agrees id hlt
    exact ⟨hagrees.container.trans hcontainer, (SymbolTable.key_of_agrees hagrees).trans hkey⟩

/-- In the global namespace lies what the compilation declares there. -/
theorem WellFormed.typeIn?_global (h : WellFormed o) {key : TypeKey}
    (hfree : ∀ y ∈ o.root.placed [], y.path = [] → y.key ≠ key) : o.typeIn? "" key = none := by
  refine Option.eq_none_iff_forall_ne_some.mpr fun id hid => ?_
  rcases Option.or_eq_some_iff.mp hid with hid | ⟨-, hid⟩
  · exact hfree _ (Namespace.mem_placed_of_find? h.places.tabled _ [] hid) Namespace.parts_empty rfl
  · rw [Library.lookupType?, Namespace.lookupType?, Namespace.parts_empty] at hid
    have hplaced := Namespace.mem_placed_of_find? Library.places.tabled [] [] hid
    exact (Library.path_spec _ hplaced).1 rfl

/-! ### What a name denotes -/

/-- A dotted name of parts without arguments. -/
def plainName (names : List String) : TypeForm :=
  .name (names.map (.mk · []))

theorem spaceBound_cons (name : String) (rest : List String) :
    spaceBound (name :: rest) = (name, []) :: spaceBound rest :=
  rfl

theorem spaceBound_concat (names : List String) (name : String) :
    spaceBound (names ++ [name]) = spaceBound names ++ [(name, [])] :=
  List.map_append

theorem resolve_plainName (names : List String) :
    o.resolve ctx (plainName names) = o.bindName o.resolveAlias ctx (spaceBound names) := by
  rw [resolve, plainName, resolveWith, resolveParts_space]

/-- An unbound type is no declared type. -/
theorem unboundFrom_ne_definitionType (parts : List BoundPart) {outer : Option Ty}
    (houter : ∀ t, outer = some t → t.isUnbound = true) (pending : List String) :
    (unboundFrom outer pending parts).isUnbound = true := by
  induction parts generalizing outer pending with
  | nil =>
    cases pending with
    | nil =>
      cases outer with
      | none => rfl
      | some t => exact houter t rfl
    | cons name more => rfl
  | cons part rest ih =>
    obtain ⟨name, args⟩ := part
    rw [unboundFrom]
    split
    · exact ih houter _
    · exact ih (fun t ht => by cases ht; rfl) _

theorem isUnbound_unboundName (parts : List BoundPart) : (unboundName parts).isUnbound = true :=
  unboundFrom_ne_definitionType parts (fun t ht => by cases ht) []

theorem unboundName_ne_definitionType (parts : List BoundPart) (id : TypeId) :
    unboundName parts ≠ o.table.definitionType id := by
  intro h
  have hunbound := isUnbound_unboundName parts
  rw [h] at hunbound
  cases hunbound

/-- What stands for a lookup that found nothing is no declared type. -/
theorem fallback_ne_definitionType (parts : List BoundPart) (id : TypeId) :
    (match parts with
      | [("dynamic", [])] => (.ok .dynamic : Except BindError Ty)
      | _ => .ok (unboundName parts)) ≠ .ok (o.table.definitionType id) := by
  intro h
  split at h
  · cases h
  · exact unboundName_ne_definitionType parts id (Except.ok.inj h)

/-- A name of one part denotes a declared type if and only if its lookup comes to it. -/
theorem resolve_simple_iff {name : String} {id : TypeId} :
    o.resolve ctx (plainName [name]) = .ok (o.table.definitionType id) ↔
      o.lookupSimple o.resolveAlias ctx name 0 = .ok (some (o.table.definitionType id)) := by
  rw [resolve_plainName, spaceBound_cons, show spaceBound [] = [] from rfl, bindName]
  simp only [List.length_nil]
  generalize o.lookupSimple o.resolveAlias ctx name 0 = found
  rcases found with e | _ | t
  · simp
  · simp only [reduceCtorEq, Except.ok.injEq, iff_false]
    exact fallback_ne_definitionType [(name, [])] id
  · by_cases ht : t.declaration?.isSome = true
    · simp [ht, apply, Except.map]
    · simp [ht]

theorem bindName_dotted (first second : BoundPart) (rest : List BoundPart) :
    o.bindName meaning ctx (first :: second :: rest)
      = match o.lookupQualified meaning ctx first (second :: rest) with
        | .error e => .error e
        | .ok (some t) => .ok t
        | .ok none => .ok (unboundName (first :: second :: rest)) := by
  rw [bindName]
  · rcases o.lookupQualified meaning ctx first (second :: rest) with e | _ | t
    · rfl
    · simp
    · rfl
  · intro name args _ he
    cases he

/-- A name of several parts denotes a declared type if and only if its lookup comes to it. -/
theorem resolve_dotted_iff {first : String} {rest : List String} (hrest : rest ≠ [])
    {id : TypeId} :
    o.resolve ctx (plainName (first :: rest)) = .ok (o.table.definitionType id) ↔
      o.lookupQualified o.resolveAlias ctx (first, []) (spaceBound rest)
        = .ok (some (o.table.definitionType id)) := by
  obtain ⟨second, rest, rfl⟩ := List.exists_cons_of_ne_nil hrest
  rw [resolve_plainName, spaceBound_cons, spaceBound_cons, bindName_dotted]
  rcases o.lookupQualified o.resolveAlias ctx (first, []) ((second, []) :: spaceBound rest)
    with e | _ | t
  · simp
  · simp only [Except.ok.injEq, reduceCtorEq, iff_false]
    exact unboundName_ne_definitionType _ id
  · simp

/-! ### Lookups outside types -/

/-- Where no type and no method lies around, a name is looked for in the scopes alone. -/
theorem lookupSimple_outside (chain : ScopeChain) (name : String) :
    o.lookupSimple meaning { scopes := chain } name 0
      = match o.lookupInScopes meaning name 0 chain with
        | .error e => .error e
        | .ok (some t) => .ok (some t)
        | .ok none => .ok (nativeInteger? name) := by
  rw [lookupSimple]
  rfl

/-- A first part without colons that names no type with a declaration names namespaces. -/
theorem lookupQualified_outside {first : String} (hword : Text.endsIn first "::" = false)
    (chain : ScopeChain) (rest : List BoundPart) :
    o.lookupQualified meaning { scopes := chain } (first, []) rest
      = match o.lookupSimple meaning { scopes := chain } first 0 with
        | .error e => .error e
        | .ok found =>
          match found.filter (·.declaration?.isSome) with
          | some head => o.descend head rest
          | none => o.lookupPath true (o.namespacesNamed first chain) rest := by
  rw [lookupQualified, hword]
  rfl

/-- A native integer is a well-known type of another name. -/
theorem nativeInteger?_spec {name : String} {t : Ty} (h : nativeInteger? name = some t) :
    ∃ id : TypeId, t = .named (.declared id) none [] ∧
      id.index < Library.table.definitions.size ∧ (Library.table.definition id).name ≠ name := by
  rw [nativeInteger?] at h
  split at h
  · next hword =>
    obtain ⟨id, hid, hlt, hname⟩ := Library.native_spec name (by simpa using hword)
    rw [hid] at h
    exact ⟨id, (Option.some.inj h).symm, hlt, hname⟩
  · cases h

theorem nativeInteger?_eq_none_iff {name : String} :
    nativeInteger? name = none ↔ name ≠ "nint" ∧ name ≠ "nuint" := by
  constructor
  · rw [nativeInteger?]
    intro h
    refine ⟨fun he => ?_, fun he => ?_⟩
    all_goals
      obtain ⟨id, hid, -⟩ := Library.native_spec name (by simp [he])
      rw [if_pos (by simp [he]), hid] at h
      cases h
  · rintro ⟨hnint, hnuint⟩
    simp [nativeInteger?, hnint, hnuint]

/-- A native integer is a declared type. -/
theorem declaration?_nativeInteger? {name : String} {t : Ty} (h : nativeInteger? name = some t) :
    t.declaration?.isSome = true := by
  obtain ⟨id, rfl, -⟩ := nativeInteger?_spec h
  rfl

/-- A native integer is no type of that name. -/
theorem Findable.nativeInteger?_ne (h : o.Findable) {name : String}
    (hkey : o.table.key id = ⟨name, 0⟩) :
    nativeInteger? name ≠ some (o.table.definitionType id) := by
  intro hnative
  obtain ⟨other, he, hlt, hname⟩ := nativeInteger?_spec hnative
  simp only [SymbolTable.definitionType, Ty.named.injEq, TypeHead.declared.injEq] at he
  have hagrees := h.library.agrees other hlt
  rw [← he.1] at hagrees hname
  exact hname (hagrees.name.symm.trans (congrArg TypeKey.name hkey))

/-! ### Going down -/

/-- What lies below a type is nested in it. -/
theorem isSome_outer?_of_descend {t u : Ty} {steps : List BoundPart} (hsteps : steps ≠ [])
    (h : o.descend t steps = .ok (some u)) : u.outer?.isSome = true := by
  induction steps generalizing t with
  | nil => exact absurd rfl hsteps
  | cons step rest ih =>
    obtain ⟨name, args⟩ := step
    rw [descend] at h
    split at h
    · cases h
    · next inner hinner =>
      split at h
      · cases h
      · next v hv =>
        cases rest with
        | cons next rest => exact ih (List.cons_ne_nil _ _) h
        | nil =>
          cases h
          simp only [SymbolTable.definitionType, SymbolTable.construct] at hv
          split at hv
          · cases hv
            rfl
          · cases hv

/-- No type in a namespace lies below another type. -/
theorem descend_ne_topLevel {t : Ty} {steps : List BoundPart} (hsteps : steps ≠ [])
    (hid : o.table.lexicalOuter id = none) :
    o.descend t steps ≠ .ok (some (o.table.definitionType id)) := by
  intro h
  have houter := isSome_outer?_of_descend hsteps h
  rw [SymbolTable.definitionType, Ty.outer?, hid] at houter
  cases houter

/-- A first part that names a type leads to no type in a namespace. -/
theorem lookupQualified_typeHead {chain : ScopeChain} {head : Ty} {rest : List BoundPart}
    {id : TypeId} (hword : Text.endsIn first "::" = false)
    (hhead : o.lookupSimple meaning { scopes := chain } first 0 = .ok (some head))
    (hdeclared : head.declaration?.isSome = true) (hrest : rest ≠ [])
    (hid : o.table.lexicalOuter id = none) :
    o.lookupQualified meaning { scopes := chain } (first, []) rest
      ≠ .ok (some (o.table.definitionType id)) := by
  rw [lookupQualified_outside hword, hhead]
  simp only [Option.filter_some, hdeclared, ↓reduceIte]
  exact descend_ne_topLevel hrest hid

/-- A first part that names no type leads to the namespaces of that name. -/
theorem lookupQualified_spaceHead {chain : ScopeChain} {rest : List BoundPart}
    (hword : Text.endsIn first "::" = false)
    (hhead : o.lookupSimple meaning { scopes := chain } first 0 = .ok none) :
    o.lookupQualified meaning { scopes := chain } (first, []) rest
      = o.lookupPath true (o.namespacesNamed first chain) rest := by
  rw [lookupQualified_outside hword, hhead]
  rfl

/-! ### Paths below namespaces -/

/-- The dotted name that some names have below a namespace. -/
def pathName (top : String) (names : List String) : String :=
  ".".intercalate ((if top = "" then [] else [top]) ++ names)

theorem parts_pathName (top : String) {names : List String} (h : Namespace.Segmented names) :
    Namespace.parts (pathName top names) = Namespace.parts top ++ names := by
  rw [pathName]
  split
  · next htop =>
    rw [htop, Namespace.parts_empty, List.nil_append]
    exact Namespace.parts_qualifiedName h
  · exact Namespace.parts_intercalate_cons top h

theorem pathName_nil (top : String) : pathName top [] = top := by
  rw [pathName]
  split
  · next h => rw [h]; rfl
  · exact String.intercalate_singleton

/-- Reading the last part as a type. -/
theorem lookupSplit_last (top : String) (names : List String) (name : String) :
    o.lookupSplit true top (spaceBound names, (name, []), [])
      = .ok ((o.typeIn? (pathName top names) ⟨name, 0⟩).map o.table.definitionType) := by
  have hplain : ((spaceBound names).any fun p => !p.2.isEmpty) = false := by
    simp [spaceBound]
  rw [lookupSplit_rooted, lookupSplit]
  simp only [hplain, Bool.false_eq_true, ↓reduceIte, Bool.false_and, map_fst_spaceBound,
    List.length_nil]
  rw [← pathName]
  cases o.typeIn? (pathName top names) ⟨name, 0⟩ <;> rfl

/-- Only the last part of a path can be a type in a namespace. -/
theorem lookupSplit_topLevel {top : String} {names : List String} {name : String}
    {split : List BoundPart × BoundPart × List BoundPart}
    (hsplit : split ∈ splits (spaceBound (names ++ [name])))
    (hid : o.table.lexicalOuter id = none)
    (h : o.lookupSplit true top split = .ok (some (o.table.definitionType id))) :
    o.typeIn? (pathName top names) ⟨name, 0⟩ = some id := by
  obtain ⟨front, ⟨head, args⟩, back⟩ := split
  have hparts := append_of_mem_splits hsplit
  cases back with
  | nil =>
    rw [spaceBound_concat] at hparts
    obtain ⟨rfl, hlast⟩ := List.append_inj' hparts rfl
    cases hlast
    rw [lookupSplit_last, Except.ok.injEq] at h
    obtain ⟨found, hfound, heq⟩ := Option.map_eq_some_iff.mp h
    rw [hfound, SymbolTable.definitionType_injective heq]
  | cons next back =>
    rw [lookupSplit_rooted, lookupSplit] at h
    simp only [Bool.false_and, Bool.false_eq_true, ↓reduceIte] at h
    generalize ".".intercalate ((if top = "" then [] else [top]) ++ front.map (·.1)) = spaceName
      at h
    split at h
    · cases h
    · split at h
      · cases h
      · split at h
        · cases h
        · exact absurd h (descend_ne_topLevel (List.cons_ne_nil next back) hid)

theorem mem_of_firstFound {α : Type} {f : α → Except BindError (Option Ty)} {candidates : List α}
    {t : Ty} (h : firstFound f candidates = .ok (some t)) : ∃ a ∈ candidates, f a = .ok (some t) := by
  induction candidates with
  | nil => cases h
  | cons a rest ih =>
    rw [firstFound] at h
    split at h
    · obtain ⟨b, hb, hfb⟩ := ih h
      exact ⟨b, List.mem_cons_of_mem a hb, hfb⟩
    · exact ⟨a, List.mem_cons_self, h⟩

/-- **A path that leads to a type in a namespace names that namespace below one of the candidates.** -/
theorem lookupPath_topLevel {tops : List String} {names : List String} {name : String}
    (hid : o.table.lexicalOuter id = none)
    (h : o.lookupPath true tops (spaceBound (names ++ [name]))
      = .ok (some (o.table.definitionType id))) :
    ∃ top ∈ tops, o.typeIn? (pathName top names) ⟨name, 0⟩ = some id := by
  obtain ⟨top, htop, hinner⟩ := mem_of_firstFound h
  obtain ⟨split, hsplit, hfound⟩ := mem_of_firstFound hinner
  exact ⟨top, htop, lookupSplit_topLevel hsplit hid hfound⟩

/-- The way to read a path that has all parts but the last one in front is tried first. -/
theorem splits_concat (names : List String) (name : String) :
    ∃ shorter, splits (spaceBound (names ++ [name]))
      = (spaceBound names, (name, []), []) :: shorter := by
  obtain ⟨longer, shorter, hsplits, hlonger⟩ := splits_append (spaceBound names) (name, []) []
  have hnil : longer = [] := by
    refine List.eq_nil_iff_forall_not_mem.mpr fun s hs => ?_
    obtain ⟨between, -, hback⟩ := hlonger s hs
    simp at hback
  rw [hnil, List.nil_append] at hsplits
  refine ⟨shorter, ?_⟩
  rw [spaceBound_concat]
  exact hsplits

/-- A path leads to the type that the namespace of its first candidate holds. -/
theorem lookupPath_of_typeIn? {top : String} {names : List String} {name : String}
    (h : o.typeIn? (pathName top names) ⟨name, 0⟩ = some id) (others : List String) :
    o.lookupPath true (top :: others) (spaceBound (names ++ [name]))
      = .ok (some (o.table.definitionType id)) := by
  obtain ⟨shorter, hsplits⟩ := splits_concat names name
  have hfirst : firstFound (o.lookupSplit true top) (splits (spaceBound (names ++ [name])))
      = .ok (some (o.table.definitionType id)) := by
    rw [hsplits, firstFound, lookupSplit_last, h]
    rfl
  rw [lookupPath, firstFound, hfirst]

/-- A single part is looked for in one namespace after the other. -/
theorem lookupPath_last (tops : List String) (name : String) :
    o.lookupPath true tops [(name, [])]
      = .ok ((tops.findSome? (o.typeIn? · ⟨name, 0⟩)).map o.table.definitionType) := by
  induction tops with
  | nil => rfl
  | cons top tops ih =>
    have hone : firstFound (o.lookupSplit true top) (splits [(name, [])])
        = .ok ((o.typeIn? top ⟨name, 0⟩).map o.table.definitionType) := by
      have hsplit := o.lookupSplit_last top [] name
      rw [pathName_nil] at hsplit
      rw [splits_cons, show splits [] = [] from rfl, List.map_nil, List.nil_append, firstFound,
        show o.lookupSplit true top ([], (name, []), []) = _ from hsplit]
      cases o.typeIn? top ⟨name, 0⟩ <;> rfl
    rw [lookupPath, firstFound, hone, List.findSome?_cons]
    cases o.typeIn? top ⟨name, 0⟩ with
    | none => exact ih
    | some id => rfl

end

end Binding.Outline

end ExtensionCensus
