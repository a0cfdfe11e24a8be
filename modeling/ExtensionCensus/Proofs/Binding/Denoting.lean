import ExtensionCensus.Proofs.Binding.Corresponding
import ExtensionCensus.Proofs.Symbol.Places

/-!
# Types at corresponding places

What is written denotes the same type at the same place of two outlines that correspond, up to where
the declared types are.

* `unboundName_rename` — names without a meaning keep their spelling;
* `matches_bindName`, `matches_nullableOf`, `matches_tupleOf` — the steps of resolution;
* `matches_resolveWith` — **all written types whose names are known**;
* `sameMeaning_resolveAlias` — names of using directives;
* `matches_resolveOptional` — what a signature may write.
-/

namespace ExtensionCensus.Binding.Outline

open Source (TypeForm NamePart namesOfForms namesOfParts)

section

variable {r : Renaming} {Known : String → Prop} {a b : Outline} {allowed : TypeParameterRef → Prop}

/-! ### Unbound names -/

theorem rename_unboundType (name : String) (args : List Ty) (outer : Option Ty) :
    (unboundType name args outer).rename r
      = unboundType name (args.map (Ty.rename r)) (outer.map (Ty.rename r)) := by
  rw [unboundType, unboundType, Ty.rename_named]
  rfl

theorem unboundFrom_rename (outer : Option Ty) (pending : List String) (parts : List BoundPart) :
    unboundFrom (outer.map (Ty.rename r)) pending (parts.map (renamePart r))
      = (unboundFrom outer pending parts).rename r := by
  induction parts generalizing outer pending with
  | nil =>
    cases pending with
    | nil =>
      cases outer with
      | none => exact (rename_unboundType _ [] none).symm
      | some t => rfl
    | cons name names => cases outer <;> exact (rename_unboundType _ [] _).symm
  | cons part rest ih =>
    obtain ⟨name, args⟩ := part
    rw [List.map_cons, renamePart, unboundFrom, unboundFrom, List.isEmpty_map]
    split
    · exact ih outer _
    · rw [← rename_unboundType, ← Option.map_some]
      exact ih _ []

/-- A name without a meaning keeps its spelling. -/
theorem unboundName_rename (parts : List BoundPart) :
    unboundName (parts.map (renamePart r)) = (unboundName parts).rename r :=
  unboundFrom_rename none [] parts

theorem headed_unboundFrom {outer : Option Ty} (houter : ∀ t ∈ outer, Headed a allowed t)
    (pending : List String) (parts : List BoundPart) :
    Headed a allowed (unboundFrom outer pending parts) := by
  induction parts generalizing outer pending with
  | nil =>
    cases pending with
    | nil =>
      cases outer with
      | none => exact headed_unboundType _ _ _
      | some t => exact houter t rfl
    | cons name names => cases outer <;> exact headed_unboundType _ _ _
  | cons part rest ih =>
    obtain ⟨name, args⟩ := part
    rw [unboundFrom]
    split
    · exact ih houter _
    · refine ih (fun t ht => ?_) []
      cases ht
      exact headed_unboundType _ _ _

theorem headed_dynamic : Headed a allowed .dynamic :=
  ⟨fun _ h => (by cases h), fun _ h => (by cases h)⟩

theorem matches_dynamic : Matches r (Headed a allowed) (.ok .dynamic) (.ok .dynamic) := by
  have h : Matches r (Headed a allowed) (.ok .dynamic) (.ok (Ty.dynamic.rename r)) :=
    .ok headed_dynamic
  rwa [Ty.rename_dynamic] at h

theorem matches_unbound (name : String) : Matches r (Headed a allowed)
    (.ok (unboundType name [] none)) (.ok (unboundType name [] none)) := by
  have h : Matches r (Headed a allowed) (.ok (unboundType name [] none))
      (.ok ((unboundType name [] none).rename r)) := .ok (headed_unboundType _ _ _)
  rwa [rename_unboundType] at h

/-- A keyword names the same type everywhere. -/
theorem matches_keywordType (hc : Corresponds r Known a b) (word : String) :
    Matches r (Headed a allowed) (.ok (keywordType word)) (.ok (keywordType word)) := by
  rw [keywordType]
  split
  · exact matches_dynamic
  · cases h : Library.specialType? word with
    | none => exact matches_unbound word
    | some t =>
      obtain ⟨hsame, hheaded⟩ := specialType?_spec hc h
      have hmatches : Matches r (Headed a allowed) (.ok t) (.ok (t.rename r)) := .ok hheaded
      rwa [hsame] at hmatches

/-! ### Dotted names -/

section

variable {meaning meaning' : AliasMeaning} {ctx ctx' : Context}

/-- Where nothing is found a name without arguments may still be `dynamic`, else it has no meaning. -/
theorem matches_unfound (parts : List BoundPart) : Matches r (Headed a allowed)
    (match parts with
      | [("dynamic", [])] => .ok .dynamic
      | _ => .ok (unboundName parts))
    (match parts.map (renamePart r) with
      | [("dynamic", [])] => .ok .dynamic
      | _ => .ok (unboundName (parts.map (renamePart r)))) := by
  have hunbound : Matches r (Headed a allowed) (.ok (unboundName parts))
      (.ok (unboundName (parts.map (renamePart r)))) := by
    rw [unboundName_rename]
    exact .ok (headed_unboundFrom (fun t ht => (by cases ht)) [] parts)
  by_cases hdynamic : parts = [("dynamic", [])]
  · subst hdynamic
    exact matches_dynamic
  · have hdynamic' : parts.map (renamePart r) ≠ [("dynamic", [])] := by
      intro h
      cases parts with
      | nil => cases h
      | cons part rest =>
        obtain ⟨name, args⟩ := part
        simp only [List.map_cons, renamePart, List.cons.injEq, Prod.mk.injEq, List.map_eq_nil_iff]
          at h
        obtain ⟨⟨rfl, rfl⟩, rfl⟩ := h
        exact hdynamic rfl
    split
    · exact absurd rfl hdynamic
    · exact hunbound

/-- What the lookup of a dotted name finds. -/
def foundName (o : Outline) (meaning : AliasMeaning) (ctx : Context) :
    List BoundPart → Except BindError (Option Ty)
  | [] => .ok none
  | [(name, args)] =>
    match o.lookupSimple meaning ctx name args.length with
    | .ok (some t) => if t.declaration?.isSome then (o.apply t args).map some else .ok (some t)
    | other => other
  | first :: rest => o.lookupQualified meaning ctx first rest

theorem bindName_eq (o : Outline) (meaning : AliasMeaning) (ctx : Context)
    (parts : List BoundPart) : o.bindName meaning ctx parts
      = match o.foundName meaning ctx parts with
        | .error e => .error e
        | .ok (some t) => .ok t
        | .ok none =>
          match parts with
          | [("dynamic", [])] => .ok .dynamic
          | _ => .ok (unboundName parts) := by
  match parts with
  | [] => rfl
  | [_] => rfl
  | _ :: _ :: _ => rfl

theorem finds_foundName (hc : Corresponds r Known a b)
    (hm : SameMeaning r Known a b (Headed a allowed) meaning meaning')
    (hp : SamePlace r Known a b ctx ctx') (hallowed : ∀ p ∈ a.visibleParameters ctx, allowed p)
    {parts : List BoundPart} (hparts : ∀ part ∈ parts, Known part.1) :
    Finds r (Headed a allowed) (a.foundName meaning ctx parts)
      (b.foundName meaning' ctx' (parts.map (renamePart r))) := by
  match parts, hparts with
  | [], _ => exact .none
  | [(name, args)], hparts =>
    have hsimple := finds_lookupSimple hc hm hp hallowed (hparts _ List.mem_cons_self) args.length
    simp only [List.map_cons, List.map_nil, renamePart, foundName, List.length_map]
    generalize a.lookupSimple meaning ctx name args.length = found at hsimple ⊢
    generalize b.lookupSimple meaning' ctx' name args.length = found' at hsimple ⊢
    cases hsimple with
    | error e => exact .error e
    | none => exact .none
    | @some t ht =>
      simp only [Ty.declaration?_rename, Option.isSome_map]
      split
      · have happly := matches_apply hc ht args
        generalize a.apply t args = head at happly ⊢
        generalize b.apply (t.rename r) (args.map (Ty.rename r)) = head' at happly ⊢
        cases happly with
        | error e => exact .error e
        | ok hhead => exact .some hhead
      · exact .some ht
  | first :: second :: rest, hparts =>
    exact finds_lookupQualified hc hm hp hallowed (hparts _ List.mem_cons_self) fun part hpart =>
      hparts part (List.mem_cons_of_mem _ hpart)

/-- Dotted names denote the same. -/
theorem matches_bindName (hc : Corresponds r Known a b)
    (hm : SameMeaning r Known a b (Headed a allowed) meaning meaning')
    (hp : SamePlace r Known a b ctx ctx') (hallowed : ∀ p ∈ a.visibleParameters ctx, allowed p)
    {parts : List BoundPart} (hparts : ∀ part ∈ parts, Known part.1) :
    Matches r (Headed a allowed) (a.bindName meaning ctx parts)
      (b.bindName meaning' ctx' (parts.map (renamePart r))) := by
  have hfound := finds_foundName hc hm hp hallowed hparts
  rw [bindName_eq, bindName_eq]
  generalize a.foundName meaning ctx parts = found at hfound ⊢
  generalize b.foundName meaning' ctx' (parts.map (renamePart r)) = found' at hfound ⊢
  cases hfound with
  | error e => exact .error e
  | some ht => exact .ok ht
  | none => exact matches_unfound parts

end

/-! ### Shapes of types -/

/-- The types of the library that resolution itself uses. -/
theorem libraryType_spec (hc : Corresponds r Known a b) {space : String} {key : TypeKey}
    {id : TypeId} (h : Library.lookupType? space key = some id) :
    id.index < a.table.definitions.size ∧ r.type id = id := by
  have hlt := (Library.places.of_find? h).1
  exact ⟨Nat.lt_of_lt_of_le hlt hc.library_le, hc.library hlt⟩

theorem matches_construct_library (hc : Corresponds r Known a b) {space : String} {key : TypeKey}
    {id : TypeId} (h : Library.lookupType? space key = some id) (args : List Ty) :
    Matches r (Headed a allowed)
      ((a.table.construct (a.table.definitionType id) args none).mapError .construct)
      ((b.table.construct (b.table.definitionType id) (args.map (Ty.rename r)) none).mapError
        .construct) := by
  obtain ⟨hlt, hsame⟩ := libraryType_spec hc h
  have hdefinition : Headed a allowed (a.table.definitionType id) := headed_definitionType hlt
  have hconstruct := matches_construct hc hdefinition args none
  rw [← hc.definitionType hlt, hsame] at hconstruct
  exact hconstruct

theorem isNullable_rename (hc : Corresponds r Known a b) {t : Ty} (ht : Headed a allowed t) :
    Library.isNullable (t.rename r) = Library.isNullable t := by
  rw [Library.isNullable, Library.isNullable, Ty.declaration?_rename]
  cases hid : t.declaration? with
  | none => rfl
  | some id =>
    simp only [Option.map_some]
    cases hnullable : Library.nullable? with
    | none => rfl
    | some wrapper =>
      obtain ⟨hlt, hsame⟩ := libraryType_spec hc hnullable
      have hiff : r.type id = wrapper ↔ id = wrapper := by
        refine ⟨fun h => ?_, fun h => h ▸ hsame⟩
        exact hc.injective (ht.declared id hid) hlt (h.trans hsame.symm)
      simp only [Option.some.injEq, hiff]

theorem isValueType_rename (hc : Corresponds r Known a b)
    (hvalue : ∀ p, allowed p →
      (b.table.typeParameter (r.parameter p)).isValue = (a.table.typeParameter p).isValue)
    {t : Ty} (ht : Headed a allowed t) :
    b.table.isValueType (t.rename r) = a.table.isValueType t := by
  cases t with
  | named head outer args =>
    cases head with
    | declared id =>
      rw [Ty.rename_named]
      exact congrArg DefinitionKind.isValue (hc.kind (ht.declared id rfl))
    | unbound name => rw [Ty.rename_named]; rfl
  | parameter p =>
    rw [Ty.rename_parameter]
    exact hvalue p (ht.parameter p rfl)
  | array element rank => rw [Ty.rename_array]; rfl
  | pointer target => rw [Ty.rename_pointer]; rfl
  | dynamic => rw [Ty.rename_dynamic]; rfl
  | functionPointer signature => rw [Ty.rename_functionPointer]; rfl

theorem matches_nullableOf (hc : Corresponds r Known a b)
    (hvalue : ∀ p, allowed p →
      (b.table.typeParameter (r.parameter p)).isValue = (a.table.typeParameter p).isValue)
    {t : Ty} (ht : Headed a allowed t) :
    Matches r (Headed a allowed) (a.nullableOf t) (b.nullableOf (t.rename r)) := by
  rw [nullableOf, nullableOf, isValueType_rename hc hvalue ht, isNullable_rename hc ht]
  split
  · cases hid : Library.nullable? with
    | none => exact .ok ht
    | some id => exact matches_construct_library hc hid [t]
  · exact .ok ht

theorem matches_tupleOf (hc : Corresponds r Known a b) (elements : List Ty) (written : String) :
    Matches r (Headed a allowed) (a.tupleOf elements written)
      (b.tupleOf (elements.map (Ty.rename r)) written) := by
  rw [tupleOf_eq, tupleOf_eq, List.length_map]
  cases hid : Library.valueTuple? elements.length with
  | none => exact matches_unbound written
  | some id =>
    by_cases hmany : elements.length > 7
    · simp only [hmany, ↓reduceIte]
      exact matches_unbound written
    · simp only [hmany, ↓reduceIte]
      exact matches_construct_library hc hid elements

/-- What is no named type and no type parameter needs no declaration. -/
theorem Headed.of_shape {t : Ty} (hn : t.isNamed = false) (hp : ∀ p, t ≠ .parameter p) :
    Headed a allowed t := by
  refine ⟨fun id hid => ?_, fun p h => absurd h (hp p)⟩
  cases t with
  | named head outer args => cases hn
  | _ => cases hid

theorem matches_ranks {t : Ty} (ht : Headed a allowed t) (ranks : List Nat) :
    Matches r (Headed a allowed) (.ok (ranks.foldl .array t))
      (.ok (ranks.foldl .array (t.rename r))) := by
  induction ranks generalizing t with
  | nil => exact .ok ht
  | cons rank rest ih =>
    have harray : Headed a allowed (.array t rank) := .of_shape rfl fun p h => (by cases h)
    have hrest := ih harray
    rwa [Ty.rename_array] at hrest

/-! ### Written types -/

section

variable {meaning meaning' : AliasMeaning} {ctx ctx' : Context}

theorem known_of_resolveParts (o : Outline) {parts : List NamePart} {bound : List BoundPart}
    (h : o.resolveParts meaning ctx parts = .ok bound)
    (hknown : ∀ name ∈ namesOfParts parts, Known name) : ∀ part ∈ bound, Known part.1 := by
  induction parts generalizing bound with
  | nil =>
    rw [resolveParts] at h
    cases h
    intro part hpart
    cases hpart
  | cons part rest ih =>
    obtain ⟨name, args⟩ := part
    rw [resolveParts] at h
    split at h
    · cases h
    · next first hfirst =>
      obtain ⟨others, hothers, rfl⟩ := ok_of_map h
      rw [resolvePart] at hfirst
      obtain ⟨ts, -, rfl⟩ := ok_of_map hfirst
      intro other hother
      rw [namesOfParts, NamePart.names] at hknown
      rcases List.mem_cons.mp hother with rfl | hother
      · exact hknown name (by simp)
      · exact ih hothers (fun n hn => hknown n (List.mem_append_right _ hn)) other hother

mutual

/-- **A written type whose names are known denotes the same at the same place.** -/
theorem matches_resolveWith (hc : Corresponds r Known a b)
    (hm : SameMeaning r Known a b (Headed a (· ∈ a.visibleParameters ctx)) meaning meaning')
    (hp : SamePlace r Known a b ctx ctx') : ∀ form : TypeForm,
    (∀ name ∈ form.names, Known name) →
      Matches r (Headed a (· ∈ a.visibleParameters ctx)) (a.resolveWith meaning ctx form)
        (b.resolveWith meaning' ctx' form)
  | .missing, _ => by
    rw [resolveWith, resolveWith]
    exact .error _
  | .predefined word, _ => by
    rw [resolveWith, resolveWith]
    exact matches_keywordType hc word
  | .name parts, hknown => by
    rw [TypeForm.names] at hknown
    rw [resolveWith, resolveWith, resolveParts_eq hc hm hp parts hknown]
    cases hbound : a.resolveParts meaning ctx parts with
    | error e => exact .error e
    | ok bound =>
      exact matches_bindName hc hm hp (fun _ h => h) (known_of_resolveParts a hbound hknown)
  | .nullable underlying, hknown => by
    have hunderlying := matches_resolveWith hc hm hp underlying hknown
    rw [resolveWith, resolveWith]
    generalize a.resolveWith meaning ctx underlying = x at hunderlying ⊢
    generalize b.resolveWith meaning' ctx' underlying = y at hunderlying ⊢
    cases hunderlying with
    | error e => exact .error e
    | ok ht => exact matches_nullableOf hc hp.isValue ht
  | .array element ranks, hknown => by
    have helement := matches_resolveWith hc hm hp element hknown
    rw [resolveWith, resolveWith]
    generalize a.resolveWith meaning ctx element = x at helement ⊢
    generalize b.resolveWith meaning' ctx' element = y at helement ⊢
    cases helement with
    | error e => exact .error e
    | ok ht => exact matches_ranks ht ranks
  | .pointer target, hknown => by
    have htarget := matches_resolveWith hc hm hp target hknown
    rw [resolveWith, resolveWith]
    generalize a.resolveWith meaning ctx target = x at htarget ⊢
    generalize b.resolveWith meaning' ctx' target = y at htarget ⊢
    cases htarget with
    | error e => exact .error e
    | @ok t ht =>
      have h : Matches r (Headed a (· ∈ a.visibleParameters ctx)) (.ok (.pointer t))
          (.ok ((Ty.pointer t).rename r)) := .ok (.of_shape rfl fun p h => (by cases h))
      rwa [Ty.rename_pointer] at h
  | .functionPointer signature, _ => by
    rw [resolveWith, resolveWith, functionPointerType]
    have h : Matches r (Headed a (· ∈ a.visibleParameters ctx))
        (.ok (.functionPointer (Text.collapse signature)))
        (.ok ((Ty.functionPointer (Text.collapse signature)).rename r)) :=
      .ok (.of_shape rfl fun p h => (by cases h))
    rwa [Ty.rename_functionPointer] at h
  | .tuple elements written, hknown => by
    rw [resolveWith, resolveWith, resolveList_eq hc hm hp elements hknown]
    cases a.resolveList meaning ctx elements with
    | error e => exact .error e
    | ok ts => exact matches_tupleOf hc ts written
  | .wrapped inner, hknown => by
    rw [resolveWith, resolveWith]
    exact matches_resolveWith hc hm hp inner hknown
  | .inferred, _ => by
    rw [resolveWith, resolveWith]
    exact matches_unbound _
  | .other kind text, _ => by
    rw [resolveWith, resolveWith]
    exact matches_unbound _

theorem resolveList_eq (hc : Corresponds r Known a b)
    (hm : SameMeaning r Known a b (Headed a (· ∈ a.visibleParameters ctx)) meaning meaning')
    (hp : SamePlace r Known a b ctx ctx') : ∀ forms : List TypeForm,
    (∀ name ∈ namesOfForms forms, Known name) →
      b.resolveList meaning' ctx' forms
        = (a.resolveList meaning ctx forms).map (List.map (Ty.rename r))
  | [], _ => by
    rw [resolveList, resolveList]
    rfl
  | form :: rest, hknown => by
    rw [namesOfForms] at hknown
    have hform := matches_resolveWith hc hm hp form fun n hn => hknown n (List.mem_append_left _ hn)
    have hrest := resolveList_eq hc hm hp rest fun n hn => hknown n (List.mem_append_right _ hn)
    rw [resolveList, resolveList, hform.eq, hrest]
    cases a.resolveWith meaning ctx form with
    | error e => rfl
    | ok t => cases a.resolveList meaning ctx rest <;> rfl

theorem resolvePart_eq (hc : Corresponds r Known a b)
    (hm : SameMeaning r Known a b (Headed a (· ∈ a.visibleParameters ctx)) meaning meaning')
    (hp : SamePlace r Known a b ctx ctx') : ∀ part : NamePart,
    (∀ name ∈ part.names, Known name) →
      b.resolvePart meaning' ctx' part = (a.resolvePart meaning ctx part).map (renamePart r)
  | .mk name args, hknown => by
    rw [NamePart.names] at hknown
    have hargs := resolveList_eq hc hm hp args fun n hn => hknown n (List.mem_cons_of_mem _ hn)
    rw [resolvePart, resolvePart, hargs]
    cases a.resolveList meaning ctx args <;> rfl

theorem resolveParts_eq (hc : Corresponds r Known a b)
    (hm : SameMeaning r Known a b (Headed a (· ∈ a.visibleParameters ctx)) meaning meaning')
    (hp : SamePlace r Known a b ctx ctx') : ∀ parts : List NamePart,
    (∀ name ∈ namesOfParts parts, Known name) →
      b.resolveParts meaning' ctx' parts
        = (a.resolveParts meaning ctx parts).map (List.map (renamePart r))
  | [], _ => by
    rw [resolveParts, resolveParts]
    rfl
  | part :: rest, hknown => by
    rw [namesOfParts] at hknown
    have hpart := resolvePart_eq hc hm hp part fun n hn => hknown n (List.mem_append_left _ hn)
    have hrest := resolveParts_eq hc hm hp rest fun n hn => hknown n (List.mem_append_right _ hn)
    rw [resolveParts, resolveParts, hpart, hrest]
    cases a.resolvePart meaning ctx part with
    | error e => rfl
    | ok bound => cases a.resolveParts meaning ctx rest <;> rfl

end

end

/-! ### Whole types -/

/-- Outside every type and method no type parameter can be named. -/
theorem samePlace_of_scopes {chain chain' : ScopeChain} (h : SameChain Known a b chain chain') :
    SamePlace r Known a b { scopes := chain } { scopes := chain' } where
  scopes := h
  enclosing := rfl
  enclosing_lt _ hid := by cases hid
  method := rfl
  methodParameters _ hm := by cases hm
  name _ hp := by simp [visibleParameters] at hp
  isValue _ hp := by simp [visibleParameters] at hp

/-- **A name of a using directive denotes the same.** -/
theorem sameMeaning_resolveAlias (hc : Corresponds r Known a b) :
    SameMeaning r Known a b (Headed a allowed) a.resolveAlias b.resolveAlias := by
  intro x y hxy
  have hnone : SameMeaning r Known a b (Headed a (· ∈ a.visibleParameters { scopes := x.scopes }))
      noAliases noAliases := fun _ _ _ => .none
  have htarget := matches_resolveWith hc hnone (samePlace_of_scopes hxy.scopes) x.target hxy.known
  rw [resolveAlias, resolveAlias, hxy.target]
  generalize a.resolveWith noAliases { scopes := x.scopes } x.target = u at htarget ⊢
  generalize b.resolveWith noAliases { scopes := y.scopes } x.target = v at htarget ⊢
  cases htarget with
  | error e => exact .error e
  | @ok t ht =>
    simp only [Ty.isUnbound_rename]
    split
    · exact .none
    · refine .some (ht.mono fun p hp => ?_)
      simp [visibleParameters] at hp

/-- A type that may be written denotes the same. -/
theorem matches_resolveOptional (hc : Corresponds r Known a b) {ctx ctx' : Context}
    (hp : SamePlace r Known a b ctx ctx') {form : Option TypeForm}
    (hknown : ∀ t ∈ form, ∀ name ∈ t.names, Known name) :
    Matches r (Headed a (· ∈ a.visibleParameters ctx)) (a.resolveOptional ctx form)
      (b.resolveOptional ctx' form) := by
  cases form with
  | some form => exact matches_resolveWith hc (sameMeaning_resolveAlias hc) hp form (hknown form rfl)
  | none =>
    rw [resolveOptional, resolveOptional, Library.voidType]
    cases h : Library.specialType? "void" with
    | none => exact matches_dynamic
    | some t =>
      obtain ⟨hsame, hheaded⟩ := specialType?_spec hc h
      have hmatches : Matches r (Headed a (· ∈ a.visibleParameters ctx)) (.ok t)
          (.ok (t.rename r)) := .ok hheaded
      rwa [hsame] at hmatches

end

end ExtensionCensus.Binding.Outline
