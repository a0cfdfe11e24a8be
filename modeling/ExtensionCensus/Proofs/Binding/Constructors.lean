import ExtensionCensus.Proofs.Binding.Entries
import ExtensionCensus.Proofs.Extension.Partners

/-!
# The constructors that types have without declaring them

A struct has a constructor without parameters, and a class has some constructor, whether a part declares
it or not.  What all parts of a type say together decides which one is added, once all of them are bound.

* `Accumulates`, `Reaches.traitOfParts` — a type is static, or abstract, as soon as one of its parts
  says so;
* `Passes.traits` — the second pass keeps it so;
* `constructorParameters`, `Passes.constructors` — **the constructors that a type lists before it is
  completed are those that its parts declare**;
* `dueConstructor?`, `Passes.implicitConstructor?_eq` — **what is added is told by the parts**;
* `members_foldl_finish_of_mem` — every type is completed once;
* `compile_constructors` — **types are given constructors exactly when these are due**.
-/

namespace ExtensionCensus.Binding

open Source (MethodForm ParameterForm Modifiers TypeDeclaration Node namedLeaf namedNode bytesOf)

namespace Outline

section

variable {o o' a b : Outline} {made : List Made} {id : TypeId} {part : DeclaredPart}

/-! ### What one part says for all -/

/-- A trait that a type has as soon as one of its parts says so. -/
structure Accumulates (trait : Traits → Bool) (word : Modifiers → Bool) : Prop where
  blank : trait (default : TypeDefinition).traits = false
  first : ∀ m access, trait (firstTraits m access) = word m
  again : ∀ m t, trait (Traits.addPart m t) = (trait t || word m)

theorem accumulates_isStatic : Accumulates (·.isStatic) (·.isStatic) :=
  ⟨rfl, fun _ _ => rfl, fun _ _ => rfl⟩

theorem accumulates_isAbstract : Accumulates (·.isAbstract) (·.isAbstract) :=
  ⟨rfl, fun _ _ => rfl, fun _ _ => rfl⟩

variable {trait : Traits → Bool} {word : Modifiers → Bool}

/-- The types of the compilation have the trait if any of their parts says so. -/
def TraitOfParts (trait : Traits → Bool) (word : Modifiers → Bool) (o : Outline) : Prop :=
  ∀ id : TypeId, Library.table.definitions.size ≤ id.index →
    trait (o.table.definition id).traits = (o.partsOf id).any (word ·.form.modifiers)

theorem TraitOfParts.congr (h : TraitOfParts trait word a) (htable : b.table = a.table)
    (hparts : b.parts = a.parts) : TraitOfParts trait word b := fun id hle => by
  rw [htable, partsOf, hparts]
  exact h id hle

theorem traitOfParts_empty (h : Accumulates trait word) (implicitUsings : Bool) :
    TraitOfParts trait word { implicitUsings } := fun id hle => by
  rw [SymbolTable.definition_of_size_le hle]
  exact h.blank

theorem TraitOfParts.addPart {chain : ScopeChain} {enclosing : List TypeId} {d : TypeDeclaration}
    (h : Accumulates trait word) (ho : Outlined o) (ht : TraitOfParts trait word o)
    (ha : o.Around enclosing) : TraitOfParts trait word (o.addPart chain enclosing d) := by
  intro id hle
  have hw := ho.toWellFormed
  have hold := ht id hle
  have hdefines : DefinesPart o.table (o.addPart chain enclosing d).table enclosing d
      (o.declarePart chain enclosing d).2 := definesPart_addPart hw ha
  rw [partsOf_addPart, List.any_append, ← hold]
  cases hdefines with
  | again _ _ hsame hothers =>
    by_cases he : (o.declarePart chain enclosing d).2 = id
    · rw [if_pos he, ← he, hsame, List.any_cons, List.any_nil, Bool.or_false]
      exact h.again _ _
    · rw [if_neg he, List.any_nil, Bool.or_false, hothers id (Ne.symm he)]
  | first hid hsize hnew _ hothers =>
    by_cases he : (o.declarePart chain enclosing d).2 = id
    · rw [if_pos he, hold, ← he, hnew, hid, hw.partsOf_nextType, List.any_nil, Bool.false_or,
        List.any_cons, List.any_nil, Bool.or_false]
      exact h.first _ _
    · rw [if_neg he, List.any_nil, Bool.or_false]
      by_cases hlt : id.index < o.table.definitions.size
      · obtain ⟨members, hdef⟩ := hothers id hlt
        rw [hdef]
      · -- no definition is there yet, before and after
        have hne : id ≠ o.table.nextType := fun hnext => he (hid.trans hnext.symm)
        rw [Ne, SymbolTable.eq_nextType_iff] at hne
        rw [SymbolTable.definition_of_size_le (by omega),
          SymbolTable.definition_of_size_le (Nat.le_of_not_lt hlt)]

/-- **A type of the compilation has such a trait exactly if some part of it says so.** -/
theorem Reaches.traitOfParts (h : Accumulates trait word) (hr : Reaches a b) (ho : Outlined a)
    (ht : TraitOfParts trait word a) : TraitOfParts trait word b := by
  induction hr with
  | start => exact ht
  | rescoped _ hc ih => exact ih.congr hc.table hc.parts
  | opened _ _ ih => exact ih.congr rfl rfl
  | part hb chain henclosing d ih => exact ih.addPart h (hb.outlined ho) henclosing

theorem traitOfParts_ofFiles (h : Accumulates trait word) (implicitUsings : Bool)
    (files : List (Text.Bytes × Node)) : TraitOfParts trait word (ofFiles implicitUsings files) :=
  declares_ofFiles.reaches.traitOfParts h (outlined_empty implicitUsings)
    (traitOfParts_empty h implicitUsings)

/-! ### The traits on the way through the second pass -/

/-- Noting types and constraining keep the traits of definitions. -/
theorem steady_traits (ps : List TypeParameterRef) (o : Outline) :
    Steady ps fun q => ∀ id, (q.table.definition id).traits = (o.table.definition id).traits := by
  refine ⟨fun {q} hq t unread id => ?_, fun {q} hq p _ c id => ?_⟩
  · obtain ⟨instances, hnote⟩ := SymbolTable.note_eq q.table t
    rw [hnote]
    exact hq id
  · rw [← hq id]
    cases p with
    | ofType owner i =>
      show ((q.table.updateDefinition owner _).definition id).traits = _
      rw [SymbolTable.definition_updateDefinition]
      split
      · next he => rw [he.1]
      · rfl
    | ofMethod owner i => rfl
    | free i => rfl

theorem Passes.traits (h : Passes a b made) (id : TypeId) :
    (b.table.definition id).traits = (a.table.definition id).traits := by
  induction h with
  | start => rfl
  | noted _ t unread ih => exact ((steady_traits [] _).note (fun _ => rfl) t unread id).trans ih
  | constrained _ owner i c ih =>
    exact ((steady_traits [.ofType owner i] _).constrain (fun _ => rfl) _
      (List.mem_singleton.mpr rfl) c id).trans ih
  | @method b _ _ _ _ _ hm ih =>
    obtain ⟨_, _, _, _, _, _, _, steps⟩ := bindMethod_ok hm
    have hbound := (steady_traits _ b).signature (fun _ => rfl) steps id
    rw [← ih, ← hbound, steps.complete]
    exact SymbolTable.traits_addMember _ _ id
  | @value b _ _ part v ih =>
    rw [← ih]
    exact (b.table.addValue v).traits_addMember part.type _ id

/-! ### The constructors that parts declare -/

/-- The parameters of an instance constructor that a form declares. -/
def constructorOf? (m : MethodForm) : Option (List ParameterForm) :=
  if m.kind = .constructor then some m.parameters else none

/-- The parameters of the instance constructors that a part declares, with its parameter list first. -/
def constructorParameters (d : TypeDeclaration) : List (List ParameterForm) :=
  (if d.hasParameterList then [d.parameters] else []) ++
    d.members.filterMap fun
      | .method m => constructorOf? m
      | .values _ => none

/-- What a part of a struct or a class declares are the constructors among its members and the one of
its parameter list. -/
theorem filterMap_declaredMembers {kind : DefinitionKind} (part : DeclaredPart)
    (hdelegate : kind ≠ .delegateType) (henum : kind ≠ .enumType) :
    (declaredMembers kind part).filterMap (·.bind constructorOf?)
      = constructorParameters part.form := by
  have hdeclared : declaredMembers kind part
      = declaredByParameters part ++ part.form.members.flatMap declaredIn := by
    rw [declaredMembers]
    · exact hdelegate
    · exact henum
  have hvalues : ∀ {α : Type} (xs : List α),
      (xs.map fun _ => (none : Option MethodForm)).filterMap (·.bind constructorOf?) = [] := by
    intro α xs
    rw [List.filterMap_map]
    exact List.filterMap_eq_nil_iff.mpr fun _ _ => rfl
  rw [hdeclared, List.filterMap_append, constructorParameters]
  congr 1
  · rw [declaredByParameters]
    split
    · refine congrArg (part.form.parameters :: ·) ?_
      split
      · rw [hvalues]
      · rfl
    · rfl
  · rw [List.filterMap_flatMap, List.filterMap_eq_flatMap_toList]
    refine List.flatMap_congr fun form _ => ?_
    cases form with
    | method m =>
      show [some m].filterMap (·.bind constructorOf?) = (constructorOf? m).toList
      cases h : constructorOf? m with
      | none => exact List.filterMap_cons_none h
      | some ps => exact List.filterMap_cons_some h
    | values v => exact hvalues v.names

/-- A method that was made is what its form says, and declared. -/
theorem Passes.implements (h : Passes a b made) {k : MethodId} {form : MethodForm}
    (hmade : .method k part form ∈ made) :
    Implements b.table part.type k form ∧ (b.table.method k).isImplicit = false := by
  obtain ⟨u, w, before, after, -, hm, rfl, hw⟩ := h.origin hmade
  obtain ⟨_, _, _, _, _, _, _, steps⟩ := bindMethod_ok hm
  have himplements := steps.implements
  refine ⟨himplements.grows hw.grows, ?_⟩
  obtain ⟨bound, hbare, hmethod⟩ := steps.method
  rw [hw.untouched.method _ himplements.lt, hmethod, hbare.rest]
  rfl

/-- The methods that a type lists are those that were made of its parts. -/
theorem Passes.methodIds (h : Passes o b made) (ho : Outlined o)
    (hlt : ∀ e ∈ made, e.part.type.index < o.table.definitions.size) (id : TypeId) :
    b.table.methodIds id = (made.filter (·.part.type = id)).filterMap fun
      | .method k _ _ => some k
      | .value _ _ => none := by
  have hmembers := congrArg SymbolTable.methodsAmong (h.members hlt id)
  have hbare : SymbolTable.methodsAmong (o.table.members id) = [] := ho.bare.methodIds id
  rw [SymbolTable.methodIds]
  refine hmembers.trans ?_
  rw [SymbolTable.methodsAmong, List.filterMap_append]
  refine (congrArg (· ++ _) hbare).trans ?_
  rw [List.nil_append, List.filterMap_map]
  refine List.filterMap_congr fun e _ => ?_
  cases e <;> rfl

/-- **The constructors that a type lists when its parts are bound are those that its parts declare.** -/
theorem Passes.constructors (h : Passes o b made) (ho : Outlined o)
    (hlt : ∀ e ∈ made, e.part.type.index < o.table.definitions.size)
    (hdeclared : made.map (fun e => (e.part, e.form?)) = partMembers o.table o.parts)
    (id : TypeId) (hdelegate : (o.table.definition id).kind ≠ .delegateType)
    (henum : (o.table.definition id).kind ≠ .enumType) :
    ((methodsOf b.table id).filter (·.kind = .constructor)).map (·.parameters.map writtenAs)
      = ((o.partsOf id).flatMap fun part => constructorParameters part.form).map
          (·.map writtenOf) := by
  have hmade : (made.filter (·.part.type = id)).map (fun e => (e.part, e.form?))
      = partMembers o.table (o.partsOf id) := by
    rw [partsOf, ← filter_partMembers, ← hdeclared, List.filter_map]
    rfl
  have hforms : (made.filter (·.part.type = id)).filterMap (·.form?.bind constructorOf?)
      = (o.partsOf id).flatMap fun part => constructorParameters part.form := by
    have hpairs := congrArg (List.filterMap fun x => x.2.bind constructorOf?) hmade
    rw [List.filterMap_map] at hpairs
    refine hpairs.trans ?_
    rw [partMembers, List.filterMap_flatMap]
    refine List.flatMap_congr fun part hpart => ?_
    have htype : part.type = id := of_decide_eq_true (List.mem_filter.mp hpart).2
    rw [List.filterMap_map, htype]
    exact filterMap_declaredMembers part hdelegate henum
  rw [methodsOf_eq, h.methodIds ho hlt, ← hforms, List.map_filterMap, List.map_filterMap,
    List.filter_filterMap, List.map_filterMap]
  refine List.filterMap_congr fun e he => ?_
  cases e with
  | value v part => rfl
  | method k part form =>
    obtain ⟨himplements, -⟩ := h.implements (List.mem_filter.mp he).1
    show Option.map _ (Option.filter _ (some (b.table.method k)))
      = Option.map _ (constructorOf? form)
    rw [constructorOf?, Option.filter_some, himplements.kind]
    by_cases hkind : form.kind = .constructor
    · rw [if_pos (decide_eq_true hkind), if_pos hkind]
      exact congrArg some himplements.parameters
    · rw [if_neg (by simpa using hkind), if_neg hkind]
      rfl

/-! ### What is due -/

/-- The part declares an instance constructor without parameters. -/
def declaresParameterless (part : DeclaredPart) : Bool :=
  (constructorParameters part.form).any (·.isEmpty)

/-- The part declares an instance constructor. -/
def declaresConstructor (part : DeclaredPart) : Bool :=
  !(constructorParameters part.form).isEmpty

/-- The accessibility of the constructor that a type has without declaring it, if one is due to what its
parts say. -/
def dueConstructor? (kind : DefinitionKind) (parts : List DeclaredPart) : Option Accessibility :=
  match kind with
  | .structType => if parts.any declaresParameterless then none else some .publicAccess
  | .classType =>
    if parts.any (·.form.modifiers.isStatic) || parts.any declaresConstructor then none
    else some
      (if parts.any (·.form.modifiers.isAbstract) then .protectedAccess else .publicAccess)
  | _ => none

/-- **What parts say decides about the constructor that is added to a type once they are bound.** -/
theorem Passes.implicitConstructor?_eq (h : Passes o b made) (ho : Outlined o)
    (hlt : ∀ e ∈ made, e.part.type.index < o.table.definitions.size)
    (hdeclared : made.map (fun e => (e.part, e.form?)) = partMembers o.table o.parts)
    (hstatic : TraitOfParts (·.isStatic) (·.isStatic) o)
    (habstract : TraitOfParts (·.isAbstract) (·.isAbstract) o)
    (hle : Library.table.definitions.size ≤ id.index) :
    implicitConstructor? b.table id
      = dueConstructor? (o.table.definition id).kind (o.partsOf id) := by
  have hkind : (b.table.definition id).kind = (o.table.definition id).kind :=
    (h.grows.shape.agrees id).kind
  rw [implicitConstructor?]
  cases hk : (o.table.definition id).kind with
  | structType =>
    have hsame := h.constructors ho hlt hdeclared id (by rw [hk]; decide) (by rw [hk]; decide)
    have hany := congrArg (·.any (·.isEmpty)) hsame
    simp only [List.any_map, List.any_flatMap, Function.comp_def, List.isEmpty_map] at hany
    simp only [hkind, hk, hany]
    rfl
  | classType =>
    have hsame := h.constructors ho hlt hdeclared id (by rw [hk]; decide) (by rw [hk]; decide)
    have hempty := congrArg (·.isEmpty) hsame
    simp only [List.isEmpty_map] at hempty
    have hflat : (!((o.partsOf id).flatMap fun part => constructorParameters part.form).isEmpty)
        = (o.partsOf id).any declaresConstructor := by
      rw [Bool.eq_iff_iff]
      simp [declaresConstructor, List.any_eq_true]
    simp only [hkind, hk, h.traits id, hstatic id hle, habstract id hle, hempty, hflat]
    rfl
  | interfaceType => simp only [hkind, hk, dueConstructor?]
  | enumType => simp only [hkind, hk, dueConstructor?]
  | delegateType => simp only [hkind, hk, dueConstructor?]

/-! ### Completing every type once -/

/-- What leaves a type and its members as they are leaves the constructor that it is given. -/
theorem Untouched.implicitConstructor?_eq {kept : TypeId → Prop} (h : Untouched kept a b)
    (hid : kept id) (hheld : ∀ m ∈ a.table.members id, Holds a.table m) :
    implicitConstructor? b.table id = implicitConstructor? a.table id := by
  have hdef := h.definition id hid
  have hmethods : methodsOf b.table id = methodsOf a.table id := by
    rw [methodsOf, methodsOf, SymbolTable.members, hdef]
    refine List.filterMap_congr fun m hm => ?_
    cases m with
    | method k => exact congrArg some (h.method k (hheld _ hm))
    | type t => rfl
    | value v => rfl
  rw [implicitConstructor?, implicitConstructor?, hdef, hmethods]

/-- **Of types that are completed once each, a type is given the constructor that is due to it.** -/
theorem members_foldl_finish_of_mem {ids : List TypeId} (hnodup : ids.Nodup) (hid : id ∈ ids)
    (hlt : id.index < o.table.definitions.size)
    (hheld : ∀ m ∈ o.table.members id, Holds o.table m) :
    ∃ k, (ids.foldl finish o).table.members id = o.table.members id
        ++ (implicitConstructor? o.table id).toList.map (fun _ => .method k) ∧
      ∀ access, implicitConstructor? o.table id = some access →
        (ids.foldl finish o).table.method k = implicitMethod o.table id access := by
  obtain ⟨before, after, rfl⟩ := List.append_of_mem hid
  obtain ⟨-, hrest, hapart⟩ := List.nodup_append.mp hnodup
  have hbefore : id ∉ before := fun hmem => hapart id hmem id List.mem_cons_self rfl
  have hafter : id ∉ after := (List.nodup_cons.mp hrest).1
  rw [List.foldl_append, List.foldl_cons]
  -- what is completed in front leaves the type alone, and so does what is completed behind
  have hfront := @untouched_foldl_finish o before
  have hshape := (@grows_foldl_finish o before).shape
  generalize before.foldl finish o = reached at hfront hshape ⊢
  have hback := @untouched_foldl_finish (reached.finish id) after
  have hsame := hfront.implicitConstructor?_eq hbefore hheld
  have hmembers := members_finish (hshape.size ▸ hlt) id
  rw [if_pos rfl, hsame, SymbolTable.members, ← hback.definition id hafter, SymbolTable.members,
    hfront.definition id hbefore] at hmembers
  refine ⟨reached.table.nextMethod, hmembers, fun access haccess => ?_⟩
  obtain ⟨hmethod, hlisted⟩ := method_finish (hsame.trans haccess)
  rw [hback.method _ hlisted, hmethod, implicitMethod, implicitMethod, hshape.definitionType]

/-! ### The second pass -/

/-- The methods that a type lists without declaring them. -/
def implicitMembers (table : SymbolTable) (id : TypeId) : List MethodId :=
  (table.methodIds id).filter fun m => (table.method m).isImplicit

/-- Where the members of a type are declared and at most one method behind them is not, that method is
all that the type lists without declaring it. -/
theorem implicitMembers_of_concat {due : Option Accessibility} {k : MethodId}
    (hmembers : b.table.members id = a.table.members id ++ due.toList.map fun _ => .method k)
    (hdeclared : ∀ m ∈ a.table.methodIds id, (b.table.method m).isImplicit = false)
    (hadded : ∀ access, due = some access →
      b.table.method k = implicitMethod b.table id access) :
    implicitMembers b.table id = due.toList.map fun _ => k := by
  have hids : b.table.methodIds id = a.table.methodIds id ++ due.toList.map fun _ => k := by
    refine (congrArg SymbolTable.methodsAmong hmembers).trans ?_
    rw [SymbolTable.methodsAmong, List.filterMap_append, List.filterMap_map]
    refine congrArg (a.table.methodIds id ++ ·) ?_
    cases due <;> rfl
  have hold : (a.table.methodIds id).filter (fun m => (b.table.method m).isImplicit) = [] :=
    List.filter_eq_nil_iff.mpr fun m hm => by
      rw [hdeclared m hm]
      exact Bool.false_ne_true
  rw [implicitMembers, hids, List.filter_append, hold, List.nil_append, List.filter_eq_self]
  intro m hm
  obtain ⟨access, haccess, rfl⟩ := List.mem_map.mp hm
  rw [hadded access (Option.mem_toList.mp haccess)]
  rfl

theorem Passes.isImplicit_eq_false (h : Passes o b made) (ho : Outlined o)
    (hlt : ∀ e ∈ made, e.part.type.index < o.table.definitions.size) {m : MethodId}
    (hm : m ∈ b.table.methodIds id) :
    m.index < b.table.methods.size ∧ (b.table.method m).isImplicit = false := by
  rw [h.methodIds ho hlt] at hm
  obtain ⟨e, he, hsome⟩ := List.mem_filterMap.mp hm
  cases e with
  | value v part => cases hsome
  | method m part form =>
    cases hsome
    obtain ⟨himplements, hplain⟩ := h.implements (List.mem_filter.mp he).1
    exact ⟨himplements.lt, hplain⟩

/-- **After the second pass a type lists what is due to its parts, and nothing else that they do not
declare.** -/
theorem Outlined.implicitMembers_bind (ho : Outlined o) (hf : Findable o)
    (hstatic : TraitOfParts (·.isStatic) (·.isStatic) o)
    (habstract : TraitOfParts (·.isAbstract) (·.isAbstract) o) (h : o.bind = .ok o')
    (hid : id ∈ o.declaredTypes) (hle : Library.table.definitions.size ≤ id.index) :
    ∃ k, implicitMembers o'.table id
        = (dueConstructor? (o.table.definition id).kind (o.partsOf id)).toList.map (fun _ => k) ∧
      ∀ access, dueConstructor? (o.table.definition id).kind (o.partsOf id) = some access →
        o'.table.method k = implicitMethod o'.table id access := by
  obtain ⟨bound, hbound, rfl⟩ := ok_of_map h
  obtain ⟨made, hmade, hdeclared⟩ := passesOver_bindParts hbound
  have hparts : ∀ part ∈ o.parts, part.type.index < o.table.definitions.size :=
    fun part hp => (ho.parts part hp).head_lt
  have hlt : ∀ e ∈ made, e.part.type.index < o.table.definitions.size := fun e he =>
    hparts e.part (part_mem_of_declared hdeclared he)
  have hidlt : id.index < bound.table.definitions.size := by
    obtain ⟨part, hpart, rfl⟩ := List.mem_map.mp (List.mem_eraseDups.mp hid)
    rw [hmade.grows.shape.size]
    exact hparts part hpart
  have hlists := lists_bindParts (ho.lists hf) hparts hbound
  have hheld : ∀ m ∈ bound.table.members id, Holds bound.table m := fun m hm => by
    have hcontains := hlists.contains id m hm
    cases m with
    | type t => trivial
    | method k => exact hcontains
    | value v => exact hcontains
  have honce : o.declaredTypes.Nodup := nodup_eraseDups _
  obtain ⟨k, hmembers, hadded⟩ := members_foldl_finish_of_mem honce hid hidlt hheld
  rw [hmade.implicitConstructor?_eq ho hlt hdeclared hstatic habstract hle] at hmembers hadded
  have hshape := (@grows_foldl_finish bound o.declaredTypes).shape
  have huntouched := @untouched_foldl_finish bound o.declaredTypes
  have himplicit : ∀ access, dueConstructor? (o.table.definition id).kind (o.partsOf id) = some access →
      (o.declaredTypes.foldl finish bound).table.method k
        = implicitMethod (o.declaredTypes.foldl finish bound).table id access := by
    intro access haccess
    rw [hadded access haccess, implicitMethod, implicitMethod, hshape.definitionType]
  refine ⟨k, implicitMembers_of_concat hmembers (fun m hm => ?_) himplicit, himplicit⟩
  obtain ⟨hmlt, hplain⟩ := hmade.isImplicit_eq_false ho hlt hm
  rw [huntouched.method m hmlt, hplain]

/-! ### Compiling files -/

/-- The type has the constructors that it does not declare exactly where these are due to what its parts
say. -/
structure CompletedBy (parts : List DeclaredPart) (table : SymbolTable) (id : TypeId) : Prop where
  /-- Nothing else is listed without being declared, and this is listed once. -/
  once : (implicitMembers table id).length ≤ 1
  /-- It is a constructor without parameters. -/
  constructor : ∀ m ∈ implicitMembers table id,
    (table.method m).kind = .constructor ∧ (table.method m).parameters = []
  /-- A struct has one unless a part declares an instance constructor without parameters. -/
  ofStruct : (table.definition id).kind = .structType →
    (implicitMembers table id ≠ [] ↔
      ∀ part ∈ parts, [] ∉ constructorParameters part.form)
  /-- A class has one unless a part is static or declares an instance constructor. -/
  ofClass : (table.definition id).kind = .classType →
    (implicitMembers table id ≠ [] ↔ ∀ part ∈ parts,
      part.form.modifiers.isStatic = false ∧ constructorParameters part.form = [])
  /-- That of a class is protected if a part is abstract. -/
  isProtected : (table.definition id).kind = .classType →
    (∃ part ∈ parts, part.form.modifiers.isAbstract = true) →
    ∀ m ∈ implicitMembers table id, (table.method m).access = .protectedAccess
  /-- Otherwise it is public. -/
  isPublic : (table.definition id).kind = .classType →
    (∀ part ∈ parts, part.form.modifiers.isAbstract = false) →
    ∀ m ∈ implicitMembers table id, (table.method m).access = .publicAccess
  /-- No other kind of type has any. -/
  ofOther : (table.definition id).kind ≠ .structType → (table.definition id).kind ≠ .classType →
    implicitMembers table id = []

theorem any_declaresParameterless_eq_false {parts : List DeclaredPart} :
    parts.any declaresParameterless = false ↔
      ∀ part ∈ parts, [] ∉ constructorParameters part.form := by
  rw [List.any_eq_false]
  refine forall₂_congr fun part _ => not_congr ?_
  rw [declaresParameterless, List.any_eq_true]
  constructor
  · rintro ⟨ps, hps, hempty⟩
    rwa [List.isEmpty_iff.mp hempty] at hps
  · exact fun hps => ⟨[], hps, rfl⟩

theorem any_declaresConstructor_eq_false {parts : List DeclaredPart} :
    parts.any declaresConstructor = false ↔
      ∀ part ∈ parts, constructorParameters part.form = [] := by
  rw [List.any_eq_false]
  refine forall₂_congr fun part _ => ?_
  rw [declaresConstructor, Bool.not_eq_true', Bool.not_eq_false, List.isEmpty_iff]

/-- What is due to a class is protected exactly where a part is abstract. -/
theorem access_of_due {parts : List DeclaredPart} {access : Accessibility}
    (h : dueConstructor? .classType parts = some access) :
    access = if parts.any (·.form.modifiers.isAbstract) then .protectedAccess else .publicAccess := by
  rw [dueConstructor?] at h
  split at h
  · cases h
  · exact (Option.some.inj h).symm

/-- What is due to some parts is told by them one by one. -/
theorem completedBy_of_due {parts : List DeclaredPart} {table : SymbolTable} {k : MethodId}
    (hmembers : implicitMembers table id
      = (dueConstructor? (table.definition id).kind parts).toList.map fun _ => k)
    (hmethod : ∀ access, dueConstructor? (table.definition id).kind parts = some access →
      table.method k = implicitMethod table id access) : CompletedBy parts table id := by
  have hadded : ∀ m ∈ implicitMembers table id, ∃ access,
      dueConstructor? (table.definition id).kind parts = some access ∧
        table.method m = implicitMethod table id access := by
    intro m hm
    rw [hmembers] at hm
    obtain ⟨access, haccess, rfl⟩ := List.mem_map.mp hm
    exact ⟨access, Option.mem_toList.mp haccess, hmethod access (Option.mem_toList.mp haccess)⟩
  have hsome : implicitMembers table id ≠ [] ↔
      dueConstructor? (table.definition id).kind parts ≠ none := by
    rw [hmembers]
    cases dueConstructor? (table.definition id).kind parts <;> simp
  constructor
  case once =>
    rw [hmembers, List.length_map]
    cases dueConstructor? (table.definition id).kind parts <;> simp
  case constructor =>
    intro m hm
    obtain ⟨access, -, hm⟩ := hadded m hm
    rw [hm]
    exact ⟨rfl, rfl⟩
  case ofStruct =>
    intro hkind
    rw [hsome, hkind, dueConstructor?, ← any_declaresParameterless_eq_false]
    simp
  case ofClass =>
    intro hkind
    rw [hsome, hkind, dueConstructor?, forall₂_and, ← any_declaresConstructor_eq_false]
    simp
  case isProtected =>
    rintro hkind ⟨part, hpart, habstract⟩ m hm
    obtain ⟨access, hdue, hm⟩ := hadded m hm
    have hany : parts.any (·.form.modifiers.isAbstract) = true :=
      List.any_eq_true.mpr ⟨part, hpart, habstract⟩
    rw [hkind] at hdue
    rw [hm]
    exact (access_of_due hdue).trans (if_pos hany)
  case isPublic =>
    intro hkind hplain m hm
    obtain ⟨access, hdue, hm⟩ := hadded m hm
    have hany : parts.any (·.form.modifiers.isAbstract) = false :=
      List.any_eq_false.mpr fun part hpart => by simp [hplain part hpart]
    rw [hkind] at hdue
    rw [hm]
    exact (access_of_due hdue).trans (if_neg (Bool.not_eq_true _ ▸ hany))
  case ofOther =>
    intro hstruct hclass
    rw [hmembers, dueConstructor?]
    · rfl
    · exact hstruct
    · exact hclass

end

end Outline

/-- **Constructors are added exactly when they are due.**  Whatever files are compiled, of the types that
they declare, in any number of parts, a struct is given a constructor unless one of its parts declares one
without parameters, by a member or by its parameter list; a class is given one unless one of its parts is
static or declares any, protected if one of its parts is abstract and public otherwise; no other type is
given any, and no type is given two. -/
theorem compile_constructors {identity : AssemblyIdentity} {implicitUsings : Bool}
    {files : List (Text.Bytes × Node)} {a : Assembly}
    (h : compile identity implicitUsings files = .ok a) {id : TypeId}
    (hid : id ∈ (Outline.ofFiles implicitUsings files).declaredTypes) :
    Outline.CompletedBy ((Outline.ofFiles implicitUsings files).partsOf id) a.table id := by
  obtain ⟨o', ho', rfl, -⟩ := bind_of_compile h
  have houtlined := @Outline.outlined_ofFiles implicitUsings files
  have hdescribed := Outline.described_ofFiles implicitUsings files
  have hle : Library.table.definitions.size ≤ id.index := by
    obtain ⟨part, hpart, rfl⟩ := List.mem_map.mp (List.mem_eraseDups.mp hid)
    exact hdescribed.le_of_located (hdescribed.located part hpart)
  obtain ⟨k, hmembers, hadded⟩ := houtlined.implicitMembers_bind Outline.findable_ofFiles
    (Outline.traitOfParts_ofFiles Outline.accumulates_isStatic implicitUsings files)
    (Outline.traitOfParts_ofFiles Outline.accumulates_isAbstract implicitUsings files) ho' hid hle
  obtain ⟨extra, hmakes, -, -⟩ := houtlined.makes_bind ho'
  rw [← (hmakes.grows.shape.agrees id).kind] at hmembers hadded
  exact Outline.completedBy_of_due hmembers hadded

/-- A part of a class that is abstract. -/
def abstractFile : Text.Bytes × Node :=
  (bytesOf "abstract partial class A{}",
    namedNode "compilation_unit" 0 26 "" [
      namedNode "class_declaration" 0 26 "" [
        namedLeaf "modifier" 0 8 "",
        namedLeaf "modifier" 9 16 "",
        namedLeaf "identifier" 23 24 "name",
        namedNode "declaration_list" 24 26 "body" []]])

/-- Another part of it, and a struct with a constructor that has a parameter. -/
def structFile : Text.Bytes × Node :=
  (bytesOf "partial class A{}struct S{S(int x){}}",
    namedNode "compilation_unit" 0 37 "" [
      namedNode "class_declaration" 0 17 "" [
        namedLeaf "modifier" 0 7 "",
        namedLeaf "identifier" 14 15 "name",
        namedNode "declaration_list" 15 17 "body" []],
      namedNode "struct_declaration" 17 37 "" [
        namedLeaf "identifier" 24 25 "name",
        namedNode "declaration_list" 25 37 "body" [
          namedNode "constructor_declaration" 26 36 "" [
            namedLeaf "identifier" 26 27 "name",
            namedNode "parameter_list" 27 34 "parameters" [
              namedNode "parameter" 28 33 "" [
                namedLeaf "predefined_type" 28 31 "type",
                namedLeaf "identifier" 32 33 "name"]],
            namedNode "block" 34 36 "body" []]]]])

/-- The class is given a protected constructor, and the struct a public one. -/
theorem abstractParts_completed :
    ∃ a c s, compile ⟨"A", "1.0.0.0", "neutral", none⟩ true [abstractFile, structFile] = .ok a ∧
      (Outline.ofFiles true [abstractFile, structFile]).declaredTypes = [c, s] ∧
      [c, s].map (fun id => (Outline.implicitMembers a.table id).map fun m =>
        (a.table.method m).access) = [[.protectedAccess], [.publicAccess]] ∧
      Outline.CompletedBy ((Outline.ofFiles true [abstractFile, structFile]).partsOf c) a.table c ∧
      Outline.CompletedBy ((Outline.ofFiles true [abstractFile, structFile]).partsOf s) a.table s := by
  have hadded : (compile ⟨"A", "1.0.0.0", "neutral", none⟩ true
        [abstractFile, structFile]).toOption.map (fun a =>
      (Outline.ofFiles true [abstractFile, structFile]).declaredTypes.map fun id =>
        (Outline.implicitMembers a.table id).map fun m => (a.table.method m).access) =
      some [[.protectedAccess], [.publicAccess]] := by
    decide +kernel
  cases ha : compile ⟨"A", "1.0.0.0", "neutral", none⟩ true [abstractFile, structFile] with
  | error e =>
    rw [ha] at hadded
    cases hadded
  | ok a =>
    rw [ha] at hadded
    have haccess := Option.some.inj hadded
    obtain ⟨c, rest, hdeclared, -, hrest⟩ := List.map_eq_cons_iff.mp haccess
    obtain ⟨s, rfl, -⟩ := List.map_eq_singleton_iff.mp hrest
    rw [hdeclared] at haccess
    refine ⟨a, c, s, rfl, hdeclared, haccess, compile_constructors ha ?_,
      compile_constructors ha ?_⟩
    · rw [hdeclared]
      exact List.mem_cons_self
    · rw [hdeclared]
      exact List.mem_cons_of_mem c List.mem_cons_self

end ExtensionCensus.Binding
