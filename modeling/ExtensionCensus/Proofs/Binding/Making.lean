import ExtensionCensus.Proofs.Binding.Frame
import ExtensionCensus.Proofs.Binding.WellFormed

/-!
# What binding makes

The second pass makes methods from forms, and makes nothing else that matters to old ones.

* `Implements` — a method says what the form says that it was bound from;
* `Makes` — the methods that types gain, in order, and the forms that they were made from;
* `makes_bindMethod`, `makes_bindPart`, `makes_finish` — what the steps of the pass make;
* `Outlined.makes_bind` — **the whole pass makes one method for each form of each part, and then
  constructors only**.
-/

namespace ExtensionCensus.Binding.Outline

open SymbolTable (SameShape)
open Source (ParameterForm ReturnForm MethodForm MemberForm)

/-! ### Methods and their forms -/

/-- What is the same for a parameter and the form that it was bound from. -/
structure WrittenParameter where
  name : String
  refKind : RefKind
  isThis : Bool
  isParams : Bool
  defaultValue : Option String

/-- What a form says of a parameter, but for its type. -/
def writtenOf (p : ParameterForm) : WrittenParameter :=
  ⟨p.name, p.refKind, p.isThis, p.isParams, p.defaultValue⟩

/-- What is written of a parameter, but for its type. -/
def writtenAs (p : Parameter) : WrittenParameter :=
  ⟨p.name, p.refKind, p.isThis, p.isParams, p.defaultValue⟩

/-- The first parameter of the form is a receiver. -/
def receives (m : MethodForm) : Bool :=
  (m.parameters.head?.map (·.isThis)).getD false

/-- The form declares an extension method, if its type may hold one. -/
def declaresExtension (m : MethodForm) : Bool :=
  m.kind = .ordinary && m.modifiers.isStatic && receives m

/-- The method of a type says what the form says that it was bound from. -/
structure Implements (table : SymbolTable) (owner : TypeId) (id : MethodId)
    (m : MethodForm) : Prop where
  lt : id.index < table.methods.size
  name : (table.method id).name = m.name
  kind : (table.method id).kind = m.kind
  access : (table.method id).access = methodAccess table owner m
  isStatic : (table.method id).isStatic = m.modifiers.isStatic
  returns : (table.method id).returnType.isSome = m.returns.isSome
  container : (table.method id).container = some (table.definitionType owner)
  typeParameters : (table.method id).typeParameters.map (·.name) = m.typeParameters.map (·.name)
  placed : TypeParameter.Placed (.ofMethod id) (table.method id).typeParameters
  parameters : (table.method id).parameters.map writtenAs = m.parameters.map writtenOf
  own : ∀ (i : Nat) (p : Parameter), (table.method id).parameters[i]? = some p →
    p.owner = some id ∧ p.ordinal = i
  isExtension : (table.method id).isExtension
    = (declaresExtension m && mayExtend table owner)

/-- A method with the type that it was made in and the form that it was bound from. -/
structure MadeMethod where
  id : MethodId
  owner : TypeId
  form : MethodForm

/-- The methods that types gain on the way from one outline to another, in the order in which they
are made. -/
structure Gains (a b : Outline) (made : List MadeMethod) : Prop where
  implements : ∀ e ∈ made, Implements b.table e.owner e.id e.form
  methodIds : ∀ id, b.table.methodIds id
    = a.table.methodIds id ++ (made.filter (·.owner = id)).map (·.id)
  fresh : ∀ e ∈ made, a.table.methods.size ≤ e.id.index
  ordered : made.Pairwise fun e f => e.id.index < f.id.index

/-- The table changes only by new methods of some types, made from some forms in order. -/
structure Makes (a b : Outline) (forms : List (TypeId × MethodForm)) : Prop where
  grows : Grows a b
  made : ∃ made : List MadeMethod, made.map (fun e => (e.owner, e.form)) = forms ∧ Gains a b made

section

variable {a b c o o' : Outline}

theorem mayExtend_grows (h : Grows a b) (id : TypeId) :
    mayExtend b.table id = mayExtend a.table id := by
  have htop : b.table.isTopLevel id = a.table.isTopLevel id := by
    rw [SymbolTable.isTopLevel, SymbolTable.isTopLevel, (h.shape.agrees id).container]
  rw [mayExtend, mayExtend, h.isStatic, h.shape.definitionType, htop]

theorem Implements.grows (h : Grows a b) {owner : TypeId} {id : MethodId} {m : MethodForm}
    (hi : Implements a.table owner id m) : Implements b.table owner id m := by
  have hm := h.methods id hi.lt
  have hrest := hm.rest
  refine ⟨Nat.lt_of_lt_of_le hi.lt h.count, ?_, ?_, ?_, ?_, ?_, ?_, ?_,
    hi.placed.of_map_label hm.parameters, ?_, ?_, ?_⟩
  · rw [hrest]
    exact hi.name
  · rw [hrest]
    exact hi.kind
  · rw [hrest, methodAccess, (h.shape.agrees owner).kind]
    exact hi.access
  · rw [hrest]
    exact hi.isStatic
  · rw [hrest]
    exact hi.returns
  · rw [hrest, h.shape.definitionType]
    exact hi.container
  · rw [hm.parameterNames]
    exact hi.typeParameters
  · rw [hrest]
    exact hi.parameters
  · rw [hrest]
    exact hi.own
  · rw [hrest, mayExtend_grows h]
    exact hi.isExtension

theorem Quiet.makes (h : Quiet a b) : Makes a b [] :=
  ⟨h.grows, [], rfl, fun e he => (by cases he), fun id => by
    rw [h.methodIds, List.filter_nil, List.map_nil, List.append_nil],
    fun e he => (by cases he), List.Pairwise.nil⟩

/-- A single method goes to the type that it was made in. -/
theorem filter_singleton (e : MadeMethod) (id : TypeId) :
    ([e].filter (·.owner = id)).map (·.id) = if e.owner = id then [e.id] else [] := by
  by_cases h : e.owner = id
  · rw [List.filter_cons_of_pos (by simpa using h), if_pos h]
    rfl
  · rw [List.filter_cons_of_neg (by simpa using h), if_neg h]
    rfl

theorem Makes.trans {forms forms' : List (TypeId × MethodForm)} (h : Makes a b forms)
    (h' : Makes b c forms') : Makes a c (forms ++ forms') := by
  obtain ⟨made, hforms, hgains⟩ := h.made
  obtain ⟨made', hforms', hgains'⟩ := h'.made
  refine ⟨h.grows.trans h'.grows, made ++ made', ?_, fun e he => ?_, fun id => ?_, fun e he => ?_,
    ?_⟩
  · rw [List.map_append, hforms, hforms']
  · rcases List.mem_append.mp he with he | he
    · exact (hgains.implements e he).grows h'.grows
    · exact hgains'.implements e he
  · rw [hgains'.methodIds, hgains.methodIds, List.filter_append, List.map_append,
      List.append_assoc]
  · rcases List.mem_append.mp he with he | he
    · exact hgains.fresh e he
    · exact Nat.le_trans h.grows.count (hgains'.fresh e he)
  · refine List.pairwise_append.mpr ⟨hgains.ordered, hgains'.ordered, fun e he f hf => ?_⟩
    exact Nat.lt_of_lt_of_le (hgains.implements e he).lt (hgains'.fresh f hf)

/-- The parameters of a method are written as their forms say. -/
theorem written_bindParameters {ctx : Context} {forms : List ParameterForm} {ps : List Parameter}
    (h : o.bindParameters ctx forms = .ok (o', ps)) : ps.map writtenAs = forms.map writtenOf := by
  induction forms generalizing o ps with
  | nil =>
    cases h
    rfl
  | cons form rest ih =>
    obtain ⟨q, p, others, hp, hrest, rfl⟩ := bindParameters_cons_ok h
    obtain ⟨t, -, rfl⟩ := bindParameter_ok hp
    rw [List.map_cons, List.map_cons, ih hrest]
    rfl

/-- A method has a type that it returns exactly if its form says what it returns. -/
theorem isSome_bindReturn {ctx : Context} {form : Option ReturnForm} {returnType : Option Ty}
    {isNullable : Bool} {byRef : Option String}
    (h : o.bindReturn ctx form = .ok (o', returnType, isNullable, byRef)) :
    returnType.isSome = form.isSome := by
  cases form with
  | none =>
    cases h
    rfl
  | some r =>
    obtain ⟨⟨p, t⟩, -, he⟩ := ok_of_map h
    cases he
    rfl

theorem hasThis_eq {ps : List Parameter} {m : MethodForm}
    (h : ps.map writtenAs = m.parameters.map writtenOf) : hasThis ps = receives m := by
  have hhead := congrArg (fun l => (l.head?.map (·.isThis)).getD false) h
  rw [List.head?_map, List.head?_map, Option.map_map, Option.map_map] at hhead
  exact hhead

section

variable {ctx : Context} {container : TypeId} {m : MethodForm}
  {clausesBound returnBound parametersBound : Outline} {returnType : Option Ty}
  {isNullable : Bool} {byRef : Option String} {parameters : List Parameter}

/-- Between the beginning and the completion of a method the steps are quiet. -/
theorem MethodSteps.quiet
    (steps : MethodSteps o ctx container m o' clausesBound returnBound parametersBound returnType
      isNullable byRef parameters) : Quiet (o.beginMethod container m) parametersBound :=
  ((quiet_bindClauses steps.clauses).trans (quiet_bindReturn steps.returns)).trans
    (quiet_bindParameters steps.signature)

theorem MethodSteps.count
    (steps : MethodSteps o ctx container m o' clausesBound returnBound parametersBound returnType
      isNullable byRef parameters) : o'.table.methods.size = o.table.methods.size + 1 := by
  have hsize := steps.quiet.count
  rw [beginMethod, SymbolTable.size_addMethod] at hsize
  rw [← hsize, steps.complete]
  exact SymbolTable.size_updateMethod _ _

/-- The method that is completed is the one that was begun, with what its steps bound. -/
theorem MethodSteps.method
    (steps : MethodSteps o ctx container m o' clausesBound returnBound parametersBound returnType
      isNullable byRef parameters) :
    ∃ bound : Method, (bareMethod o.table container m).Agrees bound ∧
      o'.table.method o.table.nextMethod
        = { bound with
            returnType
            returnIsNullable := isNullable
            returnsByRef := byRef
            parameters := attached o.table.nextMethod parameters
            isExtension := m.kind = .ordinary && m.modifiers.isStatic &&
              hasThis (attached o.table.nextMethod parameters) &&
              mayExtend parametersBound.table container } := by
  have hlt : o.table.nextMethod.index < parametersBound.table.methods.size := by
    rw [steps.quiet.count, beginMethod, SymbolTable.size_addMethod]
    exact Nat.lt_succ_self _
  have hbound := steps.quiet.methods o.table.nextMethod
  rw [method_beginMethod] at hbound
  refine ⟨_, hbound, ?_⟩
  rw [steps.complete]
  show (SymbolTable.updateMethod _ _ _).method _ = _
  rw [SymbolTable.method_updateMethod, if_pos ⟨rfl, hlt⟩]

theorem sameShape_completeMethod (bound : Outline) (id : MethodId) :
    SameShape bound.table
      (bound.completeMethod id container m returnType isNullable byRef parameters).table := by
  have hupdate : SameShape bound.table (bound.table.updateMethod id fun method =>
      { method with
        returnType
        returnIsNullable := isNullable
        returnsByRef := byRef
        parameters
        isExtension := m.kind = .ordinary && m.modifiers.isStatic && hasThis parameters &&
          mayExtend bound.table container }) := .of_definitions_eq rfl
  exact hupdate.trans (SymbolTable.sameShape_addMember container rfl)

theorem MethodSteps.shape
    (steps : MethodSteps o ctx container m o' clausesBound returnBound parametersBound returnType
      isNullable byRef parameters) : SameShape o.table o'.table := by
  have hbegin : SameShape o.table (o.beginMethod container m).table := .of_definitions_eq rfl
  rw [steps.complete]
  exact (hbegin.trans steps.quiet.shape).trans (sameShape_completeMethod _ _)

theorem MethodSteps.grows
    (steps : MethodSteps o ctx container m o' clausesBound returnBound parametersBound returnType
      isNullable byRef parameters) : Grows o o' := by
  refine ⟨?_, steps.shape, fun id => ?_, steps.count ▸ Nat.le_succ _, fun k hk => ?_⟩
  · have hframe := steps.quiet.frame
    rw [steps.complete, completeMethod, hframe]
    rfl
  · refine Eq.trans ?_ (steps.quiet.isStatic id)
    rw [steps.complete]
    exact congrArg (·.isStatic) (SymbolTable.traits_addMember container _ id)
  · have hne : k ≠ o.table.nextMethod := fun he =>
      Nat.ne_of_lt hk (SymbolTable.eq_nextMethod_iff.mp he)
    have hold := steps.quiet.methods k
    rw [beginMethod, SymbolTable.method_addMethod, if_neg hne] at hold
    rw [steps.complete]
    show (o.table.method k).Agrees ((parametersBound.table.updateMethod _ _).method k)
    rw [SymbolTable.method_updateMethod, if_neg fun he => hne he.1]
    exact hold

theorem grows_bindMethod (h : o.bindMethod ctx container m = .ok o') : Grows o o' := by
  obtain ⟨_, _, _, _, _, _, _, steps⟩ := bindMethod_ok h
  exact steps.grows

/-- The method that is made says what its form says. -/
theorem MethodSteps.implements
    (steps : MethodSteps o ctx container m o' clausesBound returnBound parametersBound returnType
      isNullable byRef parameters) : Implements o'.table container o.table.nextMethod m := by
  obtain ⟨bound, hbound, hmethod⟩ := steps.method
  have hrest := hbound.rest
  have hwritten := (map_attached (fun _ _ _ => rfl) o.table.nextMethod parameters).trans
    (written_bindParameters steps.signature)
  have hmay : mayExtend parametersBound.table container = mayExtend o'.table container := by
    rw [mayExtend_grows steps.grows, mayExtend_grows steps.quiet.grows]
    rfl
  refine ⟨steps.count ▸ Nat.lt_succ_self _, ?_, ?_, ?_, ?_, ?_, ?_, ?_, ?_, ?_, ?_, ?_⟩
  · rw [hmethod, hrest]
    rfl
  · rw [hmethod, hrest]
    rfl
  · rw [hmethod, hrest, methodAccess, (steps.shape.agrees container).kind]
    rfl
  · rw [hmethod, hrest]
    rfl
  · rw [hmethod]
    exact isSome_bindReturn steps.returns
  · rw [hmethod, hrest, steps.shape.definitionType]
    rfl
  · rw [hmethod]
    refine hbound.parameterNames.trans ?_
    rw [bareMethod, map_name_listed, List.map_map]
    rfl
  · rw [hmethod]
    exact (placed_listed _ _).of_map_label hbound.parameters
  · rw [hmethod]
    exact hwritten
  · rw [hmethod]
    exact fun i p hp => own_of_mem_attached hp
  · rw [hmethod, declaresExtension, hasThis_eq hwritten, hmay]

/-- **Binding a method makes one method of its type, and changes no other.** -/
theorem makes_bindMethod (hlt : container.index < o.table.definitions.size)
    (h : o.bindMethod ctx container m = .ok o') : Makes o o' [(container, m)] := by
  obtain ⟨clausesBound, returnBound, parametersBound, returnType, isNullable, byRef, parameters,
    steps⟩ := bindMethod_ok h
  have hlt' : container.index < parametersBound.table.definitions.size := by
    rw [steps.quiet.shape.size]
    exact hlt
  refine ⟨steps.grows, [⟨o.table.nextMethod, container, m⟩], rfl, fun e he => ?_, fun id => ?_,
    fun e he => ?_, List.pairwise_singleton _ _⟩
  · rw [List.mem_singleton.mp he]
    exact steps.implements
  · have hids : parametersBound.table.methodIds id = o.table.methodIds id :=
      steps.quiet.methodIds id
    rw [← hids, filter_singleton, steps.complete]
    exact SymbolTable.methodIds_addMember _ id hlt'
  · rw [List.mem_singleton.mp he]
    exact Nat.le_refl _

end

/-! ### Parts of types -/

/-- The forms of the methods among some members. -/
def methodForms (members : List MemberForm) : List MethodForm :=
  members.filterMap fun
    | .method m => some m
    | .values _ => none

/-- The forms of the methods that a part declares, where the first part of its type is of some
kind. -/
def formsOf (kind : DefinitionKind) (part : DeclaredPart) : List MethodForm :=
  match kind with
  | .delegateType => [invokeForm part]
  | .enumType => []
  | _ =>
    (if part.form.hasParameterList then [primaryConstructorForm part] else []) ++
      methodForms part.form.members

/-- The form of a constructor that a type has without declaring it. -/
def implicitForm (access : Accessibility) : MethodForm :=
  { kind := .constructor, name := ".ctor", modifiers := { access := some access } }

theorem makes_bindPrimaryConstructor {ctx : Context} {part : DeclaredPart}
    (hlt : part.type.index < o.table.definitions.size)
    (h : o.bindPrimaryConstructor ctx part = .ok o') :
    Makes o o' ((if part.form.hasParameterList then [primaryConstructorForm part] else []).map
      (part.type, ·)) := by
  rw [bindPrimaryConstructor] at h
  split at h
  · next hlist =>
    obtain ⟨made, hmade, rfl⟩ := ok_of_map h
    have hmakes := makes_bindMethod hlt hmade
    rw [if_pos hlist, List.map_singleton]
    split
    · exact hmakes.trans (quiet_addRecordProperties part _).makes
    · exact hmakes
  · next hlist =>
    cases h
    rw [if_neg hlist]
    exact (Quiet.refl o).makes

/-- Binding one member. -/
def bindMember (o : Outline) (ctx : Context) (container : TypeId) :
    MemberForm → Except BindError Outline
  | .method m => o.bindMethod ctx container m
  | .values v => o.bindValues ctx container v

theorem bindMembers_cons (o : Outline) (ctx : Context) (container : TypeId) (form : MemberForm)
    (rest : List MemberForm) :
    o.bindMembers ctx container (form :: rest)
      = match o.bindMember ctx container form with
        | .error e => .error e
        | .ok o => o.bindMembers ctx container rest := by
  cases form <;> rfl

theorem bindMembers_cons_ok {ctx : Context} {container : TypeId} {form : MemberForm}
    {rest : List MemberForm} (h : o.bindMembers ctx container (form :: rest) = .ok o') :
    ∃ bound, o.bindMember ctx container form = .ok bound ∧
      bound.bindMembers ctx container rest = .ok o' := by
  rw [bindMembers_cons] at h
  split at h
  · cases h
  · next bound hbound => exact ⟨bound, hbound, h⟩

/-- Binding a member changes nothing that is there. -/
theorem grows_bindMember {ctx : Context} {container : TypeId} {form : MemberForm}
    (h : o.bindMember ctx container form = .ok o') : Grows o o' := by
  cases form with
  | method m => exact grows_bindMethod h
  | values v => exact (quiet_bindValues h).grows

theorem makes_bindMembers {ctx : Context} {container : TypeId} {members : List MemberForm}
    (hlt : container.index < o.table.definitions.size)
    (h : o.bindMembers ctx container members = .ok o') :
    Makes o o' ((methodForms members).map (container, ·)) := by
  induction members generalizing o with
  | nil =>
    cases h
    exact (Quiet.refl _).makes
  | cons form rest ih =>
    obtain ⟨bound, hbound, hrest⟩ := bindMembers_cons_ok h
    cases form with
    | method m =>
      have hmakes := makes_bindMethod hlt hbound
      exact hmakes.trans (ih (hmakes.grows.shape.size ▸ hlt) hrest)
    | values v =>
      have hquiet := quiet_bindValues hbound
      exact hquiet.makes.trans (ih (hquiet.shape.size ▸ hlt) hrest)

/-- The place where the members of a part stand. -/
def placeOf (part : DeclaredPart) : Context :=
  { scopes := part.scopes, enclosing := part.type :: part.enclosing }

/-- Makes what the type of a part is made of, once the clauses of the part are bound. -/
def bindContents (o : Outline) (part : DeclaredPart) : Except BindError Outline :=
  match (o.table.definition part.type).kind with
  | .delegateType => o.bindMethod (placeOf part) part.type (invokeForm part)
  | .enumType => .ok (o.bindEnumMembers part)
  | _ =>
    match o.bindPrimaryConstructor (placeOf part) part with
    | .error e => .error e
    | .ok o => o.bindMembers (placeOf part) part.type part.form.members

theorem bindPart_eq (o : Outline) (part : DeclaredPart) :
    o.bindPart part
      = match o.bindClauses (placeOf part) (o.table.typeParametersOf part.type)
          part.form.constraints with
        | .error e => .error e
        | .ok o => o.bindContents part :=
  rfl

/-- The steps of binding a part: its clauses, and then what its type is made of. -/
theorem bindPart_ok {part : DeclaredPart} (h : o.bindPart part = .ok o') :
    ∃ clausesBound, o.bindClauses (placeOf part) (o.table.typeParametersOf part.type)
        part.form.constraints = .ok clausesBound ∧
      (((o.table.definition part.type).kind = .delegateType ∧
          clausesBound.bindMethod (placeOf part) part.type (invokeForm part) = .ok o') ∨
        ((o.table.definition part.type).kind = .enumType ∧
          o' = clausesBound.bindEnumMembers part) ∨
        ((o.table.definition part.type).kind ≠ .delegateType ∧
          (o.table.definition part.type).kind ≠ .enumType ∧
          ∃ constructed, clausesBound.bindPrimaryConstructor (placeOf part) part = .ok constructed ∧
            constructed.bindMembers (placeOf part) part.type part.form.members = .ok o')) := by
  rw [bindPart] at h
  split at h
  · cases h
  · next clausesBound hclauses =>
    have hkind := ((quiet_bindClauses hclauses).shape.agrees part.type).kind
    refine ⟨clausesBound, hclauses, ?_⟩
    split at h
    · next hdelegate => exact Or.inl ⟨hkind ▸ hdelegate, h⟩
    · next henum => exact Or.inr (Or.inl ⟨hkind ▸ henum, (Except.ok.inj h).symm⟩)
    · next hdelegate henum =>
      refine Or.inr (Or.inr ⟨hkind ▸ hdelegate, hkind ▸ henum, ?_⟩)
      split at h
      · cases h
      · next constructed hconstructed => exact ⟨constructed, hconstructed, h⟩

theorem makes_bindPart {part : DeclaredPart} (hlt : part.type.index < o.table.definitions.size)
    (h : o.bindPart part = .ok o') :
    Makes o o' ((formsOf (o.table.definition part.type).kind part).map (part.type, ·)) := by
  obtain ⟨clausesBound, hclauses, hrest⟩ := bindPart_ok h
  have hquiet := quiet_bindClauses hclauses
  have hlt' : part.type.index < clausesBound.table.definitions.size := hquiet.shape.size ▸ hlt
  rcases hrest with ⟨hkind, hinvoke⟩ | ⟨hkind, rfl⟩ | ⟨hdelegate, henum, constructed, hconstructed,
    hmembers⟩
  · rw [hkind]
    exact hquiet.makes.trans (makes_bindMethod hlt' hinvoke)
  · rw [hkind]
    exact (hquiet.trans (quiet_bindEnumMembers part)).makes
  · have hconstructor := makes_bindPrimaryConstructor hlt' hconstructed
    have hmethods := makes_bindMembers (hconstructor.grows.shape.size ▸ hlt') hmembers
    have hforms : formsOf (o.table.definition part.type).kind part
        = (if part.form.hasParameterList then [primaryConstructorForm part] else []) ++
          methodForms part.form.members := by
      rw [formsOf]
      · exact fun he => hdelegate he
      · exact fun he => henum he
    rw [hforms, List.map_append]
    exact hquiet.makes.trans (hconstructor.trans hmethods)

/-- What parts declare, each with its type. -/
def partForms (table : SymbolTable) (parts : List DeclaredPart) : List (TypeId × MethodForm) :=
  parts.flatMap fun part => (formsOf (table.definition part.type).kind part).map (part.type, ·)

theorem partForms_sameShape {table table' : SymbolTable} (hs : SameShape table table')
    (parts : List DeclaredPart) : partForms table' parts = partForms table parts := by
  refine List.flatMap_congr fun part _ => ?_
  rw [(hs.agrees part.type).kind]

theorem makes_bindParts {parts : List DeclaredPart}
    (hlt : ∀ part ∈ parts, part.type.index < o.table.definitions.size)
    (h : o.bindParts parts = .ok o') : Makes o o' (partForms o.table parts) := by
  induction parts generalizing o with
  | nil =>
    cases h
    exact (Quiet.refl _).makes
  | cons part rest ih =>
    rw [bindParts] at h
    split at h
    · cases h
    · next bound hbound =>
      have hmakes := makes_bindPart (hlt part List.mem_cons_self) hbound
      have hrest := ih (fun other hother =>
        hmakes.grows.shape.size ▸ hlt other (List.mem_cons_of_mem part hother)) h
      rw [partForms_sameShape hmakes.grows.shape] at hrest
      exact hmakes.trans hrest

theorem bindParts_append (o : Outline) (front back : List DeclaredPart) :
    o.bindParts (front ++ back) = match o.bindParts front with
      | .error e => .error e
      | .ok o => o.bindParts back := by
  induction front generalizing o with
  | nil => rfl
  | cons part rest ih =>
    rw [List.cons_append, bindParts, bindParts]
    cases o.bindPart part with
    | error e => rfl
    | ok bound => exact ih bound

/-! ### Whole types -/

/-- The constructor that a type has without declaring it. -/
def implicitMethod (table : SymbolTable) (id : TypeId) (access : Accessibility) : Method :=
  { name := ".ctor"
    container := some (table.definitionType id)
    access
    kind := .constructor
    isImplicit := true }

/-- The outline with that constructor made. -/
def withImplicit (o : Outline) (id : TypeId) (access : Accessibility) : Outline :=
  let table := o.table.addMethod (implicitMethod o.table id access)
  { o with table := table.addMember id (.method o.table.nextMethod) }

theorem addImplicit_eq (o : Outline) (id : TypeId) :
    o.addImplicit id = match implicitConstructor? o.table id with
      | none => o
      | some access => o.withImplicit id access :=
  rfl

theorem grows_withImplicit (id : TypeId) (access : Accessibility) :
    Grows o (o.withImplicit id access) :=
  (grows_addMethod o (implicitMethod o.table id access)).trans (grows_addMember id rfl)

theorem implements_withImplicit (id : TypeId) (access : Accessibility) :
    Implements (o.withImplicit id access).table id o.table.nextMethod (implicitForm access) := by
  have hsize : (o.withImplicit id access).table.methods.size = o.table.methods.size + 1 :=
    SymbolTable.size_addMethod _
  have hmethod : (o.withImplicit id access).table.method o.table.nextMethod
      = implicitMethod o.table id access := by
    show (o.table.addMethod _).method _ = _
    rw [SymbolTable.method_addMethod, if_pos rfl]
  have hcontainer := (grows_withImplicit (o := o) id access).shape.definitionType id
  constructor
  case lt => exact hsize ▸ Nat.lt_succ_self _
  case container =>
    rw [hmethod, hcontainer]
    rfl
  case placed =>
    rw [hmethod]
    exact TypeParameter.placed_nil
  case own =>
    rw [hmethod]
    intro i p hp
    cases hp
  all_goals
    rw [hmethod]
    rfl

/-- A type that has a constructor without declaring it gains that, and nothing else. -/
theorem makes_addImplicit {id : TypeId} (hlt : id.index < o.table.definitions.size) :
    Makes o (o.addImplicit id)
      (((implicitConstructor? o.table id).toList.map implicitForm).map (id, ·)) := by
  rw [addImplicit_eq]
  cases implicitConstructor? o.table id with
  | none => exact (Quiet.refl o).makes
  | some access =>
    refine ⟨grows_withImplicit id access, [⟨o.table.nextMethod, id, implicitForm access⟩], rfl,
      fun e he => ?_, fun other => ?_, fun e he => ?_, List.pairwise_singleton _ _⟩
    · rw [List.mem_singleton.mp he]
      exact implements_withImplicit id access
    · rw [filter_singleton]
      exact SymbolTable.methodIds_addMember _ other hlt
    · rw [List.mem_singleton.mp he]
      exact Nat.le_refl _

/-- Saying whether a type is one to look for extension methods in changes nothing else. -/
theorem quiet_flag (id : TypeId) (might : Bool) :
    Quiet o { o with
      table := o.table.updateDefinition id fun d =>
        { d with traits := { d.traits with mightHoldExtensions := might } } } :=
  quiet_updateDefinition (SymbolTable.sameShape_updateDefinition id ⟨rfl, rfl, rfl, rfl⟩ rfl) rfl rfl

theorem grows_finish (o : Outline) (id : TypeId) : Grows o (o.finish id) := by
  refine Grows.trans ?_ (quiet_flag id (mightHoldExtensions (o.addImplicit id).table id)).grows
  rw [addImplicit_eq]
  cases implicitConstructor? o.table id with
  | none => exact .refl o
  | some access => exact grows_withImplicit id access

theorem grows_foldl_finish (ids : List TypeId) : Grows o (ids.foldl finish o) := by
  induction ids generalizing o with
  | nil => exact .refl o
  | cons id rest ih => exact (grows_finish o id).trans ih

theorem makes_finish {id : TypeId} (hlt : id.index < o.table.definitions.size) :
    Makes o (o.finish id)
      (((implicitConstructor? o.table id).toList.map implicitForm).map (id, ·)) := by
  have hmakes := (makes_addImplicit hlt).trans
    (quiet_flag id (mightHoldExtensions (o.addImplicit id).table id)).makes
  rw [List.append_nil] at hmakes
  exact hmakes

/-- Whether a type that gained methods from some forms is one to look for extension methods in. -/
def mightHold (table : SymbolTable) (forms : List (TypeId × MethodForm)) (id : TypeId) : Bool :=
  mayExtend table id && forms.any fun f => f.1 = id && receives f.2

theorem methodsOf_eq (table : SymbolTable) (id : TypeId) :
    methodsOf table id = (table.methodIds id).map table.method := by
  rw [methodsOf, SymbolTable.methodIds, SymbolTable.methodsAmong, List.map_filterMap]
  refine List.filterMap_congr fun member _ => ?_
  cases member <;> rfl

theorem mightHoldExtensions_of_makes {forms : List (TypeId × MethodForm)} (h : Makes a b forms)
    {id : TypeId} (hempty : a.table.methodIds id = []) :
    mightHoldExtensions b.table id = mightHold a.table forms id := by
  obtain ⟨made, hforms, hgains⟩ := h.made
  rw [mightHoldExtensions, mightHold, mayExtend_grows h.grows, methodsOf_eq, hgains.methodIds, hempty,
    List.nil_append, ← hforms, Bool.eq_iff_iff, Bool.and_eq_true, Bool.and_eq_true]
  refine and_congr_right fun _ => ?_
  simp only [List.any_map, List.any_filter, List.any_eq_true, Function.comp_apply]
  refine exists_congr fun e => and_congr_right fun he => ?_
  rw [hasThis_eq (hgains.implements e he).parameters]

theorem traits_addImplicit (o : Outline) (id other : TypeId) :
    ((o.addImplicit id).table.definition other).traits = (o.table.definition other).traits := by
  rw [addImplicit_eq]
  cases implicitConstructor? o.table id with
  | none => rfl
  | some access => exact SymbolTable.traits_addMember id _ other

/-- A type is one to look for extension methods in. -/
def flagged (table : SymbolTable) (id : TypeId) : Bool :=
  (table.definition id).traits.mightHoldExtensions

theorem flagged_finish (o : Outline) (id other : TypeId) :
    flagged (o.finish id).table other
      = if other = id ∧ id.index < (o.addImplicit id).table.definitions.size then
          mightHoldExtensions (o.addImplicit id).table id
        else flagged o.table other := by
  show ((SymbolTable.updateDefinition _ id _).definition other).traits.mightHoldExtensions = _
  rw [SymbolTable.definition_updateDefinition]
  split
  · rfl
  · rw [flagged, ← traits_addImplicit o id other]

/-- **Completing types one after the other makes constructors only, and says of each of them
whether it is one to look for extension methods in.** -/
theorem foldl_finish {forms extra : List (TypeId × MethodForm)} {ids : List TypeId}
    (hempty : ∀ id, o.table.methodIds id = [])
    (hids : ∀ id ∈ ids, id.index < o.table.definitions.size)
    (h : Makes o a (forms ++ extra)) (hextra : ∀ f ∈ extra, ∃ access, f.2 = implicitForm access) :
    ∃ extra', Makes o (ids.foldl finish a) (forms ++ extra') ∧
      (∀ f ∈ extra', ∃ access, f.2 = implicitForm access) ∧
      ∀ id, id ∈ ids ∨ flagged a.table id = mightHold o.table forms id →
        flagged (ids.foldl finish a).table id = mightHold o.table forms id := by
  induction ids generalizing a extra with
  | nil =>
    refine ⟨extra, h, hextra, fun id hid => ?_⟩
    rcases hid with hid | hid
    · cases hid
    · exact hid
  | cons first rest ih =>
    have hlt : first.index < a.table.definitions.size := by
      rw [h.grows.shape.size]
      exact hids first List.mem_cons_self
    generalize hnew : ((implicitConstructor? a.table first).toList.map implicitForm).map
      (first, ·) = new
    have hmakes := h.trans (makes_finish hlt)
    have hadded := h.trans (makes_addImplicit hlt)
    rw [hnew, List.append_assoc] at hmakes hadded
    have hall : ∀ f ∈ extra ++ new, ∃ access, f.2 = implicitForm access := by
      intro f hf
      rcases List.mem_append.mp hf with hf | hf
      · exact hextra f hf
      · rw [← hnew] at hf
        obtain ⟨form, hform, rfl⟩ := List.mem_map.mp hf
        obtain ⟨access, -, rfl⟩ := List.mem_map.mp hform
        exact ⟨access, rfl⟩
    -- constructors without parameters have no receiver
    have hflag : mightHoldExtensions (a.addImplicit first).table first
        = mightHold o.table forms first := by
      have hnone : ((extra ++ new).any fun f => f.1 = first && receives f.2) = false := by
        refine List.any_eq_false.mpr fun f hf => ?_
        obtain ⟨access, he⟩ := hall f hf
        rw [he]
        simp [receives, implicitForm]
      rw [mightHoldExtensions_of_makes hadded (hempty first), mightHold, mightHold, List.any_append,
        hnone, Bool.or_false]
    obtain ⟨extra', hmakes', hextra', hflags⟩ :=
      ih (fun id hid => hids id (List.mem_cons_of_mem first hid)) hmakes hall
    refine ⟨extra', hmakes', hextra', fun id hid => hflags id ?_⟩
    by_cases hfirst : id = first
    · refine Or.inr ?_
      rw [flagged_finish, if_pos ⟨hfirst, hadded.grows.shape.size ▸ hids first List.mem_cons_self⟩,
        hflag, hfirst]
    · rw [flagged_finish, if_neg fun he => hfirst he.1]
      rcases hid with hid | hid
      · exact Or.inl ((List.mem_cons.mp hid).resolve_left hfirst)
      · exact Or.inr hid

/-- **The second pass makes one method for each form of each part, in order, and after that
constructors only; and it says of every declared type whether it is one to look for extension
methods in.** -/
theorem Outlined.makes_bind (ho : Outlined o) (h : o.bind = .ok o') :
    ∃ extra, Makes o o' (partForms o.table o.parts ++ extra) ∧
      (∀ f ∈ extra, ∃ access, f.2 = implicitForm access) ∧
      ∀ id ∈ o.declaredTypes,
        flagged o'.table id = mightHold o.table (partForms o.table o.parts) id := by
  have hparts : ∀ part ∈ o.parts, part.type.index < o.table.definitions.size :=
    fun part hp => (ho.parts part hp).head_lt
  obtain ⟨bound, hbound, rfl⟩ := ok_of_map h
  have hmakes := makes_bindParts hparts hbound
  rw [← List.append_nil (partForms o.table o.parts)] at hmakes
  have hids : ∀ id ∈ o.declaredTypes, id.index < o.table.definitions.size := by
    intro id hid
    obtain ⟨part, hpart, rfl⟩ := List.mem_map.mp (List.mem_eraseDups.mp hid)
    exact hparts part hpart
  obtain ⟨extra, hfinal, hextra, hflags⟩ :=
    foldl_finish ho.bare.methodIds hids hmakes fun f hf => by cases hf
  exact ⟨extra, hfinal, hextra, fun id hid => hflags id (Or.inl hid)⟩

end

end ExtensionCensus.Binding.Outline

namespace ExtensionCensus.Binding

/-- A compilation that is not finished is bound by the second pass. -/
theorem Compilation.bind_ok {c c' : Compilation} (hc : c.isBound = false) (h : c.bind = .ok c') :
    c.outline.bind = .ok c'.outline := by
  rw [bind, hc] at h
  simp only [Bool.false_eq_true, ↓reduceIte] at h
  split at h
  · cases h
  · next outline houtline =>
    cases h
    exact houtline

end ExtensionCensus.Binding
