import ExtensionCensus.Proofs.Binding.Listing
import ExtensionCensus.Proofs.Extension.Qualifying

/-!
# The second pass, member by member

The second pass goes over the parts of types in order and makes the members that they declare, each in
an outline that it has come to by then.

* `Made`, `Passes` — what is made of a part, and the way from one outline to another;
* `declaredMembers`, `passesOver_bindPart`, `passesOver_bindParts` — **binding parts makes what they
  declare, in order**;
* `Passes.ahead`, `Passes.untouched`, `Passes.members` — what is kept on the way, and what types come to
  list;
* `Passes.origin` — **a method is what it was when it was bound**;
* `BoundBy`, `Outlined.boundBy` — the whole pass;
* `BoundBy.extensionMethods`, `BoundBy.hasOtherMembers_iff` — **which members of a type are extension
  methods is told by what its parts declare**.
-/

namespace ExtensionCensus

/-- The definition has the keyword, the full name and the accessibility that it had. -/
structure TypeDefinition.SameLabel (d e : TypeDefinition) : Prop where
  keyword : e.keyword = d.keyword
  metadataName : e.metadataName = d.metadataName
  access : e.traits.access = d.traits.access

theorem TypeDefinition.SameLabel.refl (d : TypeDefinition) : d.SameLabel d :=
  ⟨rfl, rfl, rfl⟩

theorem TypeDefinition.SameLabel.trans {d e f : TypeDefinition} (h : d.SameLabel e)
    (h' : e.SameLabel f) : d.SameLabel f :=
  ⟨h'.keyword.trans h.keyword, h'.metadataName.trans h.metadataName, h'.access.trans h.access⟩

/-- A change of a definition that keeps its label. -/
theorem SymbolTable.sameLabel_updateDefinition (table : SymbolTable) (id : TypeId)
    {f : TypeDefinition → TypeDefinition} (hf : ∀ d : TypeDefinition, d.SameLabel (f d))
    (other : TypeId) :
    (table.definition other).SameLabel ((table.updateDefinition id f).definition other) := by
  rw [definition_updateDefinition]
  split
  · next he =>
    rw [he.1]
    exact hf _
  · exact .refl _

namespace Binding.Outline

open Source (TypeForm ConstraintClause MethodForm ValueForm MemberForm)

/-- The outline `b` is what the second pass may make of `a`: it declares the same types, and these are
labelled as they were. -/
structure Ahead (a b : Outline) : Prop extends Grows a b where
  sameLabel : ∀ id, (a.table.definition id).SameLabel (b.table.definition id)

theorem Ahead.trans {a b c : Outline} (h : Ahead a b) (h' : Ahead b c) : Ahead a c :=
  ⟨h.toGrows.trans h'.toGrows, fun id => (h.sameLabel id).trans (h'.sameLabel id)⟩

/-! ### What is made -/

/-- Something that is made of a part: a method from a form, or a field, property or event. -/
inductive Made where
  | method (id : MethodId) (part : DeclaredPart) (form : MethodForm)
  | value (id : ValueId) (part : DeclaredPart)

namespace Made

/-- The part that it is made of. -/
def part : Made → DeclaredPart
  | method _ part _ => part
  | value _ part => part

/-- The member that its type lists. -/
def member : Made → Member
  | method id _ _ => .method id
  | value id _ => .value id

/-- The form that it is made from, if it is a method. -/
def form? : Made → Option MethodForm
  | method _ _ form => some form
  | value _ _ => none

/-- The method, if its form declares an extension method. -/
def extension? : Made → Option MethodId
  | method id _ form => if declaresExtension form then some id else none
  | value _ _ => none

end Made

/-- The second pass came from the outline `a` to `b`, and on its way made members of some parts. -/
inductive Passes (a : Outline) : Outline → List Made → Prop where
  | start : Passes a a []
  | noted {b : Outline} {made : List Made} (h : Passes a b made) (t : Ty)
      (unread : List UnreadType) : Passes a { b with table := b.table.note t, unread } made
  | constrained {b : Outline} {made : List Made} (h : Passes a b made) (owner : TypeId) (i : Nat)
      (c : Constraint) : Passes a { b with table := b.table.constrain (.ofType owner i) c } made
  | method {b c : Outline} {made : List Made} (h : Passes a b made) {part : DeclaredPart}
      {form : MethodForm} (hm : b.bindMethod (placeOf part) part.type form = .ok c) :
      Passes a c (made ++ [.method b.table.nextMethod part form])
  | value {b : Outline} {made : List Made} (h : Passes a b made) (part : DeclaredPart)
      (v : ValueMember) : Passes a (b.addValue part.type v) (made ++ [.value b.table.nextValue part])

/-- The second pass comes from the outline `a` to `b` over what some parts declare: methods by their
forms, and fields, properties and events. -/
def PassesOver (a b : Outline) (declared : List (DeclaredPart × Option MethodForm)) : Prop :=
  ∃ made, Passes a b made ∧ made.map (fun e => (e.part, e.form?)) = declared

section

variable {a b c : Outline} {made more : List Made} {part : DeclaredPart}

theorem Passes.trans (h : Passes a b made) (h' : Passes b c more) : Passes a c (made ++ more) := by
  induction h' with
  | start =>
    rw [List.append_nil]
    exact h
  | noted _ t unread ih => exact ih.noted t unread
  | constrained _ owner i c ih => exact ih.constrained owner i c
  | method _ hm ih =>
    rw [← List.append_assoc]
    exact ih.method hm
  | value _ part v ih =>
    rw [← List.append_assoc]
    exact ih.value part v

theorem PassesOver.trans {declared rest : List (DeclaredPart × Option MethodForm)}
    (h : PassesOver a b declared) (h' : PassesOver b c rest) :
    PassesOver a c (declared ++ rest) := by
  obtain ⟨made, hmade, rfl⟩ := h
  obtain ⟨more, hmore, rfl⟩ := h'
  exact ⟨made ++ more, hmade.trans hmore, List.map_append⟩

theorem Passes.passesOver (h : Passes a b []) : PassesOver a b [] :=
  ⟨[], h, rfl⟩

/-! ### Steps over a part -/

/-- What a member form declares. -/
def declaredIn : MemberForm → List (Option MethodForm)
  | .method m => [some m]
  | .values v => v.names.map fun _ => none

/-- What a parameter list declares: a constructor, and of a record a property for each parameter. -/
def declaredByParameters (part : DeclaredPart) : List (Option MethodForm) :=
  if part.form.hasParameterList then
    some (primaryConstructorForm part) ::
      if part.form.isRecord then part.form.parameters.map fun _ => none else []
  else []

/-- What a part declares, where the first part of its type is of some kind. -/
def declaredMembers (kind : DefinitionKind) (part : DeclaredPart) : List (Option MethodForm) :=
  match kind with
  | .delegateType => [some (invokeForm part)]
  | .enumType => part.form.enumMembers.map fun _ => none
  | _ => declaredByParameters part ++ part.form.members.flatMap declaredIn

theorem passes_bindClauses {clauses : List ConstraintClause}
    (h : a.bindClauses (placeOf part) (a.table.typeParametersOf part.type) clauses = .ok b) :
    Passes a b [] := by
  have hsteady : Steady (a.table.typeParametersOf part.type) fun x => Passes a x [] := by
    refine ⟨fun hx t unread => hx.noted t unread, fun hx p hp c => ?_⟩
    obtain ⟨i, -, rfl⟩ := List.mem_map.mp hp
    exact hx.constrained part.type i c
  exact hsteady.bindClauses .start h

theorem passesOver_bindMethod {form : MethodForm}
    (h : a.bindMethod (placeOf part) part.type form = .ok b) :
    PassesOver a b [(part, some form)] :=
  ⟨_, Passes.start.method h, rfl⟩

theorem passesOver_foldl_addValue {α : Type} {f : Outline → α → ValueMember} (part : DeclaredPart)
    (xs : List α) : PassesOver a (xs.foldl (fun o x => o.addValue part.type (f o x)) a)
      (xs.map fun _ => (part, none)) := by
  induction xs generalizing a with
  | nil => exact Passes.start.passesOver
  | cons x rest ih =>
    have hfirst : PassesOver a (a.addValue part.type (f a x)) [(part, none)] :=
      ⟨_, Passes.start.value part (f a x), rfl⟩
    exact hfirst.trans ih

theorem passesOver_bindMember {form : MemberForm}
    (h : a.bindMember (placeOf part) part.type form = .ok b) :
    PassesOver a b ((declaredIn form).map (part, ·)) := by
  cases form with
  | method m => exact passesOver_bindMethod h
  | values v =>
    obtain ⟨⟨bound, t⟩, hbound, rfl⟩ := ok_of_map h
    obtain ⟨-, rfl⟩ := bindType_ok hbound
    rw [declaredIn, List.map_map]
    exact (Passes.start.noted t _).passesOver.trans (passesOver_foldl_addValue part v.names)

theorem passesOver_bindMembers {members : List MemberForm}
    (h : a.bindMembers (placeOf part) part.type members = .ok b) :
    PassesOver a b ((members.flatMap declaredIn).map (part, ·)) := by
  induction members generalizing a with
  | nil =>
    cases h
    exact Passes.start.passesOver
  | cons form rest ih =>
    obtain ⟨bound, hbound, hrest⟩ := bindMembers_cons_ok h
    rw [List.flatMap_cons, List.map_append]
    exact (passesOver_bindMember hbound).trans (ih hrest)

theorem passesOver_addRecordProperties (part : DeclaredPart) (ps : List Parameter) :
    PassesOver a (a.addRecordProperties part ps) (ps.map fun _ => (part, none)) :=
  passesOver_foldl_addValue part ps

theorem passesOver_bindPrimaryConstructor
    (h : a.bindPrimaryConstructor (placeOf part) part = .ok b) :
    PassesOver a b ((declaredByParameters part).map (part, ·)) := by
  rw [bindPrimaryConstructor] at h
  rw [declaredByParameters]
  split at h
  · next hlist =>
    obtain ⟨bound, hbound, rfl⟩ := ok_of_map h
    have hmethod := passesOver_bindMethod hbound
    -- the method that was made has a parameter for each that is written
    obtain ⟨_, _, _, _, _, _, _, steps⟩ := bindMethod_ok hbound
    have hlength := congrArg List.length steps.implements.parameters
    rw [List.length_map, List.length_map] at hlength
    rw [if_pos hlist]
    split
    · have hproperties := @passesOver_addRecordProperties bound part
        (bound.table.method a.table.nextMethod).parameters
      rw [List.map_const', hlength, ← List.map_const'] at hproperties
      rw [List.map_cons, List.map_map]
      exact hmethod.trans hproperties
    · exact hmethod
  · next hlist =>
    cases h
    rw [if_neg hlist]
    exact Passes.start.passesOver

/-- **Binding a part makes what it declares, in order.** -/
theorem passesOver_bindPart (h : a.bindPart part = .ok b) :
    PassesOver a b ((declaredMembers (a.table.definition part.type).kind part).map (part, ·)) := by
  obtain ⟨bound, hclauses, hrest⟩ := bindPart_ok h
  refine (passes_bindClauses hclauses).passesOver.trans ?_
  rcases hrest with ⟨hkind, hinvoke⟩ | ⟨hkind, rfl⟩ | ⟨hdelegate, henum, constructed, hconstructed,
    hmembers⟩
  · rw [hkind]
    exact passesOver_bindMethod hinvoke
  · rw [hkind, declaredMembers, List.map_map]
    exact passesOver_foldl_addValue part part.form.enumMembers
  · have hdeclared : declaredMembers (a.table.definition part.type).kind part
        = declaredByParameters part ++ part.form.members.flatMap declaredIn := by
      rw [declaredMembers]
      · exact fun he => hdelegate he
      · exact fun he => henum he
    rw [hdeclared, List.map_append]
    exact (passesOver_bindPrimaryConstructor hconstructed).trans (passesOver_bindMembers hmembers)

/-! ### What is kept -/

theorem Passes.grows (h : Passes a b made) : Grows a b := by
  induction h with
  | start => exact .refl a
  | noted _ t unread ih => exact ih.trans (quiet_note _ t unread).grows
  | constrained _ owner i c ih => exact ih.trans (quiet_constrain (.ofType owner i) c).grows
  | method _ hm ih => exact ih.trans (grows_bindMethod hm)
  | value _ part v ih => exact ih.trans (quiet_addValue part.type v).grows

/-- What some parts declare, each with its part. -/
def partMembers (table : SymbolTable) (parts : List DeclaredPart) :
    List (DeclaredPart × Option MethodForm) :=
  parts.flatMap fun part => (declaredMembers (table.definition part.type).kind part).map (part, ·)

/-- What is made of what some parts declare is made of one of them. -/
theorem part_mem_of_declared {table : SymbolTable} {parts : List DeclaredPart}
    (h : made.map (fun e => (e.part, e.form?)) = partMembers table parts) {e : Made}
    (he : e ∈ made) : e.part ∈ parts := by
  have hmem : (e.part, e.form?) ∈ partMembers table parts := h ▸ List.mem_map_of_mem he
  obtain ⟨part, hpart, hform⟩ := List.mem_flatMap.mp hmem
  obtain ⟨form, -, hsame⟩ := List.mem_map.mp hform
  rw [← (Prod.mk.inj hsame).1]
  exact hpart

/-- **Binding parts makes what they declare, in order.** -/
theorem passesOver_bindParts {parts : List DeclaredPart} (h : a.bindParts parts = .ok b) :
    PassesOver a b (partMembers a.table parts) := by
  induction parts generalizing a with
  | nil =>
    cases h
    exact Passes.start.passesOver
  | cons part rest ih =>
    rw [bindParts] at h
    split at h
    · cases h
    · next bound hbound =>
      have hfirst := passesOver_bindPart hbound
      have hgrows : Grows a bound := by
        obtain ⟨made, hmade, -⟩ := hfirst
        exact hmade.grows
      have hkinds : partMembers bound.table rest = partMembers a.table rest :=
        List.flatMap_congr fun other _ => by rw [(hgrows.shape.agrees other.type).kind]
      have hrest := ih h
      rw [hkinds] at hrest
      exact hfirst.trans hrest

/-- Methods and values that are there stay as they are. -/
theorem Passes.untouched (h : Passes a b made) : Untouched (fun _ => False) a b := by
  induction h with
  | start => exact .refl _ a
  | noted _ t unread ih => exact untouched_note ih t unread
  | constrained _ owner i c ih => exact ih.updateDefinition id fun m hm => .inl hm
  | method _ hm ih => exact ih.trans ((untouched_bindMethod hm).mono fun _ hid => hid.elim)
  | value _ part v ih => exact ih.trans ((untouched_addValue v).mono fun _ hid => hid.elim)

/-- Noting types and constraining keep what definitions are labelled with. -/
theorem steady_sameLabel (ps : List TypeParameterRef) (o : Outline) :
    Steady ps fun q => ∀ id, (o.table.definition id).SameLabel (q.table.definition id) := by
  refine ⟨fun {q} hq t unread id => ?_, fun {q} hq p _ c id => ?_⟩
  · obtain ⟨instances, hnote⟩ := SymbolTable.note_eq q.table t
    rw [hnote]
    exact hq id
  · refine (hq id).trans ?_
    cases p with
    | ofType owner i =>
      refine SymbolTable.sameLabel_updateDefinition _ owner (fun d => ?_) id
      exact ⟨rfl, rfl, rfl⟩
    | ofMethod owner i => exact .refl _
    | free i => exact .refl _

theorem sameLabel_addMember (table : SymbolTable) (container : TypeId) (m : Member) (id : TypeId) :
    (table.definition id).SameLabel ((table.addMember container m).definition id) := by
  refine SymbolTable.sameLabel_updateDefinition table container (fun d => ?_) id
  exact ⟨rfl, rfl, rfl⟩

theorem sameLabel_bindMethod {ctx : Context} {container : TypeId} {m : MethodForm}
    (h : a.bindMethod ctx container m = .ok b) (id : TypeId) :
    (a.table.definition id).SameLabel (b.table.definition id) := by
  obtain ⟨_, _, bound, _, _, _, _, steps⟩ := bindMethod_ok h
  have hbound := (steady_sameLabel _ a).signature (fun id => .refl _) steps
  rw [steps.complete]
  exact (hbound id).trans (sameLabel_addMember (bound.table.updateMethod _ _) container _ id)

theorem Passes.sameLabel (h : Passes a b made) (id : TypeId) :
    (a.table.definition id).SameLabel (b.table.definition id) := by
  induction h with
  | start => exact .refl _
  | noted _ t unread ih => exact ih.trans ((steady_sameLabel [] _).note (fun _ => .refl _) t unread id)
  | constrained _ owner i c ih =>
    exact ih.trans ((steady_sameLabel [.ofType owner i] _).constrain (fun _ => .refl _) _
      (List.mem_singleton.mpr rfl) c id)
  | method _ hm ih => exact ih.trans (sameLabel_bindMethod hm id)
  | @value b _ _ part v ih => exact ih.trans (sameLabel_addMember (b.table.addValue v) part.type _ id)

/-- A method that is bound is listed by its type, and nothing else is. -/
theorem members_bindMethod {ctx : Context} {container : TypeId} {m : MethodForm}
    (hlt : container.index < a.table.definitions.size) (h : a.bindMethod ctx container m = .ok b)
    (id : TypeId) : b.table.members id
      = a.table.members id ++ if id = container then [.method a.table.nextMethod] else [] := by
  obtain ⟨_, _, bound, _, _, _, _, steps⟩ := bindMethod_ok h
  obtain ⟨hmembers, -⟩ := (steady_members _ a).signature ⟨fun _ => rfl, rfl⟩ steps
  have hlt' : container.index < bound.table.definitions.size := by
    rw [steps.quiet.shape.size]
    exact hlt
  rw [steps.complete, ← hmembers id]
  exact @SymbolTable.members_addMember (bound.table.updateMethod _ _) container hlt' _ id

theorem Passes.ahead (h : Passes a b made) : Ahead a b :=
  ⟨h.grows, h.sameLabel⟩

theorem ahead_note (o : Outline) (t : Ty) (unread : List UnreadType) :
    Ahead o { o with table := o.table.note t, unread } :=
  ⟨(quiet_note o t unread).grows, (steady_sameLabel [] o).note (fun _ => .refl _) t unread⟩

theorem ahead_constrain (o : Outline) (p : TypeParameterRef) (c : Constraint) :
    Ahead o { o with table := o.table.constrain p c } :=
  ⟨(quiet_constrain p c).grows,
    (steady_sameLabel [p] o).constrain (fun _ => .refl _) p (List.mem_singleton.mpr rfl) c⟩

theorem ahead_addMethod (o : Outline) (m : Method) :
    Ahead o { o with table := o.table.addMethod m } :=
  ⟨grows_addMethod o m, fun _ => .refl _⟩

/-- **Types come to list what is made of their parts, in order.** -/
theorem Passes.members (h : Passes a b made)
    (hlt : ∀ e ∈ made, e.part.type.index < a.table.definitions.size) (id : TypeId) :
    b.table.members id
      = a.table.members id ++ (made.filter (·.part.type = id)).map Made.member := by
  have hconcat : ∀ (made : List Made) (e : Made),
      ((made ++ [e]).filter (·.part.type = id)).map Made.member
        = (made.filter (·.part.type = id)).map Made.member
          ++ if id = e.part.type then [e.member] else [] := by
    intro made e
    rw [List.filter_append, List.map_append]
    by_cases he : e.part.type = id
    · rw [if_pos he.symm, List.filter_cons_of_pos (by simpa using he)]
      rfl
    · rw [if_neg fun hid => he hid.symm, List.filter_cons_of_neg (by simpa using he)]
      rfl
  induction h with
  | start => exact (List.append_nil _).symm
  | noted _ t unread ih =>
    rw [← ih hlt]
    exact ((steady_members [] _).note ⟨fun _ => rfl, rfl⟩ t unread).1 id
  | constrained _ owner i c ih =>
    rw [← ih hlt]
    exact ((steady_members [.ofType owner i] _).constrain ⟨fun _ => rfl, rfl⟩ _
      (List.mem_singleton.mpr rfl) c).1 id
  | method hb hm ih =>
    have hpart := hlt _ (List.mem_append_right _ (List.mem_singleton.mpr rfl))
    rw [hconcat, ← List.append_assoc, ← ih fun e he => hlt e (List.mem_append_left _ he)]
    exact members_bindMethod (hb.grows.shape.size ▸ hpart) hm id
  | @value b _ hb part v ih =>
    have hpart := hlt _ (List.mem_append_right _ (List.mem_singleton.mpr rfl))
    rw [hconcat, ← List.append_assoc, ← ih fun e he => hlt e (List.mem_append_left _ he)]
    exact @SymbolTable.members_addMember (b.table.addValue v) part.type
      (hb.grows.shape.size ▸ hpart) _ id

/-- **A method was bound at some point of the way, and nothing happens to it from there on.** -/
theorem Passes.origin (h : Passes a b made) {id : MethodId} {form : MethodForm}
    (hmade : .method id part form ∈ made) :
    ∃ u w before after, Passes a u before ∧ u.bindMethod (placeOf part) part.type form = .ok w ∧
      id = u.table.nextMethod ∧ Passes w b after := by
  induction h with
  | start => cases hmade
  | noted _ t unread ih =>
    obtain ⟨u, w, before, after, hu, hm, hid, hw⟩ := ih hmade
    exact ⟨u, w, before, after, hu, hm, hid, hw.noted t unread⟩
  | constrained _ owner i c ih =>
    obtain ⟨u, w, before, after, hu, hm, hid, hw⟩ := ih hmade
    exact ⟨u, w, before, after, hu, hm, hid, hw.constrained owner i c⟩
  | method hb hm' ih =>
    rcases List.mem_append.mp hmade with hmade | hmade
    · obtain ⟨u, w, before, after, hu, hm, hid, hw⟩ := ih hmade
      exact ⟨u, w, before, _, hu, hm, hid, hw.method hm'⟩
    · cases List.mem_singleton.mp hmade
      exact ⟨_, _, _, [], hb, hm', rfl, .start⟩
  | value hb other v ih =>
    rcases List.mem_append.mp hmade with hmade | hmade
    · obtain ⟨u, w, before, after, hu, hm, hid, hw⟩ := ih hmade
      exact ⟨u, w, before, _, hu, hm, hid, hw.value other v⟩
    · cases List.mem_singleton.mp hmade

/-! ### Completing types -/

variable {o o' : Outline} {id other : TypeId}

theorem sameLabel_finish (o : Outline) (id other : TypeId) :
    (o.table.definition other).SameLabel ((o.finish id).table.definition other) := by
  have hadded : (o.table.definition other).SameLabel
      ((o.addImplicit id).table.definition other) := by
    rw [addImplicit_eq]
    cases implicitConstructor? o.table id with
    | none => exact .refl _
    | some access => exact sameLabel_addMember (o.table.addMethod _) id _ other
  refine hadded.trans ?_
  refine SymbolTable.sameLabel_updateDefinition (o.addImplicit id).table id (fun d => ?_) other
  exact ⟨rfl, rfl, rfl⟩

/-- Completing a type adds a constructor to it, if it has one without declaring it. -/
theorem members_finish (hlt : id.index < o.table.definitions.size) (other : TypeId) :
    (o.finish id).table.members other
      = o.table.members other ++ if other = id then
          (implicitConstructor? o.table id).toList.map fun _ => .method o.table.nextMethod
        else [] := by
  have hflag : (o.finish id).table.members other = (o.addImplicit id).table.members other := by
    show (SymbolTable.definition (SymbolTable.updateDefinition _ id _) other).members = _
    rw [SymbolTable.definition_updateDefinition]
    split
    · next he => rw [SymbolTable.members, he.1]
    · rfl
  rw [hflag, addImplicit_eq]
  cases implicitConstructor? o.table id with
  | none => simp
  | some access => exact @SymbolTable.members_addMember (o.table.addMethod _) id hlt _ other

/-- A type that is static and no struct has no such constructor. -/
theorem implicitConstructor?_eq_none {table : SymbolTable}
    (hstatic : (table.definition id).traits.isStatic = true)
    (hkind : (table.definition id).kind ≠ .structType) : implicitConstructor? table id = none := by
  rw [implicitConstructor?]
  split
  · next hstruct => exact absurd hstruct hkind
  · rw [hstatic]
    rfl
  · rfl

theorem method_finish {access : Accessibility}
    (h : implicitConstructor? o.table id = some access) :
    (o.finish id).table.method o.table.nextMethod = implicitMethod o.table id access ∧
      o.table.nextMethod.index < (o.finish id).table.methods.size := by
  have hmethod : (o.withImplicit id access).table.method o.table.nextMethod
      = implicitMethod o.table id access :=
    (SymbolTable.method_addMethod _ _).trans (if_pos rfl)
  have hsize : (o.withImplicit id access).table.methods.size = o.table.methods.size + 1 :=
    SymbolTable.size_addMethod _
  have hadded : o.addImplicit id = o.withImplicit id access := by
    rw [addImplicit_eq, h]
  rw [← hadded] at hmethod hsize
  exact ⟨hmethod, Nat.lt_of_lt_of_eq (Nat.lt_succ_self _) hsize.symm⟩

/-- **Completing types adds constructors to them that are no extension methods**, and none to a type
that is static and no struct. -/
theorem members_foldl_finish {ids : List TypeId}
    (hlt : ∀ id ∈ ids, id.index < o.table.definitions.size) (other : TypeId) :
    ∃ implicit, (ids.foldl finish o).table.members other = o.table.members other ++ implicit ∧
      (∀ m ∈ implicit, (ids.foldl finish o).table.isQualifying m = false) ∧
      ((o.table.definition other).traits.isStatic = true →
        (o.table.definition other).kind ≠ .structType → implicit = []) := by
  induction ids generalizing o with
  | nil =>
    refine ⟨[], (List.append_nil _).symm, fun m hm => ?_, fun _ _ => rfl⟩
    cases hm
  | cons first rest ih =>
    have hgrows := grows_finish o first
    have hmembers := members_finish (hlt first List.mem_cons_self) other
    obtain ⟨implicit, hrest, hplain, hnone⟩ := ih (o := o.finish first) fun id hid => by
      rw [hgrows.shape.size]
      exact hlt id (List.mem_cons_of_mem first hid)
    rw [hgrows.isStatic, (hgrows.shape.agrees other).kind] at hnone
    rw [List.foldl_cons, hrest, hmembers, List.append_assoc]
    refine ⟨_, rfl, fun m hm => ?_, fun hstatic hkind => ?_⟩
    · rcases List.mem_append.mp hm with hm | hm
      · split at hm
        · obtain ⟨access, haccess, rfl⟩ := List.mem_map.mp hm
          obtain ⟨hmethod, hsize⟩ := method_finish (Option.mem_toList.mp haccess)
          rw [SymbolTable.isQualifying, (untouched_foldl_finish rest).method _ hsize, hmethod]
          rfl
        · cases hm
      · exact hplain m hm
    · rw [hnone hstatic hkind, List.append_nil]
      split
      · next he =>
        subst he
        rw [implicitConstructor?_eq_none hstatic hkind]
        rfl
      · rfl

/-- The type lists a constructor. -/
def ListsConstructor (table : SymbolTable) (id : TypeId) : Prop :=
  ∃ k, .method k ∈ table.members id ∧ (table.method k).kind = .constructor

theorem ListsConstructor.untouched {kept : TypeId → Prop} (h : ListsConstructor a.table id)
    (hu : Untouched kept a b) (hmembers : ∀ m ∈ a.table.members id, m ∈ b.table.members id) :
    ListsConstructor b.table id := by
  obtain ⟨k, hk, hkind⟩ := h
  refine ⟨k, hmembers _ hk, ?_⟩
  rw [hu.method k, hkind]
  -- what is not in the table is no constructor
  by_contra hge
  rw [SymbolTable.method, Array.getElem?_eq_none (Nat.le_of_not_lt hge)] at hkind
  cases hkind

/-- A struct that is completed lists a constructor. -/
theorem listsConstructor_finish (hlt : id.index < o.table.definitions.size)
    (hkind : (o.table.definition id).kind = .structType) :
    ListsConstructor (o.finish id).table id := by
  have hmembers := members_finish hlt id
  rw [if_pos rfl] at hmembers
  cases himplicit : implicitConstructor? o.table id with
  | some access =>
    obtain ⟨hmethod, -⟩ := method_finish himplicit
    refine ⟨o.table.nextMethod, ?_, by rw [hmethod]; rfl⟩
    rw [hmembers, himplicit]
    exact List.mem_append_right _ List.mem_cons_self
  | none =>
    rw [implicitConstructor?, hkind] at himplicit
    simp only [ite_eq_left_iff, reduceCtorEq, imp_false, Bool.not_eq_true,
      Bool.not_eq_false] at himplicit
    obtain ⟨m, hm, -⟩ := List.any_eq_true.mp himplicit
    obtain ⟨hmem, hconstructor⟩ := List.mem_filter.mp hm
    obtain ⟨member, hmember, hsome⟩ := List.mem_filterMap.mp hmem
    have hlists : ListsConstructor o.table id := by
      cases member with
      | method k =>
        cases hsome
        exact ⟨k, hmember, of_decide_eq_true hconstructor⟩
      | type t => cases hsome
      | value v => cases hsome
    exact hlists.untouched (untouched_finish o id) fun m hm => by
      rw [hmembers]
      exact List.mem_append_left _ hm

theorem listsConstructor_foldl_finish {ids : List TypeId}
    (hlt : ∀ id ∈ ids, id.index < o.table.definitions.size) (hid : id ∈ ids)
    (hkind : (o.table.definition id).kind = .structType) :
    ListsConstructor (ids.foldl finish o).table id := by
  induction ids generalizing o with
  | nil => cases hid
  | cons first rest ih =>
    have hgrows := grows_finish o first
    have hrest : ∀ id ∈ rest, id.index < (o.finish first).table.definitions.size := by
      intro id hid
      rw [hgrows.shape.size]
      exact hlt id (List.mem_cons_of_mem first hid)
    rcases List.mem_cons.mp hid with rfl | hid
    · have hlists := listsConstructor_finish (hlt id List.mem_cons_self) hkind
      obtain ⟨implicit, hmembers, -⟩ := members_foldl_finish hrest id
      exact hlists.untouched (untouched_foldl_finish rest) fun m hm => by
        rw [List.foldl_cons, hmembers]
        exact List.mem_append_left _ hm
    · exact ih hrest hid ((hgrows.shape.agrees id).kind.trans hkind)

/-! ### The whole pass -/

/-- The method was bound from the form of a part in an outline that the pass had come to by then, and
is what it was. -/
def Stems (o o' : Outline) (id : MethodId) (part : DeclaredPart) (form : MethodForm) : Prop :=
  ∃ u w, Ahead o u ∧ u.bindMethod (placeOf part) part.type form = .ok w ∧
    id = u.table.nextMethod ∧ Ahead w o' ∧ o'.table.method id = w.table.method id

/-- Binding the outline `o` gives `o'`, with some members that are made of its parts. -/
structure BoundBy (o o' : Outline) (made : List Made) : Prop where
  declared : made.map (fun e => (e.part, e.form?)) = partMembers o.table o.parts
  ahead : Ahead o o'
  stems : ∀ {id : MethodId} {part : DeclaredPart} {form : MethodForm},
    .method id part form ∈ made → Stems o o' id part form
  members : ∀ id, ∃ implicit, o'.table.members id = o.table.members id
      ++ (made.filter (·.part.type = id)).map Made.member ++ implicit ∧
    (∀ m ∈ implicit, o'.table.isQualifying m = false) ∧
    ((o.table.definition id).traits.isStatic = true →
      (o.table.definition id).kind ≠ .structType → implicit = [])
  constructor : ∀ id ∈ o.declaredTypes, (o.table.definition id).kind = .structType →
    ListsConstructor o'.table id

theorem ahead_foldl_finish (ids : List TypeId) (o : Outline) : Ahead o (ids.foldl finish o) := by
  refine ⟨grows_foldl_finish ids, fun id => ?_⟩
  induction ids generalizing o with
  | nil => exact .refl _
  | cons first rest ih => exact (sameLabel_finish o first id).trans (ih (o.finish first))

/-- **The second pass binds every method of every part once.** -/
theorem Outlined.boundBy (ho : Outlined o) (h : o.bind = .ok o') : ∃ made, BoundBy o o' made := by
  obtain ⟨bound, hbound, rfl⟩ := ok_of_map h
  obtain ⟨made, hmade, hdeclared⟩ := passesOver_bindParts hbound
  have hgrows := hmade.grows
  have hparts : ∀ part ∈ o.parts, part.type.index < o.table.definitions.size :=
    fun part hp => (ho.parts part hp).head_lt
  have hlt : ∀ e ∈ made, e.part.type.index < o.table.definitions.size := fun e he =>
    hparts e.part (part_mem_of_declared hdeclared he)
  have hids : ∀ id ∈ o.declaredTypes, id.index < bound.table.definitions.size := by
    intro id hid
    obtain ⟨part, hpart, rfl⟩ := List.mem_map.mp (List.mem_eraseDups.mp hid)
    rw [hgrows.shape.size]
    exact hparts part hpart
  refine ⟨made, hdeclared, hmade.ahead.trans (ahead_foldl_finish _ _), ?_, fun id => ?_,
    fun id hid hkind => listsConstructor_foldl_finish hids hid ?_⟩
  · intro id part form he
    obtain ⟨u, w, before, after, hu, hm, hid, hw⟩ := hmade.origin he
    obtain ⟨_, _, _, _, _, _, _, steps⟩ := bindMethod_ok hm
    have hnew : id.index < w.table.methods.size := by
      rw [hid, steps.count]
      exact Nat.lt_succ_self _
    refine ⟨u, w, hu.ahead, hm, hid, hw.ahead.trans (ahead_foldl_finish _ _), ?_⟩
    rw [(untouched_foldl_finish _).method id (Nat.lt_of_lt_of_le hnew hw.grows.count),
      hw.untouched.method id hnew]
  · obtain ⟨implicit, hmembers, hplain, hnone⟩ := members_foldl_finish hids id
    rw [hgrows.isStatic, (hgrows.shape.agrees id).kind] at hnone
    exact ⟨implicit, by rw [hmembers, hmade.members hlt], hplain, hnone⟩
  · rw [(hgrows.shape.agrees id).kind, hkind]

theorem BoundBy.part_mem (h : BoundBy o o' made) {e : Made} (he : e ∈ made) : e.part ∈ o.parts :=
  part_mem_of_declared h.declared he

theorem Stems.implements {form : MethodForm} {m : MethodId} (h : Stems o o' m part form) :
    Implements o'.table part.type m form := by
  obtain ⟨u, w, -, hm, rfl, hw, -⟩ := h
  obtain ⟨_, _, _, _, _, _, _, steps⟩ := bindMethod_ok hm
  exact steps.implements.grows hw.toGrows

/-- What is made of a part is an extension method exactly if its form declares one, where its type may
hold some. -/
theorem BoundBy.isQualifying (h : BoundBy o o' made) {e : Made} (he : e ∈ made)
    (hmay : mayExtend o.table e.part.type = true) :
    o'.table.isQualifying e.member = e.extension?.isSome := by
  cases e with
  | value v part => rfl
  | method k part form =>
    refine (h.stems he).implements.isQualifying.trans ?_
    rw [mayExtend_grows h.ahead.toGrows, show mayExtend o.table part.type = true from hmay,
      Bool.and_true, Made.extension?]
    cases declaresExtension form <;> rfl

/-- **The extension methods of a type that may hold some are those that are made from forms of its parts
that declare some, in order.** -/
theorem BoundBy.extensionMethods (h : BoundBy o o' made) (ho : Outlined o)
    (hmay : mayExtend o.table id = true) : o'.table.extensionMethods id
      = (made.filter (·.part.type = id)).filterMap Made.extension? := by
  obtain ⟨implicit, hmembers, hplain, -⟩ := h.members id
  rw [SymbolTable.extensionMethods, hmembers, List.filterMap_append, List.filterMap_append]
  refine (congrArg₂ (· ++ ·) (congrArg₂ (· ++ ·) (List.filterMap_eq_nil_iff.mpr ?types)
    (List.filterMap_map.trans (List.filterMap_congr ?made)))
    (List.filterMap_eq_nil_iff.mpr ?implicit)).trans (List.append_nil _)
  case types =>
    intro m hm
    obtain ⟨t, rfl⟩ := ho.bare.members id m hm
    rfl
  case made =>
    intro e he
    obtain ⟨hmade, htype⟩ := List.mem_filter.mp he
    have htype : e.part.type = id := of_decide_eq_true htype
    have hqualifying := h.isQualifying hmade (htype ▸ hmay)
    cases e with
    | value v part => rfl
    | method k part form =>
      show (if o'.table.isQualifying (.method k) then some k else none) = _
      rw [show o'.table.isQualifying (.method k) = _ from hqualifying, Made.extension?]
      cases declaresExtension form <;> rfl
  case implicit =>
    intro m hm
    have hnot := hplain m hm
    cases m with
    | type t => rfl
    | value v => rfl
    | method k => exact if_neg (by rw [hnot]; exact Bool.false_ne_true)

/-- A constructor is no extension method. -/
theorem not_isQualifying_of_constructor (ho : Outlined o) (h : o.bind = .ok o') {k : MethodId}
    (hk : .method k ∈ o'.table.members id) (hkind : (o'.table.method k).kind = .constructor) :
    o'.table.isQualifying (.method k) = false := by
  obtain ⟨extra, hmakes, -, -⟩ := ho.makes_bind h
  obtain ⟨gained, -, hgains⟩ := hmakes.made
  have hlisted : k ∈ o'.table.methodIds id := List.mem_filterMap.mpr ⟨_, hk, rfl⟩
  rw [hgains.methodIds, ho.bare.methodIds, List.nil_append] at hlisted
  obtain ⟨e, he, rfl⟩ := List.mem_map.mp hlisted
  have himplements := hgains.implements e (List.mem_filter.mp he).1
  rw [himplements.isQualifying, declaresExtension, ← himplements.kind, hkind]
  rfl

/-- **A type that may hold extension methods has other members exactly if a type is nested in it, one of
its parts declares something that is no extension method, or it is a struct.** -/
theorem BoundBy.hasOtherMembers_iff (h : BoundBy o o' made) (ho : Outlined o)
    (hbound : o.bind = .ok o') (hmay : mayExtend o.table id = true) (hid : id ∈ o.declaredTypes) :
    o'.table.hasOtherMembers id = true ↔ o.table.nestedTypes id ≠ [] ∨
      (∃ e ∈ made, e.part.type = id ∧ e.extension? = none) ∨
      (o.table.definition id).kind = .structType := by
  obtain ⟨implicit, hmembers, hplain, hnone⟩ := h.members id
  have hstatic : (o.table.definition id).traits.isStatic = true := by
    rw [mayExtend, Bool.and_eq_true, Bool.and_eq_true] at hmay
    exact hmay.1.1
  rw [SymbolTable.hasOtherMembers, List.any_eq_true]
  simp only [Bool.not_eq_true']
  constructor
  · rintro ⟨m, hm, hnot⟩
    rw [hmembers] at hm
    rcases List.mem_append.mp hm with hm | hm
    · rcases List.mem_append.mp hm with hm | hm
      · obtain ⟨t, rfl⟩ := ho.bare.members id m hm
        exact .inl (List.ne_nil_of_mem (List.mem_filterMap.mpr ⟨_, hm, rfl⟩))
      · obtain ⟨e, he, rfl⟩ := List.mem_map.mp hm
        obtain ⟨hmade, htype⟩ := List.mem_filter.mp he
        have htype : e.part.type = id := of_decide_eq_true htype
        rw [h.isQualifying hmade (htype ▸ hmay), Option.isSome_eq_false_iff,
          Option.isNone_iff_eq_none] at hnot
        exact .inr (.inl ⟨e, hmade, htype, hnot⟩)
    · refine .inr (.inr ?_)
      by_contra hkind
      rw [hnone hstatic hkind] at hm
      cases hm
  · rintro (hnested | ⟨e, hmade, htype, hnot⟩ | hkind)
    · obtain ⟨t, ht⟩ := List.exists_mem_of_ne_nil _ hnested
      obtain ⟨m, hm, hsome⟩ := List.mem_filterMap.mp ht
      refine ⟨m, ?_, ?_⟩
      · rw [hmembers]
        exact List.mem_append_left _ (List.mem_append_left _ hm)
      · obtain ⟨t, rfl⟩ := ho.bare.members id m hm
        rfl
    · refine ⟨e.member, ?_, ?_⟩
      · rw [hmembers]
        refine List.mem_append_left _ (List.mem_append_right _ (List.mem_map_of_mem ?_))
        exact List.mem_filter.mpr ⟨hmade, decide_eq_true htype⟩
      · rw [h.isQualifying hmade (htype ▸ hmay), hnot]
        rfl
    · obtain ⟨k, hk, hconstructor⟩ := h.constructor id hid hkind
      exact ⟨_, hk, not_isQualifying_of_constructor ho hbound hk hconstructor⟩

end

end Binding.Outline

end ExtensionCensus
