import ExtensionCensus.Binding.Assembly
import ExtensionCensus.Proofs.Binding.Resolution

/-!
# What binding leaves as it is

The second pass changes the table only, and in the table it only fills in what is declared.

* `Method.Agrees` — a method that differs in constraints at most;
* `Outline.Quiet` — nothing but the table is changed, in the table no type and no method is declared,
  and no type gains a method;
* `Outline.Grows` — the same, but for new methods: what every step of the second pass does;
* `quiet_bindType`, `quiet_bindClauses`, `quiet_bindParameters`, … — the quiet steps;
* `bindMethod_ok` — the steps of binding a method.
-/

namespace ExtensionCensus

/-! ### Methods -/

/-- The method `n` is `m`, but for constraints on type parameters. -/
structure Method.Agrees (m n : Method) : Prop where
  rest : n = { m with typeParameters := n.typeParameters }
  parameters : n.typeParameters.map TypeParameter.label = m.typeParameters.map TypeParameter.label

theorem Method.Agrees.refl (m : Method) : m.Agrees m :=
  ⟨rfl, rfl⟩

theorem Method.Agrees.trans {m n k : Method} (h : m.Agrees n) (h' : n.Agrees k) : m.Agrees k := by
  refine ⟨h'.rest.trans ?_, h'.parameters.trans h.parameters⟩
  rw [h.rest]

theorem Method.Agrees.parameterNames {m n : Method} (h : m.Agrees n) :
    n.typeParameters.map (·.name) = m.typeParameters.map (·.name) :=
  map_name_of_map_label h.parameters

namespace SymbolTable

variable {table : SymbolTable}

/-- A method that is listed as a member is the last method of the type that lists it. -/
theorem methodIds_addMember {container : TypeId} (m : MethodId) (id : TypeId)
    (hlt : container.index < table.definitions.size) :
    (table.addMember container (.method m)).methodIds id
      = table.methodIds id ++ if container = id then [m] else [] := by
  rw [methodIds, addMember, definition_updateDefinition]
  by_cases hid : id = container
  · rw [if_pos ⟨hid, hlt⟩, if_pos hid.symm, methodsAmong_concat, hid]
    rfl
  · rw [if_neg fun h => hid h.1, if_neg fun h => hid h.symm, List.append_nil]
    rfl

theorem methodTypeParameters_of_agrees {a b : SymbolTable} {m : MethodId}
    (h : (a.method m).Agrees (b.method m)) :
    b.methodTypeParameters m = a.methodTypeParameters m := by
  have hn := congrArg List.length h.parameters
  rw [List.length_map, List.length_map] at hn
  rw [methodTypeParameters, methodTypeParameters, hn]

mutual

/-- Taking down the instances in a type changes nothing else. -/
theorem note_eq (table : SymbolTable) : ∀ t : Ty,
    ∃ instances, table.note t = { table with instances }
  | .named head outer args => by
    obtain ⟨first, hfirst⟩ := noteOuter_eq table outer
    obtain ⟨second, hsecond⟩ := noteList_eq (table.noteOuter outer) args
    rw [note, hsecond, hfirst, noteOne]
    split
    · exact ⟨second, rfl⟩
    · exact ⟨_, rfl⟩
  | .array element rank => by
    rw [note]
    exact note_eq table element
  | .pointer target => by
    rw [note]
    exact note_eq table target
  | .parameter p => ⟨table.instances, by simp only [note]⟩
  | .dynamic => ⟨table.instances, by simp only [note]⟩
  | .functionPointer signature => ⟨table.instances, by simp only [note]⟩

theorem noteOuter_eq (table : SymbolTable) : ∀ outer : Option Ty,
    ∃ instances, table.noteOuter outer = { table with instances }
  | none => ⟨table.instances, by rw [noteOuter]⟩
  | some t => by
    rw [noteOuter]
    exact note_eq table t

theorem noteList_eq (table : SymbolTable) : ∀ ts : List Ty,
    ∃ instances, table.noteList ts = { table with instances }
  | [] => ⟨table.instances, by rw [noteList]⟩
  | t :: ts => by
    obtain ⟨first, hfirst⟩ := note_eq table t
    obtain ⟨second, hsecond⟩ := noteList_eq (table.note t) ts
    rw [noteList, hsecond, hfirst]
    exact ⟨second, rfl⟩

end

end SymbolTable

namespace Binding.Outline

open SymbolTable (SameShape)
open Source (TypeForm ReturnForm ParameterForm ConstraintForm ConstraintClause MethodForm
  ValueForm MemberForm)

/-! ### Quiet steps -/

/-- Nothing but the table changes, and there no type and no method is declared and no type gains a
method. -/
structure Quiet (a b : Outline) : Prop where
  frame : b = { a with table := b.table, unread := b.unread }
  shape : SameShape a.table b.table
  isStatic : ∀ id, (b.table.definition id).traits.isStatic
    = (a.table.definition id).traits.isStatic
  methodIds : ∀ id, b.table.methodIds id = a.table.methodIds id
  count : b.table.methods.size = a.table.methods.size
  methods : ∀ m, (a.table.method m).Agrees (b.table.method m)

/-- Nothing but the table changes, and there no type is declared and old methods stay. -/
structure Grows (a b : Outline) : Prop where
  frame : b = { a with table := b.table, unread := b.unread }
  shape : SameShape a.table b.table
  isStatic : ∀ id, (b.table.definition id).traits.isStatic
    = (a.table.definition id).traits.isStatic
  count : a.table.methods.size ≤ b.table.methods.size
  methods : ∀ m : MethodId, m.index < a.table.methods.size →
    (a.table.method m).Agrees (b.table.method m)

section

variable {a b c o o' : Outline}

theorem Quiet.refl (a : Outline) : Quiet a a :=
  ⟨rfl, SameShape.refl _, fun _ => rfl, fun _ => rfl, rfl, fun _ => Method.Agrees.refl _⟩

theorem Quiet.trans (h : Quiet a b) (h' : Quiet b c) : Quiet a c := by
  refine ⟨h'.frame.trans ?_, h.shape.trans h'.shape,
    fun id => (h'.isStatic id).trans (h.isStatic id),
    fun id => (h'.methodIds id).trans (h.methodIds id), h'.count.trans h.count,
    fun m => (h.methods m).trans (h'.methods m)⟩
  rw [h.frame]

theorem Quiet.grows (h : Quiet a b) : Grows a b :=
  ⟨h.frame, h.shape, h.isStatic, Nat.le_of_eq h.count.symm, fun m _ => h.methods m⟩

theorem Grows.refl (a : Outline) : Grows a a :=
  (Quiet.refl a).grows

theorem Grows.trans (h : Grows a b) (h' : Grows b c) : Grows a c := by
  refine ⟨h'.frame.trans ?_, h.shape.trans h'.shape,
    fun id => (h'.isStatic id).trans (h.isStatic id), Nat.le_trans h.count h'.count,
    fun m hm => (h.methods m hm).trans (h'.methods m (Nat.lt_of_lt_of_le hm h.count))⟩
  rw [h.frame]

theorem Grows.root (h : Grows a b) : b.root = a.root := by
  have hroot := congrArg Outline.root h.frame
  exact hroot

theorem Grows.parts (h : Grows a b) : b.parts = a.parts := by
  have hparts := congrArg Outline.parts h.frame
  exact hparts

theorem Grows.scopes (h : Grows a b) : b.scopes = a.scopes := by
  have hscopes := congrArg Outline.scopes h.frame
  exact hscopes

/-- A change of the table that touches neither definitions nor methods. -/
theorem quiet_of_eq (table : SymbolTable) (hd : table.definitions = o.table.definitions)
    (hm : table.methods = o.table.methods) (unread : List UnreadType) :
    Quiet o { o with table, unread } := by
  have hdef : ∀ id, table.definition id = o.table.definition id := fun id => by
    rw [SymbolTable.definition, SymbolTable.definition, hd]
  refine ⟨rfl, .of_definitions_eq hd, fun id => ?_, fun id => ?_, congrArg Array.size hm,
    fun m => ?_⟩
  · exact congrArg (·.traits.isStatic) (hdef id)
  · exact congrArg (SymbolTable.methodsAmong ·.members) (hdef id)
  · have hmethod : table.method m = o.table.method m := by
      rw [SymbolTable.method, SymbolTable.method, hm]
    show (o.table.method m).Agrees (table.method m)
    rw [hmethod]
    exact Method.Agrees.refl _

/-- A change of one definition that keeps its shape, its methods and whether it is static. -/
theorem quiet_updateDefinition {id : TypeId} {f : TypeDefinition → TypeDefinition}
    (hs : SameShape o.table (o.table.updateDefinition id f))
    (hstatic : (f (o.table.definition id)).traits.isStatic
      = (o.table.definition id).traits.isStatic)
    (hmembers : SymbolTable.methodsAmong (f (o.table.definition id)).members
      = SymbolTable.methodsAmong (o.table.definition id).members) :
    Quiet o { o with table := o.table.updateDefinition id f } := by
  refine ⟨rfl, hs, fun other => ?_, fun other => ?_, rfl, fun m => Method.Agrees.refl _⟩
  · show ((o.table.updateDefinition id f).definition other).traits.isStatic = _
    rw [SymbolTable.definition_updateDefinition]
    split
    · next h => rw [hstatic, h.1]
    · rfl
  · show SymbolTable.methodsAmong ((o.table.updateDefinition id f).definition other).members = _
    rw [SymbolTable.definition_updateDefinition]
    split
    · next h => rw [hmembers, h.1, SymbolTable.methodIds]
    · rfl

theorem quiet_constrain (target : TypeParameterRef) (c : Constraint) :
    Quiet o { o with table := o.table.constrain target c } := by
  cases target with
  | ofType owner i =>
    exact quiet_updateDefinition (SymbolTable.sameShape_constrain (.ofType owner i) c) rfl rfl
  | free i => exact quiet_of_eq (o.table.constrain (.free i) c) rfl rfl o.unread
  | ofMethod owner i =>
    refine ⟨rfl, .of_definitions_eq rfl, fun _ => rfl, fun _ => rfl,
      SymbolTable.size_updateMethod _ _, fun m => ?_⟩
    show (o.table.method m).Agrees ((o.table.updateMethod owner _).method m)
    rw [SymbolTable.method_updateMethod]
    split
    · next h =>
      rw [h.1]
      exact ⟨rfl, map_label_modify_constraints _ i c⟩
    · exact Method.Agrees.refl _

/-- One more method, which no type lists yet. -/
theorem grows_addMethod (o : Outline) (m : Method) :
    Grows o { o with table := o.table.addMethod m } := by
  refine ⟨rfl, .of_definitions_eq rfl, fun _ => rfl, ?_, fun k hk => ?_⟩
  · exact Nat.le_of_lt (by rw [SymbolTable.size_addMethod]; exact Nat.lt_succ_self _)
  · show (o.table.method k).Agrees ((o.table.addMethod m).method k)
    rw [SymbolTable.method_addMethod, if_neg fun he =>
      Nat.ne_of_lt hk (SymbolTable.eq_nextMethod_iff.mp he)]
    exact Method.Agrees.refl _

/-- One more member that is no type. -/
theorem grows_addMember (id : TypeId) {m : Member} (ht : SymbolTable.typesAmong [m] = []) :
    Grows o { o with table := o.table.addMember id m } := by
  refine ⟨rfl, SymbolTable.sameShape_addMember id ht, fun other => ?_, Nat.le_refl _,
    fun k _ => Method.Agrees.refl _⟩
  exact congrArg (·.isStatic) (SymbolTable.traits_addMember id m other)

/-! ### Types in signatures -/

theorem bindType_ok {ctx : Context} {form : Option TypeForm} {t : Ty}
    (h : o.bindType ctx form = .ok (o', t)) :
    o.resolveOptional ctx form = .ok t ∧
      o' = { o with table := o.table.note t, unread := o.unread ++ o.unreadIn ctx form } := by
  rw [bindType] at h
  split at h
  · cases h
  · next u hu =>
    cases h
    exact ⟨hu, rfl⟩

theorem quiet_note (o : Outline) (t : Ty) (unread : List UnreadType) :
    Quiet o { o with table := o.table.note t, unread } := by
  obtain ⟨instances, hnote⟩ := SymbolTable.note_eq o.table t
  rw [hnote]
  exact quiet_of_eq { o.table with instances } rfl rfl unread

theorem quiet_bindType {ctx : Context} {form : Option TypeForm} {t : Ty}
    (h : o.bindType ctx form = .ok (o', t)) : Quiet o o' := by
  obtain ⟨-, rfl⟩ := bindType_ok h
  exact quiet_note o t _

/-- A constraint is a keyword, or a type that was bound. -/
theorem bindConstraint_ok {ctx : Context} {form : ConstraintForm} {c : Constraint}
    (h : o.bindConstraint ctx form = .ok (o', c)) :
    (∃ word, c = .keyword word ∧ o' = o) ∨
      ∃ written t, c = .type t ∧ o.bindType ctx written = .ok (o', t) := by
  cases form with
  | keyword word =>
    cases h
    exact Or.inl ⟨word, rfl, rfl⟩
  | type form =>
    obtain ⟨⟨p, t⟩, hp, hc⟩ := ok_of_map h
    cases hc
    exact Or.inr ⟨some form, t, rfl, hp⟩

theorem quiet_bindConstraint {ctx : Context} {form : ConstraintForm} {c : Constraint}
    (h : o.bindConstraint ctx form = .ok (o', c)) : Quiet o o' := by
  rcases bindConstraint_ok h with ⟨word, -, rfl⟩ | ⟨written, t, -, ht⟩
  · exact Quiet.refl o'
  · exact quiet_bindType ht

theorem quiet_bindConstraintList {ctx : Context} {target : TypeParameterRef}
    {forms : List ConstraintForm} (h : o.bindConstraintList ctx target forms = .ok o') :
    Quiet o o' := by
  induction forms generalizing o with
  | nil =>
    cases h
    exact Quiet.refl _
  | cons form rest ih =>
    rw [bindConstraintList] at h
    split at h
    · cases h
    · next p c hc => exact ((quiet_bindConstraint hc).trans (quiet_constrain target c)).trans (ih h)

/-- The clauses of a declaration. -/
theorem quiet_bindClauses {ctx : Context} {ps : List TypeParameterRef}
    {clauses : List ConstraintClause} (h : o.bindClauses ctx ps clauses = .ok o') :
    Quiet o o' := by
  induction clauses generalizing o with
  | nil =>
    cases h
    exact Quiet.refl _
  | cons clause rest ih =>
    rw [bindClauses] at h
    split at h
    · exact ih h
    · next target _ =>
      split at h
      · split at h
        · cases h
        · next p hp => exact (quiet_bindConstraintList hp).trans (ih h)
      · exact ih h

/-- A parameter keeps what is written, with its type bound. -/
theorem bindParameter_ok {ctx : Context} {form : ParameterForm} {p : Parameter}
    (h : o.bindParameter ctx form = .ok (o', p)) :
    ∃ t, o.bindType ctx form.type = .ok (o', t) ∧
      p = { name := form.name
            type := t
            refKind := form.refKind
            isThis := form.isThis
            isParams := form.isParams
            defaultValue := form.defaultValue
            isNullable := isAnnotated form.type t } := by
  obtain ⟨⟨q, t⟩, hq, hp⟩ := ok_of_map h
  cases hp
  exact ⟨t, hq, rfl⟩

theorem bindParameters_cons_ok {ctx : Context} {form : ParameterForm} {rest : List ParameterForm}
    {ps : List Parameter} (h : o.bindParameters ctx (form :: rest) = .ok (o', ps)) :
    ∃ q p others, o.bindParameter ctx form = .ok (q, p) ∧
      q.bindParameters ctx rest = .ok (o', others) ∧ ps = p :: others := by
  rw [bindParameters] at h
  split at h
  · cases h
  · next q p hp =>
    obtain ⟨⟨r, others⟩, hr, he⟩ := ok_of_map h
    cases he
    exact ⟨q, p, others, hp, hr, rfl⟩

theorem quiet_bindParameters {ctx : Context} {forms : List ParameterForm} {ps : List Parameter}
    (h : o.bindParameters ctx forms = .ok (o', ps)) : Quiet o o' := by
  induction forms generalizing o ps with
  | nil =>
    cases h
    exact Quiet.refl _
  | cons form rest ih =>
    obtain ⟨q, p, others, hp, hrest, -⟩ := bindParameters_cons_ok h
    obtain ⟨t, ht, -⟩ := bindParameter_ok hp
    exact (quiet_bindType ht).trans (ih hrest)

/-- A method returns nothing, or a type that was bound. -/
theorem bindReturn_ok {ctx : Context} {form : Option ReturnForm} {returnType : Option Ty}
    {isNullable : Bool} {byRef : Option String}
    (h : o.bindReturn ctx form = .ok (o', returnType, isNullable, byRef)) :
    (returnType = none ∧ o' = o) ∨
      ∃ written t, returnType = some t ∧ o.bindType ctx written = .ok (o', t) := by
  cases form with
  | none =>
    cases h
    exact Or.inl ⟨rfl, rfl⟩
  | some r =>
    obtain ⟨⟨p, t⟩, hp, he⟩ := ok_of_map h
    cases he
    exact Or.inr ⟨r.type, t, rfl, hp⟩

theorem quiet_bindReturn {ctx : Context} {form : Option ReturnForm} {returnType : Option Ty}
    {isNullable : Bool} {byRef : Option String}
    (h : o.bindReturn ctx form = .ok (o', returnType, isNullable, byRef)) : Quiet o o' := by
  rcases bindReturn_ok h with ⟨-, rfl⟩ | ⟨written, t, -, ht⟩
  · exact Quiet.refl o'
  · exact quiet_bindType ht

/-! ### Members -/

/-- Listing a member that is neither a type nor a method. -/
theorem quiet_addMember (id : TypeId) {m : Member} (ht : SymbolTable.typesAmong [m] = [])
    (hm : SymbolTable.methodsAmong [m] = []) :
    Quiet o { o with table := o.table.addMember id m } := by
  refine quiet_updateDefinition (SymbolTable.sameShape_addMember id ht) rfl ?_
  rw [SymbolTable.methodsAmong_concat, hm, List.append_nil]

theorem quiet_addValue (container : TypeId) (v : ValueMember) :
    Quiet o (o.addValue container v) :=
  (quiet_of_eq (o.table.addValue v) rfl rfl o.unread).trans (quiet_addMember container rfl rfl)

/-- Adding values one after the other. -/
theorem quiet_foldl_addValue {α : Type} {container : TypeId} {f : Outline → α → ValueMember}
    (as : List α) : Quiet o (as.foldl (fun o a => o.addValue container (f o a)) o) := by
  induction as generalizing o with
  | nil => exact Quiet.refl o
  | cons a rest ih => exact (quiet_addValue container (f o a)).trans ih

theorem quiet_bindValues {ctx : Context} {container : TypeId} {v : ValueForm}
    (h : o.bindValues ctx container v = .ok o') : Quiet o o' := by
  obtain ⟨⟨p, t⟩, hp, rfl⟩ := ok_of_map h
  exact (quiet_bindType hp).trans (quiet_foldl_addValue v.names)

theorem quiet_bindEnumMembers (part : DeclaredPart) : Quiet o (o.bindEnumMembers part) :=
  quiet_foldl_addValue part.form.enumMembers

theorem quiet_addRecordProperties (part : DeclaredPart) (parameters : List Parameter) :
    Quiet o (o.addRecordProperties part parameters) :=
  quiet_foldl_addValue parameters

/-! ### Binding a method -/

/-- The outline with the next method begun: nothing of its signature is bound. -/
def beginMethod (o : Outline) (container : TypeId) (m : MethodForm) : Outline :=
  { o with table := o.table.addMethod (bareMethod o.table container m) }

/-- The outline with the signature of a method filled in, and the method listed by its type. -/
def completeMethod (o : Outline) (id : MethodId) (container : TypeId) (m : MethodForm)
    (returnType : Option Ty) (returnIsNullable : Bool) (returnsByRef : Option String)
    (parameters : List Parameter) : Outline :=
  let isExtension := m.kind = .ordinary && m.modifiers.isStatic && hasThis parameters &&
    mayExtend o.table container
  let table := o.table.updateMethod id fun method =>
    { method with returnType, returnIsNullable, returnsByRef, parameters, isExtension }
  { o with table := table.addMember container (.method id) }

/-- The steps of binding a method: it is begun, its clauses, what it returns and its parameters are
bound, and it is completed. -/
structure MethodSteps (o : Outline) (ctx : Context) (container : TypeId) (m : MethodForm)
    (o' clausesBound returnBound parametersBound : Outline) (returnType : Option Ty)
    (isNullable : Bool) (byRef : Option String) (parameters : List Parameter) : Prop where
  clauses : (o.beginMethod container m).bindClauses
    { ctx with method := some o.table.nextMethod }
    ((o.beginMethod container m).table.methodTypeParameters o.table.nextMethod) m.constraints
      = .ok clausesBound
  returns : clausesBound.bindReturn { ctx with method := some o.table.nextMethod } m.returns
    = .ok (returnBound, returnType, isNullable, byRef)
  signature : returnBound.bindParameters { ctx with method := some o.table.nextMethod }
    m.parameters = .ok (parametersBound, parameters)
  complete : o' = parametersBound.completeMethod o.table.nextMethod container m returnType
    isNullable byRef (attached o.table.nextMethod parameters)

theorem bindMethod_ok {ctx : Context} {container : TypeId} {m : MethodForm}
    (h : o.bindMethod ctx container m = .ok o') :
    ∃ clausesBound returnBound parametersBound returnType isNullable byRef parameters,
      MethodSteps o ctx container m o' clausesBound returnBound parametersBound returnType
        isNullable byRef parameters := by
  rw [bindMethod] at h
  simp only at h
  split at h
  · cases h
  · next clausesBound hclauses =>
    split at h
    · cases h
    · next returnBound returnType isNullable byRef hreturn =>
      split at h
      · cases h
      · next parametersBound parameters hparameters =>
        rw [Except.ok.injEq] at h
        exact ⟨clausesBound, returnBound, parametersBound, returnType, isNullable, byRef, parameters,
          hclauses, hreturn, hparameters, h.symm⟩

/-- What does not say where a parameter stands is the same once a method has it. -/
theorem map_attached {α : Type} {f : Parameter → α}
    (hf : ∀ (p : Parameter) (owner : Option MethodId) (i : Nat),
      f { p with owner, ordinal := i } = f p) (id : MethodId) (parameters : List Parameter) :
    (attached id parameters).map f = parameters.map f := by
  refine List.ext_getElem? fun i => ?_
  rw [attached, List.getElem?_map, List.getElem?_mapIdx, List.getElem?_map, Option.map_map]
  exact congrArg (Option.map · parameters[i]?) (funext fun p => hf p (some id) i)

/-- The parameters of a method have the types that they were bound with. -/
theorem type_of_mem_attached {id : MethodId} {parameters : List Parameter} {p : Parameter}
    (hp : p ∈ attached id parameters) : ∃ q ∈ parameters, q.type = p.type := by
  have hmem : p.type ∈ (attached id parameters).map (·.type) := List.mem_map_of_mem hp
  rw [map_attached fun _ _ _ => rfl] at hmem
  exact List.mem_map.mp hmem

/-- The parameters that a method has are its own, each at its position. -/
theorem own_of_mem_attached {id : MethodId} {parameters : List Parameter} {i : Nat} {p : Parameter}
    (hp : (attached id parameters)[i]? = some p) : p.owner = some id ∧ p.ordinal = i := by
  rw [attached, List.getElem?_mapIdx] at hp
  obtain ⟨q, -, rfl⟩ := Option.map_eq_some_iff.mp hp
  exact ⟨rfl, rfl⟩

/-- Beginning a method declares it, and no type lists it yet. -/
theorem method_beginMethod (container : TypeId) (m : MethodForm) :
    (o.beginMethod container m).table.method o.table.nextMethod
      = bareMethod o.table container m := by
  rw [beginMethod, SymbolTable.method_addMethod, if_pos rfl]

end

end Binding.Outline

end ExtensionCensus
