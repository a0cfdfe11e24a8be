import ExtensionCensus.Proofs.Binding.Making

/-!
# What a part leaves exactly as it is

Binding a part of a type changes the definition of that type, and gives new methods and values to it.
All other definitions stay exactly as they are, and so does every method and every value that is
complete.

* `Steady` — a property of outlines that noting types and constraining some type parameters keep, and
  `Steady.bindClauses`, `Steady.signature`: a whole signature keeps it;
* `Untouched` — some definitions, and all old methods and values, are the same;
* `untouched_bindMethod`, `untouched_bindPart`, `untouched_bindParts`, `untouched_foldl_finish` — **the
  steps of the second pass leave the types alone that they are not about**.
-/

namespace ExtensionCensus.Binding.Outline

open Source (TypeForm ReturnForm ParameterForm ConstraintForm ConstraintClause MethodForm
  ValueForm MemberForm)

/-! ### Properties that signatures keep -/

/-- A property of outlines that noting types keeps, and constraining any of the type parameters `ps`. -/
structure Steady (ps : List TypeParameterRef) (I : Outline → Prop) : Prop where
  note : ∀ {o : Outline}, I o → ∀ (t : Ty) (unread : List UnreadType),
    I { o with table := o.table.note t, unread }
  constrain : ∀ {o : Outline}, I o → ∀ p ∈ ps, ∀ c : Constraint,
    I { o with table := o.table.constrain p c }

namespace Steady

variable {ps : List TypeParameterRef} {I : Outline → Prop} {o o' : Outline} {ctx : Context}

theorem bindType (h : Steady ps I) (ho : I o) {form : Option TypeForm} {t : Ty}
    (hb : o.bindType ctx form = .ok (o', t)) : I o' := by
  obtain ⟨-, rfl⟩ := bindType_ok hb
  exact h.note ho t _

theorem bindConstraintList (h : Steady ps I) (ho : I o) {target : TypeParameterRef}
    (htarget : target ∈ ps) {forms : List ConstraintForm}
    (hb : o.bindConstraintList ctx target forms = .ok o') : I o' := by
  induction forms generalizing o with
  | nil =>
    cases hb
    exact ho
  | cons form rest ih =>
    rw [Outline.bindConstraintList] at hb
    split at hb
    · cases hb
    · next bound c hbound =>
      refine ih (h.constrain ?_ target htarget c) hb
      rcases bindConstraint_ok hbound with ⟨word, -, rfl⟩ | ⟨written, t, -, ht⟩
      · exact ho
      · exact h.bindType ho ht

theorem bindClauses (h : Steady ps I) (ho : I o) {clauses : List ConstraintClause}
    (hb : o.bindClauses ctx ps clauses = .ok o') : I o' := by
  induction clauses generalizing o with
  | nil =>
    cases hb
    exact ho
  | cons clause rest ih =>
    rw [Outline.bindClauses] at hb
    split at hb
    · exact ih ho hb
    · next target htarget =>
      have hmem : target ∈ ps := List.mem_reverse.mp (List.mem_of_find?_eq_some htarget)
      split at hb
      · split at hb
        · cases hb
        · next bound hbound => exact ih (h.bindConstraintList ho hmem hbound) hb
      · exact ih ho hb

theorem bindReturn (h : Steady ps I) (ho : I o) {form : Option ReturnForm} {returnType : Option Ty}
    {isNullable : Bool} {byRef : Option String}
    (hb : o.bindReturn ctx form = .ok (o', returnType, isNullable, byRef)) : I o' := by
  rcases bindReturn_ok hb with ⟨-, rfl⟩ | ⟨written, t, -, ht⟩
  · exact ho
  · exact h.bindType ho ht

theorem bindParameters (h : Steady ps I) (ho : I o) {forms : List ParameterForm}
    {bound : List Parameter} (hb : o.bindParameters ctx forms = .ok (o', bound)) : I o' := by
  induction forms generalizing o bound with
  | nil =>
    cases hb
    exact ho
  | cons form rest ih =>
    obtain ⟨q, p, others, hp, hrest, -⟩ := bindParameters_cons_ok hb
    obtain ⟨t, ht, -⟩ := bindParameter_ok hp
    exact ih (h.bindType ho ht) hrest

/-- **What the steps of a signature keep holds when a method is about to be completed.** -/
theorem signature {container : TypeId} {m : MethodForm}
    {clausesBound returnBound parametersBound : Outline} {returnType : Option Ty}
    {isNullable : Bool} {byRef : Option String} {parameters : List Parameter}
    (h : Steady ((o.beginMethod container m).table.methodTypeParameters o.table.nextMethod) I)
    (ho : I (o.beginMethod container m))
    (steps : MethodSteps o ctx container m o' clausesBound returnBound parametersBound returnType
      isNullable byRef parameters) : I parametersBound :=
  h.bindParameters (h.bindReturn (h.bindClauses ho steps.clauses) steps.returns) steps.signature

end Steady

/-! ### Definitions, methods and values that stay -/

/-- A method, or a field, property or event, is one of the table. -/
def Holds (table : SymbolTable) : Member → Prop
  | .type _ => True
  | .method m => m.index < table.methods.size
  | .value v => v.index < table.values.size

/-- The definitions `kept`, and all methods and values of `a`, are the same in `b`; and what types
come to list is there. -/
structure Untouched (kept : TypeId → Prop) (a b : Outline) : Prop where
  definition : ∀ id, kept id → b.table.definition id = a.table.definition id
  methodCount : a.table.methods.size ≤ b.table.methods.size
  method : ∀ m : MethodId, m.index < a.table.methods.size → b.table.method m = a.table.method m
  valueCount : a.table.values.size ≤ b.table.values.size
  value : ∀ v : ValueId, v.index < a.table.values.size → b.table.value v = a.table.value v
  listed : ∀ id, ∀ m ∈ b.table.members id, m ∈ a.table.members id ∨ Holds b.table m

section

variable {kept fewer : TypeId → Prop} {a b c o o' : Outline}

theorem Holds.mono {table table' : SymbolTable} {m : Member} (h : Holds table m)
    (hm : table.methods.size ≤ table'.methods.size) (hv : table.values.size ≤ table'.values.size) :
    Holds table' m := by
  cases m with
  | type id => trivial
  | method m => exact Nat.lt_of_lt_of_le h hm
  | value v => exact Nat.lt_of_lt_of_le h hv

theorem Untouched.refl (kept : TypeId → Prop) (a : Outline) : Untouched kept a a :=
  ⟨fun _ _ => rfl, Nat.le_refl _, fun _ _ => rfl, Nat.le_refl _, fun _ _ => rfl,
    fun _ _ hm => Or.inl hm⟩

theorem Untouched.trans (h : Untouched kept a b) (h' : Untouched kept b c) : Untouched kept a c where
  definition id hid := (h'.definition id hid).trans (h.definition id hid)
  methodCount := Nat.le_trans h.methodCount h'.methodCount
  method m hm := (h'.method m (Nat.lt_of_lt_of_le hm h.methodCount)).trans (h.method m hm)
  valueCount := Nat.le_trans h.valueCount h'.valueCount
  value v hv := (h'.value v (Nat.lt_of_lt_of_le hv h.valueCount)).trans (h.value v hv)
  listed id m hm := by
    rcases h'.listed id m hm with hm | hm
    · exact (h.listed id m hm).imp_right fun hheld => hheld.mono h'.methodCount h'.valueCount
    · exact Or.inr hm

theorem Untouched.mono (h : Untouched kept a b) (himp : ∀ id, fewer id → kept id) :
    Untouched fewer a b :=
  { h with definition := fun id hid => h.definition id (himp id hid) }

/-- A change of the table that touches neither definitions nor methods nor values. -/
theorem Untouched.congr (h : Untouched kept a b) (hd : c.table.definitions = b.table.definitions)
    (hm : c.table.methods = b.table.methods) (hv : c.table.values = b.table.values) :
    Untouched kept a c where
  definition id hid := by
    rw [← h.definition id hid, SymbolTable.definition, SymbolTable.definition, hd]
  methodCount := hm ▸ h.methodCount
  method m hlt := by rw [← h.method m hlt, SymbolTable.method, SymbolTable.method, hm]
  valueCount := hv ▸ h.valueCount
  value v hlt := by rw [← h.value v hlt, SymbolTable.value, SymbolTable.value, hv]
  listed id m hmem := by
    rw [SymbolTable.members, SymbolTable.definition, hd] at hmem
    exact (h.listed id m hmem).imp_right fun hheld =>
      hheld.mono (Nat.le_of_eq (by rw [hm])) (Nat.le_of_eq (by rw [hv]))

theorem untouched_note (h : Untouched kept a b) (t : Ty) (unread : List UnreadType) :
    Untouched kept a { b with table := b.table.note t, unread } := by
  obtain ⟨instances, hnote⟩ := SymbolTable.note_eq b.table t
  rw [hnote]
  exact h.congr rfl rfl rfl

/-- A change of a definition that need not stay. What it comes to list is there. -/
theorem Untouched.updateDefinition (h : Untouched kept a b) {id : TypeId} (hid : ¬ kept id)
    {f : TypeDefinition → TypeDefinition}
    (hf : ∀ m ∈ (f (b.table.definition id)).members, m ∈ b.table.members id ∨ Holds b.table m) :
    Untouched kept a { b with table := b.table.updateDefinition id f } where
  definition other hother := by
    rw [SymbolTable.definition_updateDefinition, if_neg, h.definition other hother]
    rintro ⟨rfl, -⟩
    exact hid hother
  methodCount := h.methodCount
  method := h.method
  valueCount := h.valueCount
  value := h.value
  listed other m hm := by
    rw [SymbolTable.members, SymbolTable.definition_updateDefinition] at hm
    split at hm
    · next he =>
      rcases hf m hm with hm | hheld
      · exact he.1 ▸ h.listed id m hm
      · exact Or.inr hheld
    · exact h.listed other m hm

/-- Listing a member that is there. -/
theorem Untouched.addMember (h : Untouched kept a b) {id : TypeId} (hid : ¬ kept id) {m : Member}
    (hm : Holds b.table m) : Untouched kept a { b with table := b.table.addMember id m } := by
  refine h.updateDefinition hid fun other hother => ?_
  rcases List.mem_append.mp hother with hother | hother
  · exact Or.inl hother
  · rw [List.mem_singleton.mp hother]
    exact Or.inr hm

/-- A change of a method that is newer than the outline that is compared with. -/
theorem Untouched.updateMethod (h : Untouched kept a b) {m : MethodId}
    (hm : a.table.methods.size ≤ m.index) (f : Method → Method) :
    Untouched kept a { b with table := b.table.updateMethod m f } where
  definition := h.definition
  methodCount := by
    rw [SymbolTable.size_updateMethod]
    exact h.methodCount
  method other hother := by
    rw [SymbolTable.method_updateMethod, if_neg, h.method other hother]
    rintro ⟨rfl, -⟩
    exact Nat.not_lt_of_le hm hother
  valueCount := h.valueCount
  value := h.value
  listed id other hother := (h.listed id other hother).imp_right fun hheld =>
    hheld.mono (Nat.le_of_eq (SymbolTable.size_updateMethod _ _).symm) (Nat.le_refl _)

theorem Untouched.addMethod (h : Untouched kept a b) (m : Method) :
    Untouched kept a { b with table := b.table.addMethod m } where
  definition := h.definition
  methodCount := by
    rw [SymbolTable.size_addMethod]
    exact Nat.le_succ_of_le h.methodCount
  method other hother := by
    rw [SymbolTable.method_addMethod, if_neg fun he => ?_]
    · exact h.method other hother
    · rw [SymbolTable.eq_nextMethod_iff.mp he] at hother
      exact Nat.not_lt_of_le h.methodCount hother
  valueCount := h.valueCount
  value := h.value
  listed id other hother := (h.listed id other hother).imp_right fun hheld =>
    hheld.mono (Nat.le_of_lt (by rw [SymbolTable.size_addMethod]; exact Nat.lt_succ_self _))
      (Nat.le_refl _)

theorem untouched_addValue {container : TypeId} (v : ValueMember) :
    Untouched (· ≠ container) o (o.addValue container v) := by
  have hsize : (o.table.addValue v).values.size = o.table.values.size + 1 := Array.size_push v
  have hadded : Untouched (· ≠ container) o { o with table := o.table.addValue v } := by
    refine ⟨fun _ _ => rfl, Nat.le_refl _, fun _ _ => rfl, hsize ▸ Nat.le_succ _,
      fun other hother => ?_, fun _ _ hm => Or.inl hm⟩
    rw [SymbolTable.value_addValue, if_neg fun he => ?_]
    exact Nat.ne_of_lt hother (SymbolTable.eq_nextValue_iff.mp he)
  exact hadded.addMember (fun hne => hne rfl) (Nat.lt_of_lt_of_eq (Nat.lt_succ_self _) hsize.symm)

theorem untouched_foldl_addValue {α : Type} {container : TypeId} {f : Outline → α → ValueMember}
    (as : List α) :
    Untouched (· ≠ container) o (as.foldl (fun o a => o.addValue container (f o a)) o) := by
  induction as generalizing o with
  | nil => exact .refl _ o
  | cons a rest ih => exact (untouched_addValue (f o a)).trans ih

/-! ### Members -/

/-- **Binding a method touches nothing but its type.** -/
theorem untouched_bindMethod {ctx : Context} {container : TypeId} {m : MethodForm}
    (h : o.bindMethod ctx container m = .ok o') : Untouched (· ≠ container) o o' := by
  obtain ⟨_, _, parametersBound, _, _, _, _, steps⟩ := bindMethod_ok h
  have hnext : o.table.methods.size ≤ o.table.nextMethod.index := Nat.le_refl _
  have hsteady : Steady ((o.beginMethod container m).table.methodTypeParameters o.table.nextMethod)
      (Untouched (· ≠ container) o) := by
    refine ⟨untouched_note, fun ho p hp c => ?_⟩
    obtain ⟨i, -, rfl⟩ := List.mem_map.mp hp
    exact ho.updateMethod hnext _
  have hbound := hsteady.signature ((Untouched.refl _ o).addMethod _) steps
  have hcount := steps.count
  rw [steps.complete] at hcount ⊢
  exact (hbound.updateMethod hnext _).addMember (fun hne => hne rfl)
    (Nat.lt_of_lt_of_eq (Nat.lt_succ_self _) hcount.symm)

theorem untouched_bindValues {ctx : Context} {container : TypeId} {v : ValueForm}
    (h : o.bindValues ctx container v = .ok o') : Untouched (· ≠ container) o o' := by
  obtain ⟨⟨bound, t⟩, hbound, rfl⟩ := ok_of_map h
  obtain ⟨-, rfl⟩ := bindType_ok hbound
  exact (untouched_note (.refl _ o) t _).trans (untouched_foldl_addValue v.names)

theorem untouched_bindPrimaryConstructor {ctx : Context} {part : DeclaredPart}
    (h : o.bindPrimaryConstructor ctx part = .ok o') : Untouched (· ≠ part.type) o o' := by
  rw [bindPrimaryConstructor] at h
  split at h
  · obtain ⟨made, hmade, rfl⟩ := ok_of_map h
    split
    · exact (untouched_bindMethod hmade).trans (untouched_foldl_addValue _)
    · exact untouched_bindMethod hmade
  · cases h
    exact .refl _ o

theorem untouched_bindMembers {ctx : Context} {container : TypeId} {members : List MemberForm}
    (h : o.bindMembers ctx container members = .ok o') : Untouched (· ≠ container) o o' := by
  induction members generalizing o with
  | nil =>
    cases h
    exact .refl _ _
  | cons form rest ih =>
    obtain ⟨bound, hbound, hrest⟩ := bindMembers_cons_ok h
    have hfirst : Untouched (· ≠ container) o bound := by
      cases form with
      | method m => exact untouched_bindMethod hbound
      | values v => exact untouched_bindValues hbound
    exact hfirst.trans (ih hrest)

/-! ### Parts and whole types -/

/-- **Binding a part touches nothing but its type.** -/
theorem untouched_bindPart {part : DeclaredPart} (h : o.bindPart part = .ok o') :
    Untouched (· ≠ part.type) o o' := by
  obtain ⟨clausesBound, hclauses, hrest⟩ := bindPart_ok h
  have hsteady : Steady (o.table.typeParametersOf part.type) (Untouched (· ≠ part.type) o) := by
    refine ⟨untouched_note, fun ho p hp c => ?_⟩
    obtain ⟨i, -, rfl⟩ := List.mem_map.mp hp
    exact ho.updateDefinition (fun hne => hne rfl) fun m hm => Or.inl hm
  have hfirst := hsteady.bindClauses (.refl _ o) hclauses
  refine hfirst.trans ?_
  rcases hrest with ⟨-, hinvoke⟩ | ⟨-, rfl⟩ | ⟨-, -, constructed, hconstructed, hmembers⟩
  · exact untouched_bindMethod hinvoke
  · exact untouched_foldl_addValue part.form.enumMembers
  · exact (untouched_bindPrimaryConstructor hconstructed).trans (untouched_bindMembers hmembers)

/-- **Binding parts touches nothing but their types.** -/
theorem untouched_bindParts {parts : List DeclaredPart} (h : o.bindParts parts = .ok o') :
    Untouched (fun id => ∀ part ∈ parts, id ≠ part.type) o o' := by
  induction parts generalizing o with
  | nil =>
    cases h
    exact .refl _ _
  | cons part rest ih =>
    rw [bindParts] at h
    split at h
    · cases h
    · next bound hbound =>
      have hfirst : Untouched (fun id => ∀ other ∈ part :: rest, id ≠ other.type) o bound :=
        (untouched_bindPart hbound).mono fun id hid => hid part List.mem_cons_self
      exact hfirst.trans ((ih h).mono fun id hid other hother =>
        hid other (List.mem_cons_of_mem part hother))

theorem untouched_withImplicit (o : Outline) (id : TypeId) (access : Accessibility) :
    Untouched (· ≠ id) o (o.withImplicit id access) := by
  have hsize : (o.table.addMethod (implicitMethod o.table id access)).methods.size
      = o.table.methods.size + 1 := SymbolTable.size_addMethod _
  exact ((Untouched.refl _ o).addMethod _).addMember (fun hne => hne rfl)
    (Nat.lt_of_lt_of_eq (Nat.lt_succ_self _) hsize.symm)

theorem untouched_addImplicit (o : Outline) (id : TypeId) :
    Untouched (· ≠ id) o (o.addImplicit id) := by
  rw [addImplicit_eq]
  cases implicitConstructor? o.table id with
  | none => exact .refl _ o
  | some access => exact untouched_withImplicit o id access

/-- Completing a type touches nothing else. -/
theorem untouched_finish (o : Outline) (id : TypeId) : Untouched (· ≠ id) o (o.finish id) :=
  (untouched_addImplicit o id).updateDefinition (fun hne => hne rfl) fun _ hm => Or.inl hm

theorem untouched_foldl_finish (ids : List TypeId) :
    Untouched (· ∉ ids) o (ids.foldl finish o) := by
  induction ids generalizing o with
  | nil => exact .refl _ o
  | cons id rest ih =>
    have hfirst := (untouched_finish o id).mono fun other (hother : other ∉ id :: rest) =>
      List.ne_of_not_mem_cons hother
    exact hfirst.trans (ih.mono fun other hother => List.not_mem_of_not_mem_cons hother)

end

end ExtensionCensus.Binding.Outline
