import ExtensionCensus.Proofs.Binding.Making
import ExtensionCensus.Proofs.Binding.WellFormed
import ExtensionCensus.Proofs.Source.Items
import ExtensionCensus.Proofs.Symbol.Scope

/-!
# Bound types are well scoped

The second pass keeps the scoping invariant: every type that it writes into the table was resolved
at a place where only the right type parameters can be named.

* `Stands` — a place lies in a type and the types around it;
* `scopeAt`, `Stands.sees` — what can be named at such a place, and that it is all that is seen there;
* `scoped_bindClauses`, `scoped_bindMethod`, `scoped_bindValues`, … — the steps of the pass;
* `scoped_bindPart`, `scoped_finish`, `scoped_bind` — **whole parts, whole types and the whole pass**;
* `Compilation.bind_wellScoped` — **after any files are bound, no type parameter occurs where it
  does not belong, and none in what a using directive gives a name to**.
-/

namespace ExtensionCensus.Binding

open SymbolTable (SameShape Chain Scoped InTypeScope InMethodScope InParameterScope)
open Source (TypeForm ReturnForm ParameterForm ConstraintForm ConstraintClause MethodForm
  ValueForm MemberForm namedLeaf namedNode bytesOf)

namespace Outline

/-! ### Places -/

/-- The type parameters that may be named in a type, or in a method of it. -/
def scopeAt (table : SymbolTable) (container : TypeId) :
    Option MethodId → TypeParameterRef → Prop
  | none => table.InTypeScope container
  | some m => table.InMethodScope container m

/-- The place lies in a type, and in the types around that. -/
structure Stands (o : Outline) (ctx : Context) (container : TypeId) : Prop where
  wellFormed : WellFormed o
  chain : ∃ rest, ctx.enclosing = container :: rest ∧ Chain o.table (container :: rest)

section

variable {a b o o' : Outline} {ctx : Context} {container : TypeId}

theorem WellFormed.grows (h : WellFormed a) (hg : Grows a b) : WellFormed b :=
  h.sameShape hg.shape hg.root hg.parts

theorem Stands.grows (h : Stands a ctx container) (hg : Grows a b) : Stands b ctx container := by
  obtain ⟨rest, hrest, hchain⟩ := h.chain
  exact ⟨h.wellFormed.grows hg, rest, hrest, hchain.keeps hg.shape.keeps⟩

theorem Stands.quiet (h : Stands a ctx container) (hq : Quiet a b) : Stands b ctx container :=
  h.grows hq.grows

theorem Stands.container_lt (h : Stands o ctx container) :
    container.index < o.table.definitions.size := by
  obtain ⟨rest, -, hchain⟩ := h.chain
  exact hchain.head_lt

theorem inTypeScope_scopeAt {table : SymbolTable} {m : Option MethodId} {p : TypeParameterRef}
    (h : table.InTypeScope container p) : scopeAt table container m p := by
  cases m with
  | none => exact h
  | some m => exact Or.inr h

theorem scopeAt_quiet (hq : Quiet a b) {m : Option MethodId} {p : TypeParameterRef}
    (h : scopeAt a.table container m p) : scopeAt b.table container m p := by
  cases m with
  | none => exact InTypeScope.sameShape hq.shape h
  | some m =>
    exact InMethodScope.sameShape hq.shape
      (SymbolTable.methodTypeParameters_of_agrees (hq.methods m)) h

/-- **Only type parameters in scope can be named at a place.** -/
theorem Stands.sees (h : Stands o ctx container) :
    o.Sees ctx (Ty.Within (scopeAt o.table container ctx.method)) := by
  obtain ⟨rest, hrest, hchain⟩ := h.chain
  refine ⟨fun p hp => Ty.within_parameter_iff.mpr ?_, fun id hid => ?_⟩
  · rw [visibleParameters, hrest] at hp
    rcases List.mem_append.mp hp with hp | hp
    · cases hm : ctx.method with
      | none =>
        rw [hm] at hp
        cases hp
      | some m =>
        rw [hm] at hp
        exact Or.inl hp
    · obtain ⟨top, htop, hp⟩ := List.mem_flatMap.mp hp
      exact inTypeScope_scopeAt ⟨top, hchain.encloses top htop, hp⟩
  · rw [hrest] at hid
    obtain ⟨around, haround⟩ := hchain.of_mem hid
    refine haround.within.mono fun p hp => inTypeScope_scopeAt ?_
    exact hp.of_encloses (hchain.encloses id hid)

/-! ### Types and constraints -/

/-- What is written at a place denotes a type within the scope of the place. -/
theorem within_bindType (hst : Stands o ctx container) {form : Option TypeForm} {t : Ty}
    (h : o.bindType ctx form = .ok (o', t)) :
    t.Within (scopeAt o'.table container ctx.method) := by
  have hwithin := within_resolveOptional hst.wellFormed.lookups hst.sees (bindType_ok h).1
  exact hwithin.mono fun p hp => scopeAt_quiet (quiet_bindType h) hp

theorem scoped_bindType (hs : Scoped o.table) {form : Option TypeForm} {t : Ty}
    (h : o.bindType ctx form = .ok (o', t)) : Scoped o'.table := by
  obtain ⟨-, rfl⟩ := bindType_ok h
  obtain ⟨instances, hnote⟩ := SymbolTable.note_eq o.table t
  rw [hnote]
  exact hs.of_sameShape (.of_definitions_eq rfl) (fun _ => rfl) rfl rfl

/-- The type parameter is one of the type or the method that a place lies in. -/
def Belongs (table : SymbolTable) (ctx : Context) (container : TypeId) : TypeParameterRef → Prop
  | .ofType id _ => id = container ∧ ctx.method = none
  | .ofMethod m _ => ctx.method = some m ∧
      (table.method m).container = some (table.definitionType container)
  | .free _ => False

theorem container_quiet (hq : Quiet a b) {m : MethodId}
    (h : (a.table.method m).container = some (a.table.definitionType container)) :
    (b.table.method m).container = some (b.table.definitionType container) := by
  rw [(hq.methods m).rest, hq.shape.definitionType]
  exact h

theorem Belongs.quiet (hq : Quiet a b) {p : TypeParameterRef}
    (h : Belongs a.table ctx container p) : Belongs b.table ctx container p := by
  cases p with
  | ofType id i => exact h
  | ofMethod m i => exact ⟨h.1, container_quiet hq h.2⟩
  | free i => exact h

/-- What can be named at a place may occur in the constraints of the type parameters there. -/
theorem Belongs.inParameterScope {table : SymbolTable} {target p : TypeParameterRef}
    (h : Belongs table ctx container target) (hp : scopeAt table container ctx.method p) :
    InParameterScope table p target := by
  cases target with
  | ofType id i =>
    obtain ⟨rfl, hm⟩ := h
    rw [hm] at hp
    exact hp
  | ofMethod m i =>
    obtain ⟨hm, hcontainer⟩ := h
    rw [hm] at hp
    exact ⟨container, hcontainer, hp⟩
  | free i => exact h.elim

theorem scoped_bindConstraintList {target : TypeParameterRef} {forms : List ConstraintForm}
    (hst : Stands o ctx container) (hs : Scoped o.table)
    (ht : Belongs o.table ctx container target)
    (h : o.bindConstraintList ctx target forms = .ok o') : Scoped o'.table := by
  induction forms generalizing o with
  | nil =>
    cases h
    exact hs
  | cons form rest ih =>
    rw [bindConstraintList] at h
    split at h
    · cases h
    · next bound c hbound =>
      have hq := quiet_bindConstraint hbound
      have hconstrain := quiet_constrain (o := bound) target c
      have hbelongs := ht.quiet hq
      refine ih ((hst.quiet hq).quiet hconstrain) ?_ (hbelongs.quiet hconstrain) h
      rcases bindConstraint_ok hbound with ⟨word, rfl, rfl⟩ | ⟨written, t, rfl, htype⟩
      · refine hs.constrain fun t he => ?_
        cases he
      · refine (scoped_bindType hs htype).constrain fun u he => ?_
        cases he
        exact (within_bindType hst htype).mono fun p hp => hbelongs.inParameterScope hp

theorem scoped_bindClauses {ps : List TypeParameterRef} {clauses : List ConstraintClause}
    (hst : Stands o ctx container) (hs : Scoped o.table)
    (hps : ∀ p ∈ ps, Belongs o.table ctx container p)
    (h : o.bindClauses ctx ps clauses = .ok o') : Scoped o'.table := by
  induction clauses generalizing o with
  | nil =>
    cases h
    exact hs
  | cons clause rest ih =>
    rw [bindClauses] at h
    split at h
    · exact ih hst hs hps h
    · next target htarget =>
      split at h
      · split at h
        · cases h
        · next bound hbound =>
          have hq := quiet_bindConstraintList hbound
          have hmem : target ∈ ps := List.mem_reverse.mp (List.mem_of_find?_eq_some htarget)
          exact ih (hst.quiet hq) (scoped_bindConstraintList hst hs (hps target hmem) hbound)
            (fun p hp => (hps p hp).quiet hq) h
      · exact ih hst hs hps h

/-! ### Methods -/

theorem within_bindReturn (hst : Stands o ctx container) {form : Option ReturnForm}
    {returnType : Option Ty} {isNullable : Bool} {byRef : Option String}
    (h : o.bindReturn ctx form = .ok (o', returnType, isNullable, byRef)) :
    ∀ t, returnType = some t → t.Within (scopeAt o'.table container ctx.method) := by
  intro t ht
  rcases bindReturn_ok h with ⟨rfl, -⟩ | ⟨written, u, rfl, hu⟩
  · cases ht
  · cases ht
    exact within_bindType hst hu

theorem scoped_bindReturn (hs : Scoped o.table) {form : Option ReturnForm}
    {returnType : Option Ty} {isNullable : Bool} {byRef : Option String}
    (h : o.bindReturn ctx form = .ok (o', returnType, isNullable, byRef)) : Scoped o'.table := by
  rcases bindReturn_ok h with ⟨-, rfl⟩ | ⟨written, t, -, ht⟩
  · exact hs
  · exact scoped_bindType hs ht

/-- The types of bound parameters are within the scope of their place. -/
theorem scoped_bindParameters {forms : List ParameterForm} {ps : List Parameter}
    (hst : Stands o ctx container) (hs : Scoped o.table)
    (h : o.bindParameters ctx forms = .ok (o', ps)) :
    Scoped o'.table ∧ ∀ p ∈ ps, p.type.Within (scopeAt o'.table container ctx.method) := by
  induction forms generalizing o ps with
  | nil =>
    cases h
    exact ⟨hs, fun p hp => by cases hp⟩
  | cons form rest ih =>
    obtain ⟨bound, first, others, hfirst, hothers, rfl⟩ := bindParameters_cons_ok h
    obtain ⟨t, ht, rfl⟩ := bindParameter_ok hfirst
    obtain ⟨hscoped, hwithin⟩ := ih (hst.quiet (quiet_bindType ht)) (scoped_bindType hs ht) hothers
    refine ⟨hscoped, fun p hp => ?_⟩
    rcases List.mem_cons.mp hp with rfl | hp
    · exact (within_bindType hst ht).mono fun q hq =>
        scopeAt_quiet (quiet_bindParameters hothers) hq
    · exact hwithin p hp

/-- A method that is begun has no types in its signature. -/
theorem types_bareMethod (table : SymbolTable) (container : TypeId) (m : MethodForm) :
    (bareMethod table container m).types = [] := by
  refine List.eq_nil_iff_forall_not_mem.mpr fun t ht => ?_
  rcases Method.mem_types_iff.mp ht with hreturn | ⟨p, hp, -⟩ | ⟨q, hq, hqt⟩
  · cases hreturn
  · cases hp
  · obtain ⟨p, hp, i, rfl⟩ := mem_listed hq
    obtain ⟨form, -, rfl⟩ := List.mem_map.mp hp
    cases hqt

theorem scoped_beginMethod (hs : Scoped o.table) (m : MethodForm) :
    Scoped (o.beginMethod container m).table :=
  hs.addMethod rfl (types_bareMethod o.table container m)

/-- Beginning a method leaves its place where it is. -/
theorem Stands.beginMethod (hst : Stands o ctx container) (m : MethodForm) :
    Stands (o.beginMethod container m) { ctx with method := some o.table.nextMethod } container := by
  obtain ⟨rest, hrest, hchain⟩ := hst.chain
  have hshape : SameShape o.table (o.beginMethod container m).table := .of_definitions_eq rfl
  exact ⟨hst.wellFormed.sameShape hshape rfl rfl, rest, hrest, hchain.keeps hshape.keeps⟩

/-- The type parameters of a method that is begun are its own. -/
theorem belongs_beginMethod (m : MethodForm) :
    ∀ p ∈ (o.beginMethod container m).table.methodTypeParameters o.table.nextMethod,
      Belongs (o.beginMethod container m).table { ctx with method := some o.table.nextMethod }
        container p := by
  intro p hp
  obtain ⟨i, -, rfl⟩ := List.mem_map.mp hp
  refine ⟨rfl, ?_⟩
  rw [method_beginMethod]
  rfl

/-- **Binding a method keeps the scoping invariant.** -/
theorem scoped_bindMethod {m : MethodForm} (hst : Stands o ctx container) (hs : Scoped o.table)
    (h : o.bindMethod ctx container m = .ok o') : Scoped o'.table := by
  obtain ⟨clausesBound, returnBound, parametersBound, returnType, isNullable, byRef, parameters,
    steps⟩ := bindMethod_ok h
  have hbegun := hst.beginMethod m
  have hclauses := scoped_bindClauses hbegun (scoped_beginMethod hs m) (belongs_beginMethod m)
    steps.clauses
  have hstClauses := hbegun.quiet (quiet_bindClauses steps.clauses)
  have hstReturn := hstClauses.quiet (quiet_bindReturn steps.returns)
  obtain ⟨hscoped, hparameters⟩ := scoped_bindParameters hstReturn
    (scoped_bindReturn hclauses steps.returns) steps.signature
  have hreturn : ∀ t, returnType = some t → t.Within
      (parametersBound.table.InMethodScope container o.table.nextMethod) := fun t ht =>
    (within_bindReturn hstClauses steps.returns t ht).mono fun p hp =>
      scopeAt_quiet (m := some o.table.nextMethod) (quiet_bindParameters steps.signature) hp
  have hcontainer : (parametersBound.table.method o.table.nextMethod).container
      = some (parametersBound.table.definitionType container) := by
    refine container_quiet steps.quiet ?_
    rw [method_beginMethod]
    rfl
  rw [steps.complete, completeMethod]
  refine Scoped.updateDefinition ?_ (SymbolTable.sameShape_addMember container rfl) rfl
  refine hscoped.updateMethod rfl rfl fun t ht => ?_
  rcases Method.mem_types_iff.mp ht with hret | ⟨p, hp, rfl⟩ | hconstraint
  · refine Or.inr fun owner howner => ?_
    rw [hcontainer] at howner
    rw [← SymbolTable.definitionType_injective (Option.some.inj howner)]
    exact hreturn t hret
  · refine Or.inr fun owner howner => ?_
    rw [hcontainer] at howner
    rw [← SymbolTable.definitionType_injective (Option.some.inj howner)]
    obtain ⟨q, hq, htype⟩ := type_of_mem_attached hp
    exact htype ▸ hparameters q hq
  · exact Or.inl (Method.mem_types_iff.mpr (Or.inr (Or.inr hconstraint)))

/-! ### Fields, properties and events -/

theorem scoped_addValue (hs : Scoped o.table) {v : ValueMember}
    (hc : v.container = some (o.table.definitionType container))
    (ht : ∀ t, v.type = some t → t.Within (o.table.InTypeScope container)) :
    Scoped (o.addValue container v).table :=
  (hs.addValue hc ht).updateDefinition (SymbolTable.sameShape_addMember container rfl) rfl

/-- Adding values whose types are in scope, one after the other. -/
theorem scoped_foldl_addValue {α : Type} {f : Outline → α → ValueMember} {as : List α}
    (hs : Scoped o.table)
    (hf : ∀ a ∈ as, ∀ b : Outline, SameShape o.table b.table →
      (f b a).container = some (b.table.definitionType container) ∧
        ∀ t, (f b a).type = some t → t.Within (b.table.InTypeScope container)) :
    Scoped (as.foldl (fun o a => o.addValue container (f o a)) o).table := by
  induction as generalizing o with
  | nil => exact hs
  | cons a rest ih =>
    obtain ⟨hc, ht⟩ := hf a List.mem_cons_self o (SameShape.refl _)
    refine ih (scoped_addValue hs hc ht) fun other hother b hb => ?_
    exact hf other (List.mem_cons_of_mem a hother) b
      ((quiet_addValue container (f o a)).shape.trans hb)

theorem scoped_bindValues {v : ValueForm} (hst : Stands o ctx container) (hm : ctx.method = none)
    (hs : Scoped o.table) (h : o.bindValues ctx container v = .ok o') : Scoped o'.table := by
  obtain ⟨⟨bound, t⟩, hbound, rfl⟩ := ok_of_map h
  have hwithin := within_bindType hst hbound
  rw [hm] at hwithin
  refine scoped_foldl_addValue (scoped_bindType hs hbound) fun name _ b hb => ⟨rfl, fun u hu => ?_⟩
  cases hu
  exact hwithin.mono fun p hp => InTypeScope.sameShape hb hp

theorem scoped_bindEnumMembers {part : DeclaredPart} (hst : Stands o (placeOf part) part.type)
    (hs : Scoped o.table) : Scoped (o.bindEnumMembers part).table := by
  obtain ⟨rest, -, hchain⟩ := hst.chain
  refine scoped_foldl_addValue hs fun name _ b hb => ⟨rfl, fun t ht => ?_⟩
  cases ht
  exact (hchain.keeps hb.keeps).within

theorem scoped_addRecordProperties {part : DeclaredPart} {parameters : List Parameter}
    (hs : Scoped o.table)
    (hp : ∀ p ∈ parameters, p.type.Within (o.table.InTypeScope part.type)) :
    Scoped (o.addRecordProperties part parameters).table := by
  refine scoped_foldl_addValue hs fun p hmem b hb => ⟨rfl, fun t ht => ?_⟩
  cases ht
  exact (hp p hmem).mono fun q hq => InTypeScope.sameShape hb hq

/-! ### Parts of types -/

/-- The parameters of a primary constructor have types in scope for its type: it has no type
parameters of its own. -/
theorem within_primaryConstructor {part : DeclaredPart}
    (hs : Scoped o'.table) {id : MethodId}
    (hi : Implements o'.table part.type id (primaryConstructorForm part)) :
    ∀ p ∈ (o'.table.method id).parameters, p.type.Within (o'.table.InTypeScope part.type) := by
  obtain ⟨owner, howner, htypes⟩ := hs.methods id hi.lt
  rw [hi.container] at howner
  have hsame := SymbolTable.definitionType_injective (Option.some.inj howner)
  have hnone : (o'.table.method id).typeParameters = [] := List.map_eq_nil_iff.mp hi.typeParameters
  intro p hp
  refine (htypes p.type (Method.mem_types_iff.mpr (Or.inr (Or.inl ⟨p, hp, rfl⟩)))).mono fun q hq => ?_
  rcases hq with hq | hq
  · rw [SymbolTable.methodTypeParameters, hnone] at hq
    cases hq
  · rw [hsame]
    exact hq

theorem scoped_bindPrimaryConstructor {part : DeclaredPart} (hst : Stands o ctx part.type)
    (hs : Scoped o.table) (h : o.bindPrimaryConstructor ctx part = .ok o') : Scoped o'.table := by
  rw [bindPrimaryConstructor] at h
  split at h
  · obtain ⟨made, hmade, rfl⟩ := ok_of_map h
    have hscoped := scoped_bindMethod hst hs hmade
    obtain ⟨_, _, _, _, _, _, _, steps⟩ := bindMethod_ok hmade
    split
    · exact scoped_addRecordProperties hscoped (within_primaryConstructor hscoped steps.implements)
    · exact hscoped
  · cases h
    exact hs

theorem scoped_bindMembers {members : List MemberForm} (hst : Stands o ctx container)
    (hm : ctx.method = none) (hs : Scoped o.table)
    (h : o.bindMembers ctx container members = .ok o') : Scoped o'.table := by
  induction members generalizing o with
  | nil =>
    cases h
    exact hs
  | cons form rest ih =>
    obtain ⟨bound, hbound, hrest⟩ := bindMembers_cons_ok h
    cases form with
    | method m =>
      have hgrows := (makes_bindMethod hst.container_lt hbound).grows
      exact ih (hst.grows hgrows) (scoped_bindMethod hst hs hbound) hrest
    | values v =>
      exact ih (hst.quiet (quiet_bindValues hbound)) (scoped_bindValues hst hm hs hbound) hrest

/-- **Binding a part of a type keeps the scoping invariant.** -/
theorem scoped_bindPart {part : DeclaredPart} (hw : WellFormed o)
    (hc : Chain o.table (part.type :: part.enclosing)) (hs : Scoped o.table)
    (h : o.bindPart part = .ok o') : Scoped o'.table := by
  have hst : Stands o (placeOf part) part.type := ⟨hw, part.enclosing, rfl, hc⟩
  obtain ⟨clausesBound, hclauses, hrest⟩ := bindPart_ok h
  have hbound : Scoped clausesBound.table := by
    refine scoped_bindClauses hst hs (fun p hp => ?_) hclauses
    obtain ⟨i, -, rfl⟩ := List.mem_map.mp hp
    exact ⟨rfl, rfl⟩
  have hst' := hst.quiet (quiet_bindClauses hclauses)
  rcases hrest with ⟨-, hinvoke⟩ | ⟨-, rfl⟩ | ⟨-, -, constructed, hconstructed, hmembers⟩
  · exact scoped_bindMethod hst' hbound hinvoke
  · exact scoped_bindEnumMembers hst' hbound
  · have hgrows := (makes_bindPrimaryConstructor hst'.container_lt hconstructed).grows
    exact scoped_bindMembers (hst'.grows hgrows) rfl
      (scoped_bindPrimaryConstructor hst' hbound hconstructed) hmembers

theorem scoped_bindParts {parts : List DeclaredPart} (hw : WellFormed o)
    (hc : ∀ part ∈ parts, Chain o.table (part.type :: part.enclosing)) (hs : Scoped o.table)
    (h : o.bindParts parts = .ok o') : Scoped o'.table := by
  induction parts generalizing o with
  | nil =>
    cases h
    exact hs
  | cons part rest ih =>
    rw [bindParts] at h
    split at h
    · cases h
    · next bound hbound =>
      have hchain := hc part List.mem_cons_self
      have hgrows := (makes_bindPart hchain.head_lt hbound).grows
      exact ih (hw.grows hgrows)
        (fun other hother => (hc other (List.mem_cons_of_mem part hother)).keeps hgrows.shape.keeps)
        (scoped_bindPart hw hchain hs hbound) h

/-! ### Whole types -/

theorem scoped_addImplicit (hs : Scoped o.table) (id : TypeId) :
    Scoped (o.addImplicit id).table := by
  rw [addImplicit_eq]
  cases implicitConstructor? o.table id with
  | none => exact hs
  | some access =>
    exact (hs.addMethod (m := implicitMethod o.table id access) rfl rfl).updateDefinition
      (SymbolTable.sameShape_addMember id rfl) rfl

theorem scoped_finish (hs : Scoped o.table) (id : TypeId) : Scoped (o.finish id).table :=
  (scoped_addImplicit hs id).updateDefinition
    (SymbolTable.sameShape_updateDefinition id ⟨rfl, rfl, rfl, rfl⟩ rfl) rfl

theorem scoped_foldl_finish {ids : List TypeId} (hs : Scoped o.table) :
    Scoped (ids.foldl finish o).table := by
  induction ids generalizing o with
  | nil => exact hs
  | cons id rest ih => exact ih (scoped_finish hs id)

/-- **The second pass keeps the scoping invariant.** -/
theorem scoped_bind (hw : WellFormed o) (hs : Scoped o.table) (h : o.bind = .ok o') :
    Scoped o'.table := by
  obtain ⟨bound, hbound, rfl⟩ := ok_of_map h
  exact scoped_foldl_finish (scoped_bindParts hw hw.parts hs hbound)

/-- Where nothing is bound yet, everything is well scoped. -/
theorem scoped_of_bare {table : SymbolTable} (h : SymbolTable.Bare table) : Scoped table := by
  refine ⟨fun m hm => ?_, fun v hv => ?_, fun id q hq t ht => ?_⟩
  · rw [h.methods] at hm
    cases hm
  · rw [h.values] at hv
    cases hv
  · rw [TypeParameter.constraintTypes, (h.begun id).constraints q hq] at ht
    cases ht

end

end Outline

/-! ### Compilations -/

namespace Compilation

variable {identity : AssemblyIdentity} {implicitUsings : Bool}
  {files : List (Text.Bytes × Source.Node)} {c c' : Compilation}

/-- **Bound types are well scoped.**  After the files of a compilation are bound, every type
parameter in the signature of a method is one of that method, or one of the type of the method or of
a type around that; every type parameter in a field, property or event, or in a constraint of a type,
is one of that type or of a type around it; no type parameter of a method occurs in the signature of
another one; and none at all occurs in what a using directive gives a name to, at whatever point of
the pass the name is resolved. -/
theorem bind_wellScoped
    (hfiles : (Compilation.empty identity implicitUsings).addFiles files = .ok c)
    (h : c.bind = .ok c') :
    Scoped c'.outline.table ∧
      (∀ m : MethodId, m.index < c'.outline.table.methods.size →
        ∀ t ∈ (c'.outline.table.method m).types, ∀ (n : MethodId) (i : Nat),
          t.occurs (.ofMethod n i) = true → n = m) ∧
      c.outline.Grows c'.outline ∧
      ∀ o, c.outline.Grows o → ∀ (a : Alias) (t : Ty), o.resolveAlias a = .ok (some t) →
        ∀ p, t.occurs p = false := by
  obtain ⟨houtlined, hbound⟩ := outlined_addFiles hfiles
  have hbind := bind_ok hbound h
  have hw := houtlined.toWellFormed
  have hscoped := Outline.scoped_bind hw (Outline.scoped_of_bare houtlined.bare) hbind
  refine ⟨hscoped, fun m hm t ht n i hp => ?_, ?_, fun o ho a t ha p => ?_⟩
  · obtain ⟨owner, -, htypes⟩ := hscoped.methods m hm
    rcases htypes t ht (.ofMethod n i) hp with hown | htype
    · obtain ⟨j, -, he⟩ := List.mem_map.mp hown
      rw [TypeParameterRef.ofMethod.injEq] at he
      exact he.1.symm
    · exact absurd rfl (htype.ne_ofMethod n i)
  · obtain ⟨extra, hmakes, -, -⟩ := houtlined.makes_bind hbind
    exact hmakes.grows
  · have hclosed := Outline.resolveAlias_closed (hw.grows ho).lookups ha
    cases hp : t.occurs p with
    | false => rfl
    | true => exact (hclosed p hp).elim

/-! ### A generic method in a generic class -/

/-- A class with a method that names both its own type parameter and that of the class. -/
def genericSource : Text.Bytes :=
  bytesOf "class B<T>{void M<U>(U u, T t){}}"

/-- The tree of that source. -/
def genericTree : Source.Node :=
  namedNode "compilation_unit" 0 33 "" [
    namedNode "class_declaration" 0 33 "" [
      namedLeaf "identifier" 6 7 "name",
      namedNode "type_parameter_list" 7 10 "" [
        namedNode "type_parameter" 8 9 "" [namedLeaf "identifier" 8 9 "name"]],
      namedNode "declaration_list" 10 33 "body" [
        namedNode "method_declaration" 11 32 "" [
          namedLeaf "predefined_type" 11 15 "returns",
          namedLeaf "identifier" 16 17 "name",
          namedNode "type_parameter_list" 17 20 "type_parameters" [
            namedNode "type_parameter" 18 19 "" [namedLeaf "identifier" 18 19 "name"]],
          namedNode "parameter_list" 20 30 "parameters" [
            namedNode "parameter" 21 24 "" [
              namedLeaf "identifier" 21 22 "type", namedLeaf "identifier" 23 24 "name"],
            namedNode "parameter" 26 29 "" [
              namedLeaf "identifier" 26 27 "type", namedLeaf "identifier" 28 29 "name"]]]]]]

/-- The class is bound with its method and a constructor that it does not declare, and everything
in it is well scoped. -/
theorem genericClass_wellScoped :
    ∃ c c' : Compilation,
      (Compilation.empty ⟨"B", "1.0.0.0", "neutral", none⟩ true).addFiles
        [(genericSource, genericTree)] = .ok c ∧
      c.bind = .ok c' ∧ c'.outline.table.methods.size = 2 ∧ Scoped c'.outline.table := by
  obtain ⟨c, hc⟩ : ∃ c, (Compilation.empty ⟨"B", "1.0.0.0", "neutral", none⟩ true).addFiles
      [(genericSource, genericTree)] = .ok c := ⟨_, rfl⟩
  have hcount : ((Compilation.empty ⟨"B", "1.0.0.0", "neutral", none⟩ true).addFiles
      [(genericSource, genericTree)]).toOption.bind (fun c =>
        c.bind.toOption.map (·.outline.table.methods.size)) = some 2 := by
    decide +kernel
  rw [hc] at hcount
  cases hc' : c.bind with
  | error e =>
    simp only [Except.toOption, Option.bind_some, hc', Option.map_none] at hcount
    cases hcount
  | ok c' =>
    simp only [Except.toOption, Option.bind_some, hc', Option.map_some] at hcount
    exact ⟨c, c', hc, hc', Option.some.inj hcount, (bind_wellScoped hc hc').1⟩

end Compilation

end ExtensionCensus.Binding
