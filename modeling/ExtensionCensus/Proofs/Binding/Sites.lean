import ExtensionCensus.Proofs.Binding.WellScoped

/-!
# Where types are read

The second pass reads the types that are written in constraints, in signatures and in fields,
properties and events. It reads each of them in the outline that everything in front has made.

* `Outline.ReadsInClauses`, `Outline.ReadsInMethod`, `Outline.ReadsInPart` — a type that is read in a
  construct, the outline that it is read in, and the constraint clauses that are bound by then;
* `Site`, `Outline.ReadsSite` — the same for a list of parts;
* `Sourced`, `sourced_bindParts` — **every type that is bound was read at a site**.
-/

namespace ExtensionCensus.Binding

open Source (TypeForm ReturnForm ParameterForm ConstraintForm ConstraintClause MethodForm
  ValueForm MemberForm)

namespace Outline

/-! ### Reading a type -/

/-- A type is read in a constraint: the clauses in front of it are bound, and its own clause as far as
the constraint. -/
inductive ReadsInClauses (o : Outline) (ctx : Context) (ps : List TypeParameterRef)
    (clauses : List ConstraintClause) :
    List ConstraintClause → Outline → Option TypeForm → Prop where
  | mk (front back : List ConstraintClause) {clause : ConstraintClause}
      {before after : List ConstraintForm} {form : TypeForm} {q : Outline}
      (hclauses : clauses = front ++ clause :: back)
      (hforms : clause.constraints = before ++ .type form :: after)
      (hbound : o.bindClauses ctx ps (front ++ [⟨clause.target, before⟩]) = .ok q) :
      ReadsInClauses o ctx ps clauses (front ++ [⟨clause.target, before⟩]) q (some form)

/-- A type is read in the type of a parameter: the parameters in front of it are bound. -/
inductive ReadsInParameters (o : Outline) (ctx : Context) (forms : List ParameterForm) :
    Outline → Option TypeForm → Prop where
  | mk (front back : List ParameterForm) {form : ParameterForm} {q : Outline}
      {bound : List Parameter} (hforms : forms = front ++ form :: back)
      (hbound : o.bindParameters ctx front = .ok (q, bound)) :
      ReadsInParameters o ctx forms q form.type

/-- The place in the next method. -/
def nextPlace (o : Outline) (ctx : Context) : Context :=
  { ctx with method := some o.table.nextMethod }

/-- The clauses of the next method are bound. -/
def BindsClauses (o : Outline) (ctx : Context) (container : TypeId) (m : MethodForm)
    (clauses : List ConstraintClause) (q : Outline) : Prop :=
  (o.beginMethod container m).bindClauses (o.nextPlace ctx)
    ((o.beginMethod container m).table.methodTypeParameters o.table.nextMethod) clauses = .ok q

/-- A type is read in the signature of the next method: in its constraints, or once all of them are
bound in what it returns and in its parameters. -/
inductive ReadsInMethod (o : Outline) (ctx : Context) (container : TypeId) (m : MethodForm) :
    List ConstraintClause → Outline → Option TypeForm → Prop where
  | constraint {past : List ConstraintClause} {q : Outline} {form : Option TypeForm}
      (h : (o.beginMethod container m).ReadsInClauses (o.nextPlace ctx)
        ((o.beginMethod container m).table.methodTypeParameters o.table.nextMethod) m.constraints
        past q form) : ReadsInMethod o ctx container m past q form
  | returned {q : Outline} {r : ReturnForm} (hclauses : o.BindsClauses ctx container m m.constraints q)
      (hreturns : m.returns = some r) : ReadsInMethod o ctx container m m.constraints q r.type
  | parameter {clausesBound returnBound q : Outline} {returnType : Option Ty} {isNullable : Bool}
      {byRef : Option String} {form : Option TypeForm}
      (hclauses : o.BindsClauses ctx container m m.constraints clausesBound)
      (hreturn : clausesBound.bindReturn (o.nextPlace ctx) m.returns
        = .ok (returnBound, returnType, isNullable, byRef))
      (h : returnBound.ReadsInParameters (o.nextPlace ctx) m.parameters q form) :
      ReadsInMethod o ctx container m m.constraints q form

/-- The outline `q` is what stands in front of a member, where the clauses of its part are bound. -/
inductive Precedes (o : Outline) (part : DeclaredPart) : MemberForm → Outline → Prop where
  | invoke (hkind : (o.table.definition part.type).kind = .delegateType) :
      Precedes o part (.method (invokeForm part)) o
  | constructor (hdelegate : (o.table.definition part.type).kind ≠ .delegateType)
      (henum : (o.table.definition part.type).kind ≠ .enumType)
      (hlist : part.form.hasParameterList = true) :
      Precedes o part (.method (primaryConstructorForm part)) o
  | member (front back : List MemberForm) {form : MemberForm} {constructed q : Outline}
      (hdelegate : (o.table.definition part.type).kind ≠ .delegateType)
      (henum : (o.table.definition part.type).kind ≠ .enumType)
      (hconstructed : o.bindPrimaryConstructor (placeOf part) part = .ok constructed)
      (hmembers : part.form.members = front ++ form :: back)
      (hbound : constructed.bindMembers (placeOf part) part.type front = .ok q) :
      Precedes o part form q

/-- The clauses of a part are bound. -/
def BindsOwn (o : Outline) (part : DeclaredPart) (clauses : List ConstraintClause)
    (q : Outline) : Prop :=
  o.bindClauses (placeOf part) (o.table.typeParametersOf part.type) clauses = .ok q

/-- A type is read in a part of a type: in its constraints, or in a member once all of them are
bound. For a type in a method, the method and its clauses that are bound are told. -/
inductive ReadsInPart (o : Outline) (part : DeclaredPart) :
    List ConstraintClause → Option (MethodId × MethodForm) → List ConstraintClause → Outline →
      Option TypeForm → Prop where
  | constraint {own : List ConstraintClause} {q : Outline} {form : Option TypeForm}
      (h : o.ReadsInClauses (placeOf part) (o.table.typeParametersOf part.type)
        part.form.constraints own q form) : ReadsInPart o part own none [] q form
  | method {clausesBound before q : Outline} {m : MethodForm} {signature : List ConstraintClause}
      {form : Option TypeForm} (hclauses : o.BindsOwn part part.form.constraints clausesBound)
      (hbefore : clausesBound.Precedes part (.method m) before)
      (h : before.ReadsInMethod (placeOf part) part.type m signature q form) :
      ReadsInPart o part part.form.constraints (some (before.table.nextMethod, m)) signature q form
  | values {clausesBound q : Outline} {v : ValueForm}
      (hclauses : o.BindsOwn part part.form.constraints clausesBound)
      (hbefore : clausesBound.Precedes part (.values v) q) :
      ReadsInPart o part part.form.constraints none [] q v.type

end Outline

/-- Where a type is read: the parts around it with the one that it is written in, and the outline
that it is read in. Of that part the clauses `own` are bound; in a method, the clauses `signature` of
the method are as well. -/
structure Site where
  front : List DeclaredPart
  part : DeclaredPart
  back : List DeclaredPart
  own : List ConstraintClause
  method : Option (MethodId × MethodForm)
  signature : List ConstraintClause
  outline : Outline
  form : Option TypeForm

/-- The place where the type is written. -/
def Site.place (s : Site) : Context :=
  { Outline.placeOf s.part with method := s.method.map (·.1) }

/-- What the type that is read denotes. -/
def Site.resolve (s : Site) : Except BindError Ty :=
  s.outline.resolveOptional s.place s.form

namespace Outline

/-- A type is read when some parts are bound: those in front of its own are bound before. -/
def ReadsSite (o : Outline) (parts : List DeclaredPart) (s : Site) : Prop :=
  parts = s.front ++ s.part :: s.back ∧ ∃ r, o.bindParts s.front = .ok r ∧
    r.ReadsInPart s.part s.own s.method s.signature s.outline s.form

section

variable {o o' p q : Outline} {ctx : Context}

/-! ### Runs over lists -/

theorem bindClauses_append (o : Outline) (ctx : Context) (ps : List TypeParameterRef)
    (front back : List ConstraintClause) : o.bindClauses ctx ps (front ++ back)
      = match o.bindClauses ctx ps front with
        | .error e => .error e
        | .ok o => o.bindClauses ctx ps back := by
  induction front generalizing o with
  | nil => rfl
  | cons clause rest ih =>
    rw [List.cons_append, bindClauses, bindClauses]
    split
    · exact ih o
    · split
      · split
        · rfl
        · next bound _ => exact ih bound
      · exact ih o

theorem bindMembers_append (o : Outline) (ctx : Context) (container : TypeId)
    (front back : List MemberForm) : o.bindMembers ctx container (front ++ back)
      = match o.bindMembers ctx container front with
        | .error e => .error e
        | .ok o => o.bindMembers ctx container back := by
  induction front generalizing o with
  | nil => rfl
  | cons form rest ih =>
    rw [List.cons_append, bindMembers_cons, bindMembers_cons]
    split
    · rfl
    · exact ih _

/-- A single clause for a type parameter that has no constraints. -/
theorem bindClauses_singleton {ps : List TypeParameterRef} {name : String}
    {target : TypeParameterRef} (htarget : o.parameterNamed? ps.reverse name = some target)
    (hempty : (o.table.typeParameter target).constraints.isEmpty = true)
    (forms : List ConstraintForm) :
    o.bindClauses ctx ps [⟨name, forms⟩] = o.bindConstraintList ctx target forms := by
  rw [bindClauses, htarget]
  simp only [hempty, ↓reduceIte]
  cases o.bindConstraintList ctx target forms <;> rfl

/-- A clause without constraints changes nothing. -/
theorem bindClauses_empty (o : Outline) (ctx : Context) (ps : List TypeParameterRef)
    (name : String) : o.bindClauses ctx ps [⟨name, []⟩] = .ok o := by
  rw [bindClauses]
  split
  · rfl
  · split <;> rfl

/-! ### Reading behind what is bound -/

theorem ReadsInClauses.behind {ps : List TypeParameterRef} {front rest past : List ConstraintClause}
    {form : Option TypeForm} (hfront : o.bindClauses ctx ps front = .ok p)
    (h : p.ReadsInClauses ctx ps rest past q form) :
    o.ReadsInClauses ctx ps (front ++ rest) (front ++ past) q form := by
  cases h with
  | mk inner back hclauses hforms hbound =>
    rw [← List.append_assoc]
    refine .mk (front ++ inner) back ?_ hforms ?_
    · rw [hclauses, List.append_assoc]
    · rw [List.append_assoc, bindClauses_append, hfront]
      exact hbound

theorem ReadsInParameters.behind {first : ParameterForm} {rest : List ParameterForm}
    {bound : Parameter} {form : Option TypeForm} (hfirst : o.bindParameter ctx first = .ok (p, bound))
    (h : p.ReadsInParameters ctx rest q form) : o.ReadsInParameters ctx (first :: rest) q form := by
  cases h with
  | @mk front back _ _ others hforms hbound =>
    have hall : o.bindParameters ctx (first :: front) = .ok (q, bound :: others) := by
      rw [bindParameters, hfirst]
      simp only [hbound]
      rfl
    exact .mk (first :: front) back (by rw [hforms, List.cons_append]) hall

theorem ReadsSite.behind {front rest : List DeclaredPart} {s : Site}
    (hfront : o.bindParts front = .ok p) (h : p.ReadsSite rest s) :
    o.ReadsSite (front ++ rest) { s with front := front ++ s.front } := by
  obtain ⟨hparts, r, hr, hread⟩ := h
  refine ⟨?_, r, ?_, hread⟩
  · rw [hparts, List.append_assoc]
  · rw [bindParts_append, hfront]
    exact hr

end

/-! ### What stands in front of a site -/

section

variable {o o' q : Outline} {ctx : Context}

theorem grows_bindMembers {container : TypeId} {members : List MemberForm}
    (h : o.bindMembers ctx container members = .ok o') : Grows o o' := by
  induction members generalizing o with
  | nil =>
    cases h
    exact .refl _
  | cons form rest ih =>
    obtain ⟨bound, hbound, hrest⟩ := bindMembers_cons_ok h
    exact (grows_bindMember hbound).trans (ih hrest)

theorem grows_bindPrimaryConstructor {part : DeclaredPart}
    (h : o.bindPrimaryConstructor ctx part = .ok o') : Grows o o' := by
  rw [bindPrimaryConstructor] at h
  split at h
  · obtain ⟨made, hmade, rfl⟩ := ok_of_map h
    split
    · exact (grows_bindMethod hmade).trans (quiet_addRecordProperties part _).grows
    · exact grows_bindMethod hmade
  · cases h
    exact .refl _

theorem grows_bindPart {part : DeclaredPart} (h : o.bindPart part = .ok o') : Grows o o' := by
  obtain ⟨clausesBound, hclauses, hrest⟩ := bindPart_ok h
  refine (quiet_bindClauses hclauses).grows.trans ?_
  rcases hrest with ⟨-, hinvoke⟩ | ⟨-, rfl⟩ | ⟨-, -, constructed, hconstructed, hmembers⟩
  · exact grows_bindMethod hinvoke
  · exact (quiet_bindEnumMembers part).grows
  · exact (grows_bindPrimaryConstructor hconstructed).trans (grows_bindMembers hmembers)

theorem grows_bindParts {parts : List DeclaredPart} (h : o.bindParts parts = .ok o') :
    Grows o o' := by
  induction parts generalizing o with
  | nil =>
    cases h
    exact .refl _
  | cons part rest ih =>
    rw [bindParts] at h
    split at h
    · cases h
    · next bound hbound => exact (grows_bindPart hbound).trans (ih h)

theorem Precedes.grows {part : DeclaredPart} {form : MemberForm} (h : o.Precedes part form q) :
    Grows o q := by
  cases h with
  | invoke => exact .refl _
  | constructor => exact .refl _
  | member _ _ _ _ hconstructed _ hbound =>
    exact (grows_bindPrimaryConstructor hconstructed).trans (grows_bindMembers hbound)

end

/-! ### Types that were read -/

/-- Every type in the signature of a method, in a field, a property or an event and in a constraint is
one of those seen; an enum's own values have the type of the enum. -/
structure Sourced (seen : Ty → Prop) (table : SymbolTable) : Prop where
  methods : ∀ m : MethodId, ∀ t ∈ (table.method m).types, seen t
  values : ∀ (v : ValueId) (t : Ty), (table.value v).type = some t →
    seen t ∨ (table.value v).container = some t
  definitions : ∀ id : TypeId, ∀ q ∈ (table.definition id).typeParameters,
    ∀ t ∈ q.constraintTypes, seen t

section

variable {seen : Ty → Prop} {table table' : SymbolTable} {o o' : Outline} {ctx : Context}
  {container : TypeId}

/-- Methods, values and the type parameters of definitions stay. -/
theorem Sourced.congr (h : Sourced seen table) (hm : table'.methods = table.methods)
    (hv : table'.values = table.values)
    (hd : ∀ id, (table'.definition id).typeParameters = (table.definition id).typeParameters) :
    Sourced seen table' where
  methods m t ht := by
    rw [SymbolTable.method, hm] at ht
    exact h.methods m t ht
  values v t ht := by
    rw [SymbolTable.value, hv] at ht ⊢
    exact h.values v t ht
  definitions id := by
    rw [hd]
    exact h.definitions id

theorem Sourced.addMethod (h : Sourced seen table) {m : Method} (hm : ∀ t ∈ m.types, seen t) :
    Sourced seen (table.addMethod m) := by
  refine ⟨fun id t ht => ?_, h.values, h.definitions⟩
  rw [SymbolTable.method_addMethod] at ht
  split at ht
  · exact hm t ht
  · exact h.methods id t ht

theorem Sourced.updateMethod (h : Sourced seen table) {id : MethodId} {f : Method → Method}
    (hf : ∀ t ∈ (f (table.method id)).types, t ∈ (table.method id).types ∨ seen t) :
    Sourced seen (table.updateMethod id f) := by
  refine ⟨fun other t ht => ?_, h.values, h.definitions⟩
  rw [SymbolTable.method_updateMethod] at ht
  split at ht
  · exact (hf t ht).elim (h.methods id t) fun hseen => hseen
  · exact h.methods other t ht

theorem Sourced.addValue (h : Sourced seen table) {v : ValueMember}
    (hv : ∀ t, v.type = some t → seen t ∨ v.container = some t) :
    Sourced seen (table.addValue v) := by
  refine ⟨h.methods, fun id t ht => ?_, h.definitions⟩
  rw [SymbolTable.value_addValue] at ht ⊢
  split at ht
  · next he =>
    rw [if_pos he]
    exact hv t ht
  · next hne =>
    rw [if_neg hne]
    exact h.values id t ht

theorem typeParameters_addMember (table : SymbolTable) (container id : TypeId) (m : Member) :
    ((table.addMember container m).definition id).typeParameters
      = (table.definition id).typeParameters := by
  rw [SymbolTable.addMember, SymbolTable.definition_updateDefinition]
  split
  · next he => rw [he.1]
  · rfl

theorem Sourced.addMember (h : Sourced seen table) (container : TypeId) (m : Member) :
    Sourced seen (table.addMember container m) :=
  h.congr rfl rfl fun id => typeParameters_addMember table container id m

theorem Sourced.note (h : Sourced seen table) (t : Ty) : Sourced seen (table.note t) := by
  obtain ⟨instances, hnote⟩ := SymbolTable.note_eq table t
  rw [hnote]
  exact h.congr rfl rfl fun _ => rfl

/-- One more constraint among some type parameters. -/
theorem constraintTypes_modify {ps : List TypeParameter} {i : Nat} {c : Constraint}
    (hc : ∀ t, c = .type t → seen t) (hps : ∀ q ∈ ps, ∀ t ∈ q.constraintTypes, seen t) :
    ∀ q ∈ ps.modify i fun q => { q with constraints := q.constraints ++ [c] },
      ∀ t ∈ q.constraintTypes, seen t := by
  intro q hq t ht
  rcases mem_modify hq with hq | ⟨old, hold, rfl⟩
  · exact hps q hq t ht
  · rcases (TypeParameter.constraintTypes_concat old c).mp ht with ht | ht
    · exact hps old hold t ht
    · exact hc t ht

theorem Sourced.constrain (h : Sourced seen table) (target : TypeParameterRef) {c : Constraint}
    (hc : ∀ t, c = .type t → seen t) : Sourced seen (table.constrain target c) := by
  cases target with
  | free i => exact h.congr rfl rfl fun _ => rfl
  | ofType owner i =>
    refine ⟨h.methods, h.values, fun id => ?_⟩
    rw [SymbolTable.constrain, SymbolTable.updateTypeParameter,
      SymbolTable.definition_updateDefinition]
    split
    · exact constraintTypes_modify hc (h.definitions owner)
    · exact h.definitions id
  | ofMethod owner i =>
    refine Sourced.updateMethod h fun t ht => ?_
    rcases Method.mem_types_iff.mp ht with hret | hparameter | ⟨q, hq, hqt⟩
    · exact Or.inl (Method.mem_types_iff.mpr (Or.inl hret))
    · exact Or.inl (Method.mem_types_iff.mpr (Or.inr (Or.inl hparameter)))
    · refine Or.inr (constraintTypes_modify hc (fun q hq t ht => ?_) q hq t hqt)
      exact h.methods owner t (Method.mem_types_iff.mpr (Or.inr (Or.inr ⟨q, hq, ht⟩)))

/-! ### Signatures -/

theorem sourced_bindType (hs : Sourced seen o.table) {form : Option TypeForm} {t : Ty}
    (h : o.bindType ctx form = .ok (o', t)) : Sourced seen o'.table := by
  obtain ⟨-, rfl⟩ := bindType_ok h
  exact hs.note t

theorem sourced_bindConstraintList {target : TypeParameterRef} {forms : List ConstraintForm}
    (hs : Sourced seen o.table)
    (hseen : ∀ before form after q t, forms = before ++ .type form :: after →
      o.bindConstraintList ctx target before = .ok q → q.resolve ctx form = .ok t → seen t)
    (h : o.bindConstraintList ctx target forms = .ok o') : Sourced seen o'.table := by
  induction forms generalizing o with
  | nil =>
    cases h
    exact hs
  | cons form rest ih =>
    rw [bindConstraintList] at h
    split at h
    · cases h
    · next bound c hbound =>
      refine ih ?_ (fun before written after q t hrest hq => ?_) h
      · cases form with
        | keyword word =>
          cases hbound
          exact hs.constrain target fun t he => by cases he
        | type written =>
          obtain ⟨⟨q, t⟩, hq, he⟩ := ok_of_map hbound
          cases he
          refine (sourced_bindType hs hq).constrain target fun u hu => ?_
          cases hu
          exact hseen [] written rest o t rfl rfl (bindType_ok hq).1
      · refine hseen (form :: before) written after q t ?_ ?_
        · rw [hrest, List.cons_append]
        · rw [bindConstraintList, hbound]
          exact hq

theorem sourced_bindClauses {ps : List TypeParameterRef} {clauses : List ConstraintClause}
    (hs : Sourced seen o.table)
    (hseen : ∀ past q form t, o.ReadsInClauses ctx ps clauses past q form →
      q.resolveOptional ctx form = .ok t → seen t)
    (h : o.bindClauses ctx ps clauses = .ok o') : Sourced seen o'.table := by
  induction clauses generalizing o with
  | nil =>
    cases h
    exact hs
  | cons clause rest ih =>
    rw [← List.singleton_append, bindClauses_append] at h
    cases hfirst : o.bindClauses ctx ps [clause] with
    | error e =>
      rw [hfirst] at h
      cases h
    | ok p =>
      rw [hfirst] at h
      refine ih ?_ (fun past q form t hread => hseen _ q form t (hread.behind hfirst)) h
      rw [bindClauses] at hfirst
      split at hfirst
      · cases hfirst
        exact hs
      · next target htarget =>
        split at hfirst
        · next hempty =>
          split at hfirst
          · cases hfirst
          · next bound hbound =>
            cases hfirst
            refine sourced_bindConstraintList hs (fun before form after q t hforms hq ht => ?_) hbound
            refine hseen _ q (some form) t (.mk [] rest rfl hforms ?_) ht
            rw [List.nil_append, bindClauses_singleton htarget hempty before]
            exact hq
        · cases hfirst
          exact hs

theorem sourced_bindReturn (hs : Sourced seen o.table) {form : Option ReturnForm}
    {returnType : Option Ty} {isNullable : Bool} {byRef : Option String}
    (hseen : ∀ r t, form = some r → o.resolveOptional ctx r.type = .ok t → seen t)
    (h : o.bindReturn ctx form = .ok (o', returnType, isNullable, byRef)) :
    Sourced seen o'.table ∧ ∀ t, returnType = some t → seen t := by
  cases form with
  | none =>
    cases h
    exact ⟨hs, fun t ht => by cases ht⟩
  | some r =>
    obtain ⟨⟨q, t⟩, hq, he⟩ := ok_of_map h
    cases he
    refine ⟨sourced_bindType hs hq, fun u hu => ?_⟩
    cases hu
    exact hseen r t rfl (bindType_ok hq).1

theorem sourced_bindParameters {forms : List ParameterForm} {ps : List Parameter}
    (hs : Sourced seen o.table)
    (hseen : ∀ q form t, o.ReadsInParameters ctx forms q form →
      q.resolveOptional ctx form = .ok t → seen t)
    (h : o.bindParameters ctx forms = .ok (o', ps)) :
    Sourced seen o'.table ∧ ∀ p ∈ ps, seen p.type := by
  induction forms generalizing o ps with
  | nil =>
    cases h
    exact ⟨hs, fun p hp => by cases hp⟩
  | cons form rest ih =>
    obtain ⟨bound, first, others, hfirst, hothers, rfl⟩ := bindParameters_cons_ok h
    obtain ⟨t, ht, he⟩ := bindParameter_ok hfirst
    obtain ⟨hsourced, htypes⟩ := ih (sourced_bindType hs ht)
      (fun q written u hread => hseen q written u (hread.behind hfirst)) hothers
    refine ⟨hsourced, List.forall_mem_cons.mpr ⟨?_, htypes⟩⟩
    rw [he]
    exact hseen o form.type t (.mk [] rest rfl rfl) (bindType_ok ht).1

/-! ### Members -/

theorem sourced_beginMethod (hs : Sourced seen o.table) (m : MethodForm) :
    Sourced seen (o.beginMethod container m).table :=
  hs.addMethod fun t ht => by rw [types_bareMethod] at ht; cases ht

/-- **The types of a method were read in its signature.** -/
theorem sourced_bindMethod {m : MethodForm} (hs : Sourced seen o.table)
    (hseen : ∀ past q form t, o.ReadsInMethod ctx container m past q form →
      q.resolveOptional (o.nextPlace ctx) form = .ok t → seen t)
    (h : o.bindMethod ctx container m = .ok o') : Sourced seen o'.table := by
  obtain ⟨clausesBound, returnBound, parametersBound, returnType, isNullable, byRef, parameters,
    steps⟩ := bindMethod_ok h
  have hclauses := sourced_bindClauses (sourced_beginMethod hs m)
    (fun past q form t hread => hseen past q form t (.constraint hread)) steps.clauses
  obtain ⟨hreturn, hreturned⟩ := sourced_bindReturn hclauses
    (fun r t hr => hseen _ _ r.type t (.returned steps.clauses hr)) steps.returns
  obtain ⟨hparameters, htypes⟩ := sourced_bindParameters hreturn
    (fun q form t hread => hseen _ q form t (.parameter steps.clauses steps.returns hread))
    steps.signature
  rw [steps.complete, completeMethod]
  refine (hparameters.updateMethod fun t ht => ?_).addMember container _
  rcases Method.mem_types_iff.mp ht with hret | ⟨p, hp, rfl⟩ | hconstraint
  · exact Or.inr (hreturned t hret)
  · obtain ⟨q, hq, htype⟩ := type_of_mem_attached hp
    exact Or.inr (htype ▸ htypes q hq)
  · exact Or.inl (Method.mem_types_iff.mpr (Or.inr (Or.inr hconstraint)))

theorem sourced_foldl_addValue {α : Type} {f : Outline → α → ValueMember} {as : List α}
    (hs : Sourced seen o.table)
    (hf : ∀ a ∈ as, ∀ b t, (f b a).type = some t → seen t ∨ (f b a).container = some t) :
    Sourced seen (as.foldl (fun o a => o.addValue container (f o a)) o).table := by
  induction as generalizing o with
  | nil => exact hs
  | cons a rest ih =>
    refine ih ((hs.addValue (hf a List.mem_cons_self o)).addMember container _) fun other hother => ?_
    exact hf other (List.mem_cons_of_mem a hother)

theorem sourced_bindValues {v : ValueForm} (hs : Sourced seen o.table)
    (hseen : ∀ t, o.resolveOptional ctx v.type = .ok t → seen t)
    (h : o.bindValues ctx container v = .ok o') : Sourced seen o'.table := by
  obtain ⟨⟨bound, t⟩, hbound, rfl⟩ := ok_of_map h
  refine sourced_foldl_addValue (sourced_bindType hs hbound) fun name _ b u hu => Or.inl ?_
  cases hu
  exact hseen t (bindType_ok hbound).1

theorem sourced_bindPrimaryConstructor {part : DeclaredPart} (hs : Sourced seen o.table)
    (hseen : part.form.hasParameterList = true → ∀ past q form t,
      o.ReadsInMethod ctx part.type (primaryConstructorForm part) past q form →
      q.resolveOptional (o.nextPlace ctx) form = .ok t → seen t)
    (h : o.bindPrimaryConstructor ctx part = .ok o') : Sourced seen o'.table := by
  rw [bindPrimaryConstructor] at h
  split at h
  · next hlist =>
    obtain ⟨made, hmade, rfl⟩ := ok_of_map h
    have hsourced := sourced_bindMethod hs (hseen hlist) hmade
    split
    · refine sourced_foldl_addValue hsourced fun p hp b t ht => Or.inl ?_
      cases ht
      exact hsourced.methods _ _ (Method.mem_types_iff.mpr (Or.inr (Or.inl ⟨p, hp, rfl⟩)))
    · exact hsourced
  · cases h
    exact hs

theorem sourced_bindMembers {members : List MemberForm} (hs : Sourced seen o.table)
    (hmethods : ∀ front m back p, members = front ++ .method m :: back →
      o.bindMembers ctx container front = .ok p → ∀ past q form t,
        p.ReadsInMethod ctx container m past q form →
        q.resolveOptional (p.nextPlace ctx) form = .ok t → seen t)
    (hvalues : ∀ front v back p, members = front ++ .values v :: back →
      o.bindMembers ctx container front = .ok p → ∀ t,
        p.resolveOptional ctx v.type = .ok t → seen t)
    (h : o.bindMembers ctx container members = .ok o') : Sourced seen o'.table := by
  induction members generalizing o with
  | nil =>
    cases h
    exact hs
  | cons form rest ih =>
    obtain ⟨bound, hbound, hrest⟩ := bindMembers_cons_ok h
    have hfront : ∀ front p, bound.bindMembers ctx container front = .ok p →
        o.bindMembers ctx container (form :: front) = .ok p := by
      intro front p hp
      rw [bindMembers_cons, hbound]
      exact hp
    refine ih ?_ (fun front m back p he hp => ?_) (fun front v back p he hp => ?_) hrest
    · cases form with
      | method m => exact sourced_bindMethod hs (hmethods [] m rest o rfl rfl) hbound
      | values v => exact sourced_bindValues hs (hvalues [] v rest o rfl rfl) hbound
    · exact hmethods (form :: front) m back p (by rw [he, List.cons_append]) (hfront front p hp)
    · exact hvalues (form :: front) v back p (by rw [he, List.cons_append]) (hfront front p hp)

/-! ### Parts and whole types -/

/-- The place where a type in a part is written. -/
def placeIn (part : DeclaredPart) (method : Option (MethodId × MethodForm)) : Context :=
  { placeOf part with method := method.map (·.1) }

/-- **The types that a part binds were read in it.** -/
theorem sourced_bindPart {part : DeclaredPart} (hs : Sourced seen o.table)
    (hseen : ∀ own method signature q form t, o.ReadsInPart part own method signature q form →
      q.resolveOptional (placeIn part method) form = .ok t → seen t)
    (h : o.bindPart part = .ok o') : Sourced seen o'.table := by
  obtain ⟨clausesBound, hclauses, hrest⟩ := bindPart_ok h
  have hkind := ((quiet_bindClauses hclauses).shape.agrees part.type).kind
  have hbound := sourced_bindClauses hs
    (fun past q form t hread => hseen past none [] q form t (.constraint hread)) hclauses
  have hmethod : ∀ m before, clausesBound.Precedes part (.method m) before → ∀ past q form t,
      before.ReadsInMethod (placeOf part) part.type m past q form →
      q.resolveOptional (before.nextPlace (placeOf part)) form = .ok t → seen t :=
    fun m before hbefore past q form t hread =>
      hseen _ _ past q form t (.method hclauses hbefore hread)
  rcases hrest with ⟨hdelegate, hinvoke⟩ | ⟨-, rfl⟩ | ⟨hdelegate, henum, constructed, hconstructed,
    hmembers⟩
  · exact sourced_bindMethod hbound (hmethod _ _ (.invoke (hkind.trans hdelegate))) hinvoke
  · refine sourced_foldl_addValue hbound fun name _ b t ht => Or.inr ?_
    cases ht
    rfl
  · rw [← hkind] at hdelegate henum
    have hfirst := sourced_bindPrimaryConstructor hbound
      (fun hlist => hmethod _ _ (.constructor hdelegate henum hlist)) hconstructed
    refine sourced_bindMembers hfirst (fun front m back p he hp => ?_)
      (fun front v back p he hp t => ?_) hmembers
    · exact hmethod m p (.member front back hdelegate henum hconstructed he hp)
    · exact hseen _ none [] p v.type t
        (.values hclauses (.member front back hdelegate henum hconstructed he hp))

/-- **The types that parts bind were read at sites in them.** -/
theorem sourced_bindParts {parts : List DeclaredPart} (hs : Sourced seen o.table)
    (hseen : ∀ s t, o.ReadsSite parts s → s.resolve = .ok t → seen t)
    (h : o.bindParts parts = .ok o') : Sourced seen o'.table := by
  induction parts generalizing o with
  | nil =>
    cases h
    exact hs
  | cons part rest ih =>
    rw [bindParts] at h
    split at h
    · cases h
    · next bound hbound =>
      have hfront : o.bindParts [part] = .ok bound := by
        rw [bindParts, hbound]
        rfl
      refine ih (sourced_bindPart hs ?_ hbound) (fun s t hread => ?_) h
      · intro own method signature q form t hread
        exact hseen ⟨[], part, rest, own, method, signature, q, form⟩ t ⟨rfl, o, rfl, hread⟩
      · exact hseen { s with front := [part] ++ s.front } t (hread.behind hfront)

/-- Whether to look for extension methods in a type says nothing of type parameters. -/
theorem typeParameters_flag (table : SymbolTable) (id other : TypeId) (might : Bool) :
    ((table.updateDefinition id fun d =>
      { d with traits := { d.traits with mightHoldExtensions := might } }).definition
        other).typeParameters = (table.definition other).typeParameters := by
  rw [SymbolTable.definition_updateDefinition]
  split
  · next he => rw [he.1]
  · rfl

theorem sourced_finish (hs : Sourced seen o.table) (id : TypeId) :
    Sourced seen (o.finish id).table := by
  have himplicit : Sourced seen (o.addImplicit id).table := by
    rw [addImplicit_eq]
    cases implicitConstructor? o.table id with
    | none => exact hs
    | some access =>
      refine (hs.addMethod (m := implicitMethod o.table id access) fun t ht => ?_).addMember id _
      cases ht
  exact himplicit.congr rfl rfl fun other => typeParameters_flag _ id other _

theorem sourced_foldl_finish {ids : List TypeId} (hs : Sourced seen o.table) :
    Sourced seen (ids.foldl finish o).table := by
  induction ids generalizing o with
  | nil => exact hs
  | cons id rest ih => exact ih (sourced_finish hs id)

/-- Where nothing is bound yet, no type needs to be seen. -/
theorem sourced_of_bare (h : SymbolTable.Bare table) : Sourced seen table := by
  refine ⟨fun m t ht => ?_, fun v t ht => ?_, fun id q hq t ht => ?_⟩
  · rw [SymbolTable.method, h.methods] at ht
    cases ht
  · rw [SymbolTable.value, h.values] at ht
    cases ht
  · rw [TypeParameter.constraintTypes, (h.begun id).constraints q hq] at ht
    cases ht

/-- **Every type in an assembly was read at a site of the second pass.** -/
theorem Outlined.sourced_bind (ho : Outlined o) (h : o.bind = .ok o') :
    Sourced (fun t => ∃ s, o.ReadsSite o.parts s ∧ s.resolve = .ok t) o'.table := by
  obtain ⟨bound, hbound, rfl⟩ := ok_of_map h
  exact sourced_foldl_finish (sourced_bindParts (sourced_of_bare ho.bare)
    (fun s t hread ht => ⟨s, hread, ht⟩) hbound)

end

end Outline

end ExtensionCensus.Binding
