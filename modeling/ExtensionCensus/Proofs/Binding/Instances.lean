import ExtensionCensus.Proofs.Binding.Gathering
import ExtensionCensus.Proofs.Binding.Sites

/-!
# Instances agree with their definitions

An instance of a declared type keeps the traits that the definition had when the instance first arose,
and further parts of a type change those of the definition. Instances arise in the second pass only, when
every part is declared.

* `Ty.Part`, `SymbolTable.Noted` — what a type is made of; every instance in a type has its traits;
* `SymbolTable.Later`, `Outline.Advances` — a table comes after another one, and in it the types of
  signatures and constraints are noted if they are before;
* `later_note`, `noted_note` — noting a type gives all instances in it the traits of today;
* `advances_bindMethod`, `advances_bindPart`, `advances_bind` — the second pass only advances;
* `instances_ofFiles` — nothing is noted in the first pass;
* `SymbolTable.Mentions`, `SymbolTable.AgreesWith` — what is reached in an assembly, and what a type has
  in common with a definition;
* `compile_agrees` — **after binding, every type that is reached in an assembly agrees with its definition,
  and each instance has traits of its own that do**.
-/

namespace ExtensionCensus

/-! ### Parts of a type -/

/-- The second type is the first, or stands in it: as a containing type, an argument, an element or a
target. -/
inductive Ty.Part : Ty → Ty → Prop where
  | self (t : Ty) : Ty.Part t t
  | outer {head : TypeHead} {t u : Ty} {args : List Ty} (h : Ty.Part t u) :
      Ty.Part (.named head (some t) args) u
  | argument {head : TypeHead} {outer : Option Ty} {args : List Ty} {t u : Ty} (ht : t ∈ args)
      (h : Ty.Part t u) : Ty.Part (.named head outer args) u
  | element {t u : Ty} {rank : Nat} (h : Ty.Part t u) : Ty.Part (.array t rank) u
  | target {t u : Ty} (h : Ty.Part t u) : Ty.Part (.pointer t) u

theorem Ty.eq_of_declaration? {t : Ty} {id : TypeId} (h : t.declaration? = some id) :
    ∃ outer args, t = .named (.declared id) outer args := by
  cases t with
  | named head outer args =>
    cases head with
    | declared other =>
      cases h
      exact ⟨outer, args, rfl⟩
    | unbound name => cases h
  | parameter p => cases h
  | array element rank => cases h
  | pointer target => cases h
  | dynamic => cases h
  | functionPointer signature => cases h

namespace SymbolTable

/-- The type is an instance that was given traits of its own. -/
def Recorded (table : SymbolTable) (t : Ty) : Prop :=
  ∃ traits, (t, traits) ∈ table.instances

/-- Every type in a type expression that has a declaration is what its definition stands for, or has
traits of its own. -/
def Noted (table : SymbolTable) (t : Ty) : Prop :=
  ∀ u id, t.Part u → u.declaration? = some id → u = table.definitionType id ∨ table.Recorded u

/-- The table `b` comes after `a`: it declares the same types with the same traits, no instance loses its
traits, and those that have some now have the ones that they start with. -/
structure Later (a b : SymbolTable) : Prop where
  shape : SameShape a b
  initial : ∀ t, b.initialTraits t = a.initialTraits t
  kept : ∀ e ∈ a.instances, e ∈ b.instances
  fresh : ∀ e ∈ b.instances, e ∈ a.instances ∨ e.2 = a.initialTraits e.1

section

variable {table a b c : SymbolTable}

theorem Later.refl (a : SymbolTable) : Later a a :=
  ⟨SameShape.refl a, fun _ => rfl, fun _ he => he, fun _ he => .inl he⟩

theorem Later.trans (h : Later a b) (h' : Later b c) : Later a c := by
  refine ⟨h.shape.trans h'.shape, fun t => (h'.initial t).trans (h.initial t),
    fun e he => h'.kept e (h.kept e he), fun e he => ?_⟩
  rcases h'.fresh e he with he | he
  · exact h.fresh e he
  · exact .inr (he.trans (h.initial e.1))

/-- A step that declares no type, changes no traits but the flag that instances do not have, and notes
nothing. -/
theorem later_of_shape (hs : SameShape a b)
    (ht : ∀ id, { (b.definition id).traits with mightHoldExtensions := false }
      = { (a.definition id).traits with mightHoldExtensions := false })
    (hi : b.instances = a.instances) : Later a b := by
  refine ⟨hs, fun t => ?_, fun e he => hi ▸ he, fun e he => .inl (hi ▸ he)⟩
  cases t with
  | named head outer args =>
    cases head with
    | declared id => exact ht id
    | unbound name => rfl
  | parameter p => rfl
  | array element rank => rfl
  | pointer target => rfl
  | dynamic => rfl
  | functionPointer signature => rfl

theorem traits_constrain (table : SymbolTable) (target : TypeParameterRef) (c : Constraint)
    (id : TypeId) : ((table.constrain target c).definition id).traits = (table.definition id).traits := by
  cases target with
  | ofType owner i =>
    rw [constrain, updateTypeParameter, definition_updateDefinition]
    split
    · next he => rw [he.1]
    · rfl
  | ofMethod owner i => rfl
  | free i => rfl

theorem Later.recorded (h : Later a b) {t : Ty} (ht : Recorded a t) : Recorded b t := by
  obtain ⟨traits, hmem⟩ := ht
  exact ⟨traits, h.kept _ hmem⟩

theorem Later.noted (h : Later a b) {t : Ty} (ht : Noted a t) : Noted b t := by
  intro u id hpart hu
  rcases ht u id hpart hu with rfl | hrecorded
  · exact .inl (h.shape.definitionType id).symm
  · exact .inr (h.recorded hrecorded)

/-! ### Noting a type -/

theorem later_noteOne (table : SymbolTable) (t : Ty) : Later table (table.noteOne t) := by
  rw [noteOne]
  split
  · exact .refl table
  · exact ⟨.of_definitions_eq rfl, fun u => by cases u <;> rfl, fun e he => List.mem_cons_of_mem _ he,
      fun e he => (List.mem_cons.mp he).elim (fun h => .inr (by rw [h])) .inl⟩

theorem recorded_noteOne (table : SymbolTable) {t : Ty} {id : TypeId} (ht : t.declaration? = some id) :
    t = table.definitionType id ∨ (table.noteOne t).Recorded t := by
  rw [noteOne]
  split
  · next hsome =>
    rcases Bool.or_eq_true_iff.mp hsome with hdefinition | hrecorded
    · have hdefinition := (Bool.and_eq_true_iff.mp hdefinition).1
      rw [isDefinition, ht] at hdefinition
      exact .inl (of_decide_eq_true hdefinition)
    · obtain ⟨traits, htraits⟩ := Option.isSome_iff_exists.mp hrecorded
      obtain ⟨front, back, hinstances, -⟩ := List.lookup_eq_some_iff.mp htraits
      refine .inr ⟨traits, ?_⟩
      rw [hinstances]
      exact List.mem_append_right _ List.mem_cons_self
  · exact .inr ⟨_, List.mem_cons_self⟩

mutual

theorem later_note : ∀ (t : Ty) (table : SymbolTable), Later table (table.note t)
  | .named head outer args, table => by
    rw [note]
    exact ((later_noteOuter outer table).trans (later_noteList args _)).trans (later_noteOne _ _)
  | .array element rank, table => by
    rw [note]
    exact later_note element table
  | .pointer target, table => by
    rw [note]
    exact later_note target table
  | .parameter p, table => by
    simp only [note]
    exact .refl table
  | .dynamic, table => by
    simp only [note]
    exact .refl table
  | .functionPointer signature, table => by
    simp only [note]
    exact .refl table

theorem later_noteOuter : ∀ (outer : Option Ty) (table : SymbolTable),
    Later table (table.noteOuter outer)
  | none, table => by
    rw [noteOuter]
    exact .refl table
  | some t, table => by
    rw [noteOuter]
    exact later_note t table

theorem later_noteList : ∀ (ts : List Ty) (table : SymbolTable), Later table (table.noteList ts)
  | [], table => by
    rw [noteList]
    exact .refl table
  | t :: ts, table => by
    rw [noteList]
    exact (later_note t table).trans (later_noteList ts _)

end

mutual

/-- **Noting a type gives every instance in it traits.** -/
theorem noted_note : ∀ (t : Ty) (table : SymbolTable), (table.note t).Noted t
  | .named head outer args, table => by
    have houter := later_noteOuter outer table
    have hargs := later_noteList args (table.noteOuter outer)
    have hone := later_noteOne ((table.noteOuter outer).noteList args) (.named head outer args)
    rw [note]
    intro u id hpart hu
    cases hpart with
    | self =>
      rw [(hone.shape.definitionType id)]
      exact recorded_noteOne _ hu
    | outer h => exact (hargs.trans hone).noted (noted_noteOuter _ table _ rfl) u id h hu
    | argument ht h => exact hone.noted (noted_noteList args _ _ ht) u id h hu
  | .array element rank, table => by
    rw [note]
    intro u id hpart hu
    cases hpart with
    | self => cases hu
    | element h => exact noted_note element table u id h hu
  | .pointer target, table => by
    rw [note]
    intro u id hpart hu
    cases hpart with
    | self => cases hu
    | target h => exact noted_note target table u id h hu
  | .parameter p, table => by
    intro u id hpart hu
    cases hpart
    cases hu
  | .dynamic, table => by
    intro u id hpart hu
    cases hpart
    cases hu
  | .functionPointer signature, table => by
    intro u id hpart hu
    cases hpart
    cases hu

theorem noted_noteOuter : ∀ (outer : Option Ty) (table : SymbolTable) (t : Ty), outer = some t →
    (table.noteOuter outer).Noted t
  | none, _, _, h => by cases h
  | some t, table, _, rfl => by
    rw [noteOuter]
    exact noted_note t table

theorem noted_noteList : ∀ (ts : List Ty) (table : SymbolTable), ∀ t ∈ ts, (table.noteList ts).Noted t
  | [], _, _, h => by cases h
  | t :: ts, table, u, h => by
    rw [noteList]
    rcases List.mem_cons.mp h with heq | h
    · rw [heq]
      exact (later_noteList ts _).noted (noted_note t table)
    · exact noted_noteList ts _ u h

end

end

end SymbolTable

namespace Binding.Outline

open SymbolTable (Later Noted SameShape)
open Source (TypeForm ReturnForm ParameterForm ConstraintForm ConstraintClause MethodForm
  ValueForm MemberForm)

/-! ### Steps of the second pass -/

theorem Sourced.mono {seen seen' : Ty → Prop} {table : SymbolTable} (h : Sourced seen table)
    (hseen : ∀ t, seen t → seen' t) : Sourced seen' table :=
  ⟨fun m t ht => hseen t (h.methods m t ht), fun v t ht => (h.values v t ht).imp_left (hseen t),
    fun id q hq t ht => hseen t (h.definitions id q hq t ht)⟩

/-- The table `b` comes after `a`, and if all types of signatures, values and constraints are noted in
`a`, they are in `b`. -/
structure Advances (a b : SymbolTable) : Prop extends Later a b where
  sourced : Sourced (Noted a) a → Sourced (Noted b) b

section

variable {a b c table : SymbolTable}

theorem Advances.refl (a : SymbolTable) : Advances a a :=
  ⟨.refl a, id⟩

theorem Advances.trans (h : Advances a b) (h' : Advances b c) : Advances a c :=
  ⟨h.toLater.trans h'.toLater, fun hs => h'.sourced (h.sourced hs)⟩

theorem advances_note (table : SymbolTable) (t : Ty) : Advances table (table.note t) :=
  ⟨SymbolTable.later_note t table,
    fun hs => (hs.note t).mono fun _ => (SymbolTable.later_note t table).noted⟩

theorem later_addMember (table : SymbolTable) (container : TypeId) {m : Member}
    (hm : SymbolTable.typesAmong [m] = []) : Later table (table.addMember container m) :=
  SymbolTable.later_of_shape (SymbolTable.sameShape_addMember container hm)
    (fun id => by rw [SymbolTable.traits_addMember]) rfl

theorem advances_addMember (table : SymbolTable) (container : TypeId) {m : Member}
    (hm : SymbolTable.typesAmong [m] = []) : Advances table (table.addMember container m) := by
  have hlater := later_addMember table container hm
  exact ⟨hlater, fun hs => (hs.addMember container m).mono fun _ => hlater.noted⟩

theorem advances_constrain (table : SymbolTable) (target : TypeParameterRef) {c : Constraint}
    (hc : ∀ t, c = .type t → Noted table t) : Advances table (table.constrain target c) := by
  have hlater : Later table (table.constrain target c) := by
    refine SymbolTable.later_of_shape (SymbolTable.sameShape_constrain target c) (fun id => ?_) ?_
    · rw [SymbolTable.traits_constrain]
    · cases target <;> rfl
  exact ⟨hlater, fun hs => (hs.constrain target hc).mono fun _ => hlater.noted⟩

theorem advances_addMethod (table : SymbolTable) {m : Method} (hm : m.types = []) :
    Advances table (table.addMethod m) := by
  have hlater : Later table (table.addMethod m) :=
    SymbolTable.later_of_shape (.of_definitions_eq rfl) (fun _ => rfl) rfl
  refine ⟨hlater, fun hs => (hs.addMethod fun t ht => ?_).mono fun _ => hlater.noted⟩
  rw [hm] at ht
  cases ht

theorem advances_updateMethod (table : SymbolTable) {id : MethodId} {f : Method → Method}
    (hf : ∀ t ∈ (f (table.method id)).types, t ∈ (table.method id).types ∨ Noted table t) :
    Advances table (table.updateMethod id f) := by
  have hlater : Later table (table.updateMethod id f) :=
    SymbolTable.later_of_shape (.of_definitions_eq rfl) (fun _ => rfl) rfl
  exact ⟨hlater, fun hs => (hs.updateMethod hf).mono fun _ => hlater.noted⟩

theorem advances_addValue (table : SymbolTable) {v : ValueMember}
    (hv : ∀ t, v.type = some t → Noted table t ∨ v.container = some t) :
    Advances table (table.addValue v) := by
  have hlater : Later table (table.addValue v) :=
    SymbolTable.later_of_shape (.of_definitions_eq rfl) (fun _ => rfl) rfl
  exact ⟨hlater, fun hs => (hs.addValue hv).mono fun _ => hlater.noted⟩

end

section

variable {o o' : Outline} {ctx : Context} {container : TypeId}

/-! ### Signatures -/

theorem advances_bindType {form : Option TypeForm} {t : Ty} (h : o.bindType ctx form = .ok (o', t)) :
    Advances o.table o'.table ∧ Noted o'.table t := by
  obtain ⟨-, rfl⟩ := bindType_ok h
  exact ⟨advances_note o.table t, SymbolTable.noted_note t o.table⟩

theorem advances_bindConstraint {form : ConstraintForm} {c : Constraint}
    (h : o.bindConstraint ctx form = .ok (o', c)) :
    Advances o.table o'.table ∧ ∀ t, c = .type t → Noted o'.table t := by
  rcases bindConstraint_ok h with ⟨word, rfl, rfl⟩ | ⟨written, t, rfl, ht⟩
  · exact ⟨.refl _, fun t ht => by cases ht⟩
  · obtain ⟨hadvances, hnoted⟩ := advances_bindType ht
    exact ⟨hadvances, fun u hu => Constraint.type.inj hu ▸ hnoted⟩

theorem advances_bindConstraintList {target : TypeParameterRef} {forms : List ConstraintForm}
    (h : o.bindConstraintList ctx target forms = .ok o') : Advances o.table o'.table := by
  induction forms generalizing o with
  | nil =>
    cases h
    exact .refl _
  | cons form rest ih =>
    rw [bindConstraintList] at h
    split at h
    · cases h
    · next bound c hbound =>
      obtain ⟨hadvances, hnoted⟩ := advances_bindConstraint hbound
      exact (hadvances.trans (advances_constrain bound.table target hnoted)).trans (ih h)

theorem advances_bindClauses {ps : List TypeParameterRef} {clauses : List ConstraintClause}
    (h : o.bindClauses ctx ps clauses = .ok o') : Advances o.table o'.table := by
  induction clauses generalizing o with
  | nil =>
    cases h
    exact .refl _
  | cons clause rest ih =>
    rw [bindClauses] at h
    split at h
    · exact ih h
    · split at h
      · split at h
        · cases h
        · next hbound => exact (advances_bindConstraintList hbound).trans (ih h)
      · exact ih h

theorem advances_bindReturn {form : Option ReturnForm} {returnType : Option Ty} {isNullable : Bool}
    {byRef : Option String} (h : o.bindReturn ctx form = .ok (o', returnType, isNullable, byRef)) :
    Advances o.table o'.table ∧ ∀ t, returnType = some t → Noted o'.table t := by
  rcases bindReturn_ok h with ⟨rfl, rfl⟩ | ⟨written, t, rfl, ht⟩
  · exact ⟨.refl _, fun t ht => by cases ht⟩
  · obtain ⟨hadvances, hnoted⟩ := advances_bindType ht
    exact ⟨hadvances, fun u hu => Option.some.inj hu ▸ hnoted⟩

theorem advances_bindParameters {forms : List ParameterForm} {ps : List Parameter}
    (h : o.bindParameters ctx forms = .ok (o', ps)) :
    Advances o.table o'.table ∧ ∀ p ∈ ps, Noted o'.table p.type := by
  induction forms generalizing o ps with
  | nil =>
    cases h
    exact ⟨.refl _, fun p hp => by cases hp⟩
  | cons form rest ih =>
    obtain ⟨bound, first, others, hfirst, hothers, rfl⟩ := bindParameters_cons_ok h
    obtain ⟨t, ht, he⟩ := bindParameter_ok hfirst
    obtain ⟨hadvances, hnoted⟩ := advances_bindType ht
    obtain ⟨hrest, htypes⟩ := ih hothers
    refine ⟨hadvances.trans hrest, List.forall_mem_cons.mpr ⟨?_, htypes⟩⟩
    rw [he]
    exact hrest.noted hnoted

/-! ### Members -/

/-- **Binding a method notes all types in its signature.** -/
theorem advances_bindMethod {m : MethodForm} (h : o.bindMethod ctx container m = .ok o') :
    Advances o.table o'.table ∧
      ∀ p ∈ (o'.table.method o.table.nextMethod).parameters, Noted o'.table p.type := by
  obtain ⟨clausesBound, returnBound, parametersBound, returnType, isNullable, byRef, parameters,
    steps⟩ := bindMethod_ok h
  have hbegun : Advances o.table (o.beginMethod container m).table :=
    advances_addMethod o.table (types_bareMethod o.table container m)
  have hclauses := advances_bindClauses steps.clauses
  obtain ⟨hreturn, hreturned⟩ := advances_bindReturn steps.returns
  obtain ⟨hparameters, htypes⟩ := advances_bindParameters steps.signature
  have hattached : ∀ p ∈ attached o.table.nextMethod parameters, Noted parametersBound.table p.type := by
    intro p hp
    obtain ⟨q, hq, htype⟩ := type_of_mem_attached hp
    exact htype ▸ htypes q hq
  have hcomplete : Advances parametersBound.table o'.table := by
    rw [steps.complete, completeMethod]
    refine (advances_updateMethod parametersBound.table fun t ht => ?_).trans
      (advances_addMember _ container rfl)
    rcases Method.mem_types_iff.mp ht with hret | ⟨p, hp, rfl⟩ | hconstraint
    · exact .inr (hparameters.noted (hreturned t hret))
    · exact .inr (hattached p hp)
    · exact .inl (Method.mem_types_iff.mpr (.inr (.inr hconstraint)))
  refine ⟨((hbegun.trans hclauses).trans (hreturn.trans hparameters)).trans hcomplete, fun p hp => ?_⟩
  obtain ⟨bound, -, hmethod⟩ := steps.method
  rw [hmethod] at hp
  exact hcomplete.noted (hattached p hp)

theorem advances_foldl_addValue {α : Type} {f : Outline → α → ValueMember} {as : List α}
    (hf : ∀ a ∈ as, ∀ b : Outline, Later o.table b.table → ∀ t, (f b a).type = some t →
      Noted b.table t ∨ (f b a).container = some t) :
    Advances o.table (as.foldl (fun o a => o.addValue container (f o a)) o).table := by
  induction as generalizing o with
  | nil => exact .refl _
  | cons a rest ih =>
    have hadded : Advances o.table (o.addValue container (f o a)).table :=
      (advances_addValue o.table (hf a List.mem_cons_self o (.refl _))).trans
        (advances_addMember _ container rfl)
    exact hadded.trans (ih fun other hother b hb =>
      hf other (List.mem_cons_of_mem a hother) b (hadded.toLater.trans hb))

theorem advances_bindValues {v : ValueForm} (h : o.bindValues ctx container v = .ok o') :
    Advances o.table o'.table := by
  obtain ⟨⟨bound, t⟩, hbound, rfl⟩ := ok_of_map h
  obtain ⟨hadvances, hnoted⟩ := advances_bindType hbound
  refine hadvances.trans (advances_foldl_addValue fun name _ b hb u hu => .inl ?_)
  cases hu
  exact hb.noted hnoted

theorem advances_bindPrimaryConstructor {part : DeclaredPart}
    (h : o.bindPrimaryConstructor ctx part = .ok o') : Advances o.table o'.table := by
  rw [bindPrimaryConstructor] at h
  split at h
  · obtain ⟨made, hmade, rfl⟩ := ok_of_map h
    obtain ⟨hadvances, hparameters⟩ := advances_bindMethod hmade
    split
    · refine hadvances.trans (advances_foldl_addValue fun p hp b hb t ht => .inl ?_)
      cases ht
      exact hb.noted (hparameters p hp)
    · exact hadvances
  · cases h
    exact .refl _

theorem advances_bindMembers {members : List MemberForm}
    (h : o.bindMembers ctx container members = .ok o') : Advances o.table o'.table := by
  induction members generalizing o with
  | nil =>
    cases h
    exact .refl _
  | cons form rest ih =>
    obtain ⟨bound, hbound, hrest⟩ := bindMembers_cons_ok h
    refine Advances.trans ?_ (ih hrest)
    cases form with
    | method m => exact (advances_bindMethod hbound).1
    | values v => exact advances_bindValues hbound

/-! ### Parts and whole types -/

theorem advances_bindPart {part : DeclaredPart} (h : o.bindPart part = .ok o') :
    Advances o.table o'.table := by
  obtain ⟨clausesBound, hclauses, hrest⟩ := bindPart_ok h
  refine (advances_bindClauses hclauses).trans ?_
  rcases hrest with ⟨-, hinvoke⟩ | ⟨-, rfl⟩ | ⟨-, -, constructed, hconstructed, hmembers⟩
  · exact (advances_bindMethod hinvoke).1
  · refine advances_foldl_addValue fun name _ b _ t ht => .inr ?_
    cases ht
    rfl
  · exact (advances_bindPrimaryConstructor hconstructed).trans (advances_bindMembers hmembers)

theorem advances_bindParts {parts : List DeclaredPart} (h : o.bindParts parts = .ok o') :
    Advances o.table o'.table := by
  induction parts generalizing o with
  | nil =>
    cases h
    exact .refl _
  | cons part rest ih =>
    rw [bindParts] at h
    split at h
    · cases h
    · next hbound => exact (advances_bindPart hbound).trans (ih h)

theorem advances_addImplicit (o : Outline) (id : TypeId) :
    Advances o.table (o.addImplicit id).table := by
  rw [addImplicit_eq]
  cases implicitConstructor? o.table id with
  | none => exact .refl _
  | some access =>
    exact (advances_addMethod o.table (m := implicitMethod o.table id access) rfl).trans
      (advances_addMember _ id rfl)

/-- The flag says nothing of instances, which never have it. -/
theorem advances_flag (table : SymbolTable) (id : TypeId) (might : Bool) :
    Advances table (table.updateDefinition id fun d =>
      { d with traits := { d.traits with mightHoldExtensions := might } }) := by
  have hlater := SymbolTable.later_of_shape
    (b := table.updateDefinition id fun d =>
      { d with traits := { d.traits with mightHoldExtensions := might } })
    (SymbolTable.sameShape_updateDefinition id ⟨rfl, rfl, rfl, rfl⟩ rfl)
    (fun other => by
      rw [SymbolTable.definition_updateDefinition]
      split
      · next he => rw [he.1]
      · rfl) rfl
  refine ⟨hlater, fun hs => Sourced.mono (hs.congr rfl rfl fun other => ?_) fun _ => hlater.noted⟩
  exact typeParameters_flag table id other might

theorem advances_finish (o : Outline) (id : TypeId) : Advances o.table (o.finish id).table :=
  (advances_addImplicit o id).trans (advances_flag _ id _)

theorem advances_foldl_finish (ids : List TypeId) (o : Outline) :
    Advances o.table (ids.foldl finish o).table := by
  induction ids generalizing o with
  | nil => exact .refl _
  | cons id rest ih => exact (advances_finish o id).trans (ih _)

/-- **The second pass only advances.** -/
theorem advances_bind (h : o.bind = .ok o') : Advances o.table o'.table := by
  obtain ⟨bound, hbound, rfl⟩ := ok_of_map h
  exact (advances_bindParts hbound).trans (advances_foldl_finish _ bound)

end

/-! ### The first pass -/

/-- **The first pass notes nothing.** -/
theorem Reaches.instances {a b : Outline} (hr : Reaches a b) :
    b.table.instances = a.table.instances := by
  induction hr with
  | start => rfl
  | rescoped _ hc ih => rw [hc.table, ih]
  | opened _ name ih => exact ih
  | @part b _ chain enclosing _ d ih =>
    rw [← ih, addPart]
    have hdeclares := declarePart_declares b chain enclosing d
    generalize b.declarePart chain enclosing d = declared at hdeclares ⊢
    cases hdeclares <;> rfl

theorem instances_ofFiles (implicitUsings : Bool) (files : List (Text.Bytes × Source.Node)) :
    (ofFiles implicitUsings files).table.instances = [] := by
  have hlibrary : Library.table.instances = [] :=
    Library.draft_induction (P := fun d => d.table.instances = []) rfl fun _ _ _ _ _ _ h => h
  exact (Reaches.instances declares_ofFiles.reaches).trans hlibrary

end Binding.Outline

/-! ### What is reached in an assembly -/

namespace SymbolTable

/-- The type is written in the table: in a signature, as the type of a value, as a constraint, or as the
containing type of something declared. -/
inductive Mentions (table : SymbolTable) : Ty → Prop where
  | signature (m : MethodId) {t : Ty} (ht : t ∈ (table.method m).types) : Mentions table t
  | value (v : ValueId) {t : Ty} (ht : (table.value v).type = some t) : Mentions table t
  | constraint (id : TypeId) {q : TypeParameter} {t : Ty}
      (hq : q ∈ (table.definition id).typeParameters) (ht : t ∈ q.constraintTypes) : Mentions table t
  | methodContainer (m : MethodId) {t : Ty} (ht : (table.method m).container = some t) :
      Mentions table t
  | valueContainer (v : ValueId) {t : Ty} (ht : (table.value v).container = some t) : Mentions table t
  | outer (id : TypeId) {t : Ty} (ht : (table.definition id).container = .type t) : Mentions table t

/-- A type says the same as the definition that it is an instance of. -/
structure AgreesWith (table : SymbolTable) (t : Ty) (id : TypeId) : Prop where
  kind : table.kind t = .declared (table.definition id).kind
  isValueType : table.isValueType t = (table.definition id).kind.isValue
  access : (table.traits t).access = (table.definition id).traits.access
  isStatic : (table.traits t).isStatic = (table.definition id).traits.isStatic
  isAbstract : (table.traits t).isAbstract = (table.definition id).traits.isAbstract

variable {table a b : SymbolTable}

/-- What a definition stands for is made of what definitions stand for. -/
theorem Nests.noted_definitionType (h : Nests table) (id : TypeId) :
    Noted table (table.definitionType id) := by
  intro u other hpart hu
  rw [definitionType] at hpart
  generalize houter : table.lexicalOuter id = outer at hpart
  generalize hargs : (table.typeParametersOf id).map Ty.parameter = args at hpart
  cases hpart with
  | self =>
    cases hu
    rw [← houter, ← hargs]
    exact .inl rfl
  | @outer _ t _ _ hpart =>
    by_cases hid : id.index < table.definitions.size
    · rcases h id hid with ⟨path, hpath⟩ | ⟨around, hlt, haround⟩
      · rw [lexicalOuter, hpath] at houter
        cases houter
      · rw [lexicalOuter, haround] at houter
        cases houter
        exact h.noted_definitionType around u other hpart hu
    · rw [lexicalOuter, definition_of_size_le (Nat.le_of_not_lt hid)] at houter
      cases houter
  | argument ht hpart =>
    rw [← hargs] at ht
    obtain ⟨p, -, rfl⟩ := List.mem_map.mp ht
    cases hpart
    cases hu
termination_by id.index

theorem lookup_of_recorded {t : Ty} (h : table.Recorded t) :
    ∃ copy, (t, copy) ∈ table.instances ∧ table.instances.lookup t = some copy := by
  obtain ⟨traits, hmem⟩ := h
  cases hlookup : table.instances.lookup t with
  | none => exact absurd (List.lookup_eq_none_iff.mp hlookup (t, traits) hmem) (by simp)
  | some copy =>
    obtain ⟨front, back, hinstances, -⟩ := List.lookup_eq_some_iff.mp hlookup
    refine ⟨copy, ?_, rfl⟩
    rw [hinstances]
    exact List.mem_append_right _ List.mem_cons_self

/-- **An instance that arose when no more parts were to come agrees with its definition**, by traits of
its own. -/
theorem Later.agreesWith (h : Later a b) (ha : a.instances = []) {t : Ty} {id : TypeId}
    (hid : t.declaration? = some id) (hnoted : t = b.definitionType id ∨ b.Recorded t) :
    b.AgreesWith t id ∧
      (t = b.definitionType id ∨ b.instances.lookup t = some (b.traits t)) := by
  obtain ⟨outer, args, rfl⟩ := Ty.eq_of_declaration? hid
  by_cases hdefinition : Ty.named (.declared id) outer args = b.definitionType id
  · have htraits : b.traits (.named (.declared id) outer args) = (b.definition id).traits := by
      rw [traits, hid]
      exact if_pos hdefinition
    refine ⟨⟨rfl, rfl, ?_, ?_, ?_⟩, .inl hdefinition⟩ <;> rw [htraits]
  · obtain ⟨copy, hmem, hlookup⟩ := lookup_of_recorded (hnoted.resolve_left hdefinition)
    -- the copy was made in a table that knew all parts already
    have hcopy : copy = { (b.definition id).traits with mightHoldExtensions := false } := by
      rcases h.fresh _ hmem with hold | hfresh
      · rw [ha] at hold
        cases hold
      · exact hfresh.trans (h.initial _).symm
    have htraits : b.traits (.named (.declared id) outer args) = copy := by
      rw [traits, hid]
      refine (if_neg hdefinition).trans ?_
      rw [hlookup]
      rfl
    refine ⟨⟨rfl, rfl, ?_, ?_, ?_⟩, .inr (hlookup.trans (congrArg some htraits.symm))⟩ <;>
      rw [htraits, hcopy]

theorem Scoped.method_container (h : Scoped table) {m : MethodId} {t : Ty}
    (ht : (table.method m).container = some t) : ∃ owner, t = table.definitionType owner := by
  by_cases hm : m.index < table.methods.size
  · obtain ⟨owner, howner, -⟩ := h.methods m hm
    exact ⟨owner, Option.some.inj (ht.symm.trans howner)⟩
  · rw [method, Array.getElem?_eq_none (Nat.le_of_not_lt hm)] at ht
    cases ht

theorem Scoped.value_container (h : Scoped table) {v : ValueId} {t : Ty}
    (ht : (table.value v).container = some t) : ∃ owner, t = table.definitionType owner := by
  by_cases hv : v.index < table.values.size
  · obtain ⟨owner, howner, -⟩ := h.values v hv
    exact ⟨owner, Option.some.inj (ht.symm.trans howner)⟩
  · rw [value, Array.getElem?_eq_none (Nat.le_of_not_lt hv)] at ht
    cases ht

theorem Nests.outer (h : Nests table) {id : TypeId} {t : Ty}
    (ht : (table.definition id).container = .type t) : ∃ owner, t = table.definitionType owner := by
  by_cases hid : id.index < table.definitions.size
  · rcases h id hid with ⟨path, hpath⟩ | ⟨owner, -, howner⟩
    · rw [hpath] at ht
      cases ht
    · exact ⟨owner, Container.type.inj (ht.symm.trans howner)⟩
  · rw [definition_of_size_le (Nat.le_of_not_lt hid)] at ht
    cases ht

/-- In a table whose signatures and constraints are noted, everything that is reached is. -/
theorem Mentions.noted {t : Ty} (h : table.Mentions t)
    (hsourced : Binding.Outline.Sourced (Noted table) table) (hscoped : Scoped table)
    (hnests : Nests table) : Noted table t := by
  have hdefinition : (∃ owner, t = table.definitionType owner) → Noted table t := by
    rintro ⟨owner, rfl⟩
    exact hnests.noted_definitionType owner
  cases h with
  | signature m ht => exact hsourced.methods m t ht
  | value v ht =>
    exact (hsourced.values v t ht).elim id fun hown => hdefinition (hscoped.value_container hown)
  | constraint id hq ht => exact hsourced.definitions id _ hq t ht
  | methodContainer m ht => exact hdefinition (hscoped.method_container ht)
  | valueContainer v ht => exact hdefinition (hscoped.value_container ht)
  | outer id ht => exact hdefinition (hnests.outer ht)

end SymbolTable

namespace Binding

open Source (namedLeaf namedNode bytesOf)

/-- **After binding, every type that is reached in an assembly agrees with its definition**: in its kind,
in its accessibility and in whether it is static or abstract. What is not the definition itself says so by
traits of its own, which it was given when it arose. -/
theorem compile_agrees {identity : AssemblyIdentity} {implicitUsings : Bool}
    {files : List (Text.Bytes × Source.Node)} {a : Assembly}
    (h : compile identity implicitUsings files = .ok a) {t u : Ty} {id : TypeId}
    (ht : a.table.Mentions t) (hu : t.Part u) (hid : u.declaration? = some id) :
    a.table.AgreesWith u id ∧
      (u = a.table.definitionType id ∨ a.table.instances.lookup u = some (a.table.traits u)) := by
  rw [compile_eq] at h
  obtain ⟨o', hbind, rfl⟩ := ok_of_map (ok_of_mapError h)
  have houtlined := @Outline.outlined_ofFiles implicitUsings files
  have hadvances := Outline.advances_bind hbind
  have hsourced := hadvances.sourced (Outline.sourced_of_bare houtlined.bare)
  have hscoped :=
    Outline.scoped_bind houtlined.toWellFormed (Outline.scoped_of_bare houtlined.bare) hbind
  have hnests := (@Outline.nests_ofFiles implicitUsings files).of_agrees hadvances.shape.keeps
    hadvances.shape.size
  exact hadvances.toLater.agreesWith (Outline.instances_ofFiles implicitUsings files) hid
    (ht.noted hsourced hscoped hnests u id hu hid)

/-- A generic class, not public and not abstract by this part, and a method that has an instance of it
as a parameter. -/
def earlierPart : Text.Bytes × Source.Node :=
  (bytesOf "class U{void F(B<int> b){}}partial class B<T>{}",
    namedNode "compilation_unit" 0 47 "" [
      namedNode "class_declaration" 0 27 "" [
        namedLeaf "identifier" 6 7 "name",
        namedNode "declaration_list" 7 27 "body" [
          namedNode "method_declaration" 8 26 "" [
            namedLeaf "predefined_type" 8 12 "returns",
            namedLeaf "identifier" 13 14 "name",
            namedNode "parameter_list" 14 24 "parameters" [
              namedNode "parameter" 15 23 "" [
                namedNode "generic_name" 15 21 "type" [
                  namedLeaf "identifier" 15 16 "",
                  namedNode "type_argument_list" 16 21 "" [
                    namedLeaf "predefined_type" 17 20 ""]],
                namedLeaf "identifier" 22 23 "name"]]]]],
      namedNode "class_declaration" 27 47 "" [
        namedLeaf "modifier" 27 34 "",
        namedLeaf "identifier" 41 42 "name",
        namedNode "type_parameter_list" 42 45 "" [
          namedNode "type_parameter" 43 44 "" [namedLeaf "identifier" 43 44 "name"]],
        namedNode "declaration_list" 45 47 "body" []]])

/-- The part that makes the class public and abstract. -/
def laterPart : Text.Bytes × Source.Node :=
  (bytesOf "public abstract partial class B<T>{}",
    namedNode "compilation_unit" 0 36 "" [
      namedNode "class_declaration" 0 36 "" [
        namedLeaf "modifier" 0 6 "",
        namedLeaf "modifier" 7 15 "",
        namedLeaf "modifier" 16 23 "",
        namedLeaf "identifier" 30 31 "name",
        namedNode "type_parameter_list" 31 34 "" [
          namedNode "type_parameter" 32 33 "" [namedLeaf "identifier" 32 33 "name"]],
        namedNode "declaration_list" 34 36 "body" []]])

/-- The instance in the signature is public and abstract, as its definition came to be by a part that
stands behind the signature. -/
theorem splitGeneric_agrees :
    ∃ a t id, compile ⟨"U", "1.0.0.0", "neutral", none⟩ true [earlierPart, laterPart] = .ok a ∧
      a.table.Mentions t ∧ t.declaration? = some id ∧ t ≠ a.table.definitionType id ∧
      (a.table.traits t).access = .publicAccess ∧ (a.table.traits t).isAbstract = true := by
  have hfacts : (compile ⟨"U", "1.0.0.0", "neutral", none⟩ true
      [earlierPart, laterPart]).toOption.bind (fun a => (a.table.method ⟨0⟩).types[1]?.bind fun t =>
        t.declaration?.map fun id => (decide (t = a.table.definitionType id),
          (a.table.definition id).traits.access, (a.table.definition id).traits.isAbstract))
      = some (false, .publicAccess, true) := by
    decide +kernel
  cases ha : compile ⟨"U", "1.0.0.0", "neutral", none⟩ true [earlierPart, laterPart] with
  | error e =>
    rw [ha] at hfacts
    cases hfacts
  | ok a =>
    simp only [ha, Except.toOption, Option.bind_some] at hfacts
    obtain ⟨t, ht, hrest⟩ := Option.bind_eq_some_iff.mp hfacts
    obtain ⟨id, hid, htraits⟩ := Option.map_eq_some_iff.mp hrest
    simp only [Prod.mk.injEq, decide_eq_false_iff_not] at htraits
    obtain ⟨hinstance, haccess, habstract⟩ := htraits
    have hmentions : a.table.Mentions t := .signature ⟨0⟩ (List.mem_of_getElem? ht)
    obtain ⟨hagrees, -⟩ := compile_agrees ha hmentions (.self t) hid
    exact ⟨a, t, id, rfl, hmentions, hid, hinstance, hagrees.access.trans haccess,
      hagrees.isAbstract.trans habstract⟩

end Binding

end ExtensionCensus
