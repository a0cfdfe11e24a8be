import ExtensionCensus.Proofs.Binding.Complete
import ExtensionCensus.Proofs.Binding.WellScoped

/-!
# Binding fails only where an operand is missing

* `Settled` — there is a failure only for the want of an operand, and none under a condition;
* `construct_ok`, `descend_ok`, `lookupPath_ok`, … — instances are made over as many arguments as
  their definitions ask for, so that no name, tuple or wrapped type fails;
* `settled_resolveWith`, `settled_resolveAlias`, `settled_bindType` — written types;
* `settled_bindMethod`, `settled_bindPart`, `settled_bind` — the second pass;
* `compile_total` — **trees that lack no operand are compiled, and others fail for no other reason**.
-/

namespace ExtensionCensus.Binding

open Source (TypeForm NamePart ReturnForm ParameterForm ConstraintForm ConstraintClause MethodForm
  MemberForm CompleteIfWritten)

/-! ### Failures -/

/-- There is a failure only for the want of an operand, and none if `complete` holds. -/
def Settled {α : Type} (complete : Prop) (x : Except BindError α) : Prop :=
  ∀ e, x = .error e → e = .missingOperand ∧ ¬complete

section

variable {α β : Type} {complete more : Prop} {x : Except BindError α}

theorem Settled.ok (a : α) : Settled complete (.ok a : Except BindError α) := by
  intro e he
  cases he

theorem Settled.of_ok (h : ∃ a, x = .ok a) : Settled complete x := by
  obtain ⟨a, rfl⟩ := h
  exact .ok a

theorem Settled.mono (h : Settled complete x) (himp : more → complete) : Settled more x :=
  fun e he => ⟨(h e he).1, fun hmore => (h e he).2 (himp hmore)⟩

theorem Settled.map (h : Settled complete x) (f : α → β) : Settled complete (x.map f) := by
  intro e he
  cases x with
  | error e' =>
    cases he
    exact h e rfl
  | ok a => cases he

/-- A failure that is passed on. -/
theorem Settled.error {e : BindError} (h : Settled complete x) (he : x = .error e) :
    Settled complete (.error e : Except BindError β) := by
  intro e' he'
  cases he'
  exact h e he

end

namespace Outline

section

variable {o o' : Outline}

/-! ### Instances -/

/-- A definition has an instance over as many arguments as it has type parameters. -/
theorem construct_ok {id : TypeId} {args : List Ty} (ha : o.table.arity id = args.length)
    (outer : Option Ty) :
    ∃ t, o.table.construct (o.table.definitionType id) args outer = .ok t := by
  rw [SymbolTable.definitionType]
  simp only [SymbolTable.construct, ha, ↓reduceIte]
  exact ⟨_, rfl⟩

theorem apply_ok {t : Ty} {args : List Ty}
    (ht : args.length ≠ 0 → ∃ id, t = o.table.definitionType id ∧ o.table.arity id = args.length) :
    ∃ u, o.apply t args = .ok u := by
  cases args with
  | nil => exact ⟨t, rfl⟩
  | cons a rest =>
    obtain ⟨id, rfl, ha⟩ := ht (by simp)
    obtain ⟨u, hu⟩ := construct_ok ha none
    refine ⟨u, ?_⟩
    rw [apply, hu]
    rfl

/-- A nested type is found under its number of type parameters. -/
theorem arity_of_nestedType? {outer id : TypeId} {key : TypeKey}
    (h : o.table.nestedType? outer key = some id) : o.table.arity id = key.arity := by
  have hkey := List.find?_some h
  simp only [decide_eq_true_eq] at hkey
  exact congrArg TypeKey.arity hkey

/-- Going down nested types never fails. -/
theorem descend_ok (current : Ty) (parts : List BoundPart) :
    ∃ found, o.descend current parts = .ok found := by
  induction parts generalizing current with
  | nil => exact ⟨_, rfl⟩
  | cons part rest ih =>
    obtain ⟨name, args⟩ := part
    rw [descend]
    split
    · exact ⟨_, rfl⟩
    · next id hid =>
      obtain ⟨declaration, -, hnested⟩ := Option.bind_eq_some_iff.mp hid
      obtain ⟨t, ht⟩ := construct_ok (arity_of_nestedType? hnested) (some current)
      simp only [ht]
      exact ih t

theorem firstFound_ok {α : Type} {f : α → Except BindError (Option Ty)} {as : List α}
    (hf : ∀ a, ∃ found, f a = .ok found) : ∃ found, firstFound f as = .ok found := by
  induction as with
  | nil => exact ⟨_, rfl⟩
  | cons a rest ih =>
    rw [firstFound]
    split
    · exact ih
    · exact hf a

/-- Looking for a type below some namespaces never fails. -/
theorem lookupPath_ok (hl : o.Lookups) (rooted : Bool) (tops : List String)
    (parts : List BoundPart) : ∃ found, o.lookupPath rooted tops parts = .ok found := by
  refine firstFound_ok fun top => firstFound_ok fun split => ?_
  obtain ⟨front, ⟨name, args⟩, rest⟩ := split
  rw [lookupSplit]
  split
  · exact ⟨_, rfl⟩
  · generalize ".".intercalate ((if top = "" then [] else [top]) ++ front.map (·.1)) = spaceName
    simp only
    split
    · exact ⟨_, rfl⟩
    · split
      · exact ⟨_, rfl⟩
      · next id hid =>
        obtain ⟨head, hhead⟩ := apply_ok fun _ => ⟨id, rfl, (typeIn?_spec hl hid).2.2⟩
        simp only [hhead]
        exact descend_ok head rest

theorem nullableOf_ok (hl : o.Lookups) (t : Ty) : ∃ u, o.nullableOf t = .ok u := by
  rw [nullableOf]
  split
  · split
    · next id hid =>
      rw [Library.nullable?] at hid
      have harity : o.table.arity id = [t].length := (hl.library _ _ _ hid).2.2
      obtain ⟨u, hu⟩ := construct_ok harity none
      rw [hu]
      exact ⟨u, rfl⟩
    · exact ⟨t, rfl⟩
  · exact ⟨t, rfl⟩

theorem tupleOf_ok (hl : o.Lookups) (elements : List Ty) (written : String) :
    ∃ u, o.tupleOf elements written = .ok u := by
  rw [tupleOf_eq]
  cases hid : Library.valueTuple? elements.length with
  | none => exact ⟨_, rfl⟩
  | some id =>
    simp only
    split
    · exact ⟨_, rfl⟩
    · have harity := (hl.library "System" ⟨"ValueTuple", elements.length⟩ id hid).2.2
      obtain ⟨u, hu⟩ := construct_ok harity none
      rw [hu]
      exact ⟨u, rfl⟩

/-! ### Names -/

section

variable {complete : Prop} {meaning : AliasMeaning}

theorem settled_lookupInScopes {name : String} {arity : Nat}
    (hm : ∀ id isFile a, o.alias? id isFile name = some a → Settled complete (meaning a))
    (chain : ScopeChain) : Settled complete (o.lookupInScopes meaning name arity chain) := by
  induction chain with
  | nil => exact .ok none
  | cons id outer ih =>
    rw [lookupInScopes]
    split
    · exact .ok _
    · simp only
      split
      · next e he =>
        -- only what a using directive gives the name to can fail
        split at he
        · next a ha =>
          have halias : o.alias? id outer.isEmpty name = some a := by
            split at ha
            · exact ha
            · cases ha
          exact (hm id outer.isEmpty a halias).error he
        · cases he
      · exact .ok _
      · split
        · exact .ok _
        · exact ih

theorem settled_lookupSimple {name : String}
    (hm : ∀ id isFile a, o.alias? id isFile name = some a → Settled complete (meaning a))
    (ctx : Context) (arity : Nat) : Settled complete (o.lookupSimple meaning ctx name arity) := by
  rw [lookupSimple]
  split
  · exact .ok _
  · split
    · exact .ok _
    · split
      · next e he => exact (settled_lookupInScopes hm ctx.scopes).error he
      · exact .ok _
      · exact .ok _

/-- A name leads to a definition of the arity that was asked for, if any arguments are written. -/
theorem head_of_lookupSimple (hl : o.Lookups) {ctx : Context} {name : String} {arity : Nat} {t : Ty}
    (h : o.lookupSimple meaning ctx name arity = .ok (some t)) (hne : arity ≠ 0) :
    ∃ id, t = o.table.definitionType id ∧ o.table.arity id = arity := by
  have hany : o.Hereditary fun _ => True :=
    ⟨fun _ _ _ _ _ => trivial, fun _ _ _ _ _ _ _ _ => trivial, fun _ _ _ => trivial,
      fun _ _ => trivial, fun _ => trivial, trivial⟩
  have hheads := lookupSimple_headHas hl hany (fun _ _ _ => trivial)
    ⟨fun _ _ => trivial, fun _ _ => trivial⟩ h
  obtain ⟨id, ht, -, ha, -⟩ := hheads.2 hne
  exact ⟨id, ht, ha⟩

theorem settled_lookupQualified (hl : o.Lookups)
    (hm : ∀ id isFile name a, o.alias? id isFile name = some a → Settled complete (meaning a))
    (ctx : Context) (first : BoundPart) (rest : List BoundPart) :
    Settled complete (o.lookupQualified meaning ctx first rest) := by
  obtain ⟨name, args⟩ := first
  rw [lookupQualified]
  split
  · split
    · exact .of_ok (lookupPath_ok hl _ _ _)
    · exact .ok _
  · split
    · next e he =>
      exact (settled_lookupSimple (fun id isFile a => hm id isFile name a) _ _).error he
    · next found hfound =>
      split
      · next head hhead =>
        have hsome : found = some head := (Option.filter_eq_some_iff.mp hhead).1
        rw [hsome] at hfound
        obtain ⟨u, hu⟩ := apply_ok fun hne => head_of_lookupSimple hl hfound hne
        simp only [hu]
        exact .of_ok (descend_ok u rest)
      · split
        · exact .of_ok (lookupPath_ok hl _ _ _)
        · exact .ok _

theorem settled_bindName (hl : o.Lookups)
    (hm : ∀ id isFile name a, o.alias? id isFile name = some a → Settled complete (meaning a))
    (ctx : Context) (parts : List BoundPart) : Settled complete (o.bindName meaning ctx parts) := by
  unfold bindName
  simp only
  split
  · next e he =>
    split at he
    · cases he
    · next name args =>
      have hsimple := settled_lookupSimple (fun id isFile a => hm id isFile name a) ctx args.length
      split at he
      · next t ht =>
        split at he
        · obtain ⟨u, hu⟩ := apply_ok fun hne => head_of_lookupSimple hl ht hne
          rw [hu] at he
          cases he
        · cases he
      · exact hsimple.error he
    · exact (settled_lookupQualified hl hm ctx _ _).error he
  · exact .ok _
  · split
    · exact .ok _
    · exact .ok _

/-! ### Written types -/

mutual

/-- A written type fails only for the want of an operand, its own or that of a name in it. -/
theorem settled_resolveWith (hl : o.Lookups)
    (hm : ∀ id isFile name a, o.alias? id isFile name = some a → Settled complete (meaning a))
    (ctx : Context) : ∀ form : TypeForm,
    Settled (complete ∧ form.Complete) (o.resolveWith meaning ctx form)
  | .missing => by
    rw [resolveWith]
    intro e he
    cases he
    exact ⟨rfl, fun hc => by cases hc.2⟩
  | .predefined word => by
    rw [resolveWith]
    exact .ok _
  | .name parts => by
    have hparts := settled_resolveParts hl hm ctx parts
    rw [resolveWith]
    split
    · next e he =>
      refine (hparts.error he).mono fun hc => ⟨hc.1, ?_⟩
      cases hc.2 with
      | name h => exact h
    · exact (settled_bindName hl hm ctx _).mono And.left
  | .nullable underlying => by
    have hinner := settled_resolveWith hl hm ctx underlying
    rw [resolveWith]
    split
    · next e he =>
      refine (hinner.error he).mono fun hc => ⟨hc.1, ?_⟩
      cases hc.2 with
      | nullable h => exact h
    · next t _ => exact .of_ok (nullableOf_ok hl t)
  | .array element ranks => by
    have hinner := settled_resolveWith hl hm ctx element
    rw [resolveWith]
    split
    · next e he =>
      refine (hinner.error he).mono fun hc => ⟨hc.1, ?_⟩
      cases hc.2 with
      | array _ h => exact h
    · exact .ok _
  | .pointer target => by
    rw [resolveWith]
    refine ((settled_resolveWith hl hm ctx target).map _).mono fun hc => ⟨hc.1, ?_⟩
    cases hc.2 with
    | pointer h => exact h
  | .functionPointer signature => by
    rw [resolveWith]
    exact .ok _
  | .tuple elements written => by
    have helements := settled_resolveList hl hm ctx elements
    rw [resolveWith]
    split
    · next e he =>
      refine (helements.error he).mono fun hc => ⟨hc.1, ?_⟩
      cases hc.2 with
      | tuple _ h => exact h
    · next ts _ => exact .of_ok (tupleOf_ok hl ts written)
  | .wrapped inner => by
    rw [resolveWith]
    refine (settled_resolveWith hl hm ctx inner).mono fun hc => ⟨hc.1, ?_⟩
    cases hc.2 with
    | wrapped h => exact h
  | .inferred => by
    rw [resolveWith]
    exact .ok _
  | .other kind text => by
    rw [resolveWith]
    exact .ok _

theorem settled_resolveList (hl : o.Lookups)
    (hm : ∀ id isFile name a, o.alias? id isFile name = some a → Settled complete (meaning a))
    (ctx : Context) : ∀ forms : List TypeForm,
    Settled (complete ∧ ∀ form ∈ forms, form.Complete) (o.resolveList meaning ctx forms)
  | [] => by
    rw [resolveList]
    exact .ok _
  | form :: rest => by
    have hform := settled_resolveWith hl hm ctx form
    have hrest := settled_resolveList hl hm ctx rest
    rw [resolveList]
    split
    · next e he =>
      exact (hform.error he).mono fun hc => ⟨hc.1, hc.2 form List.mem_cons_self⟩
    · exact (hrest.map _).mono fun hc =>
        ⟨hc.1, fun other hother => hc.2 other (List.mem_cons_of_mem _ hother)⟩

theorem settled_resolvePart (hl : o.Lookups)
    (hm : ∀ id isFile name a, o.alias? id isFile name = some a → Settled complete (meaning a))
    (ctx : Context) : ∀ part : NamePart,
    Settled (complete ∧ part.Complete) (o.resolvePart meaning ctx part)
  | .mk name args => by
    rw [resolvePart]
    refine ((settled_resolveList hl hm ctx args).map _).mono fun hc => ⟨hc.1, ?_⟩
    cases hc.2 with
    | mk _ h => exact h

theorem settled_resolveParts (hl : o.Lookups)
    (hm : ∀ id isFile name a, o.alias? id isFile name = some a → Settled complete (meaning a))
    (ctx : Context) : ∀ parts : List NamePart,
    Settled (complete ∧ ∀ part ∈ parts, part.Complete) (o.resolveParts meaning ctx parts)
  | [] => by
    rw [resolveParts]
    exact .ok _
  | part :: rest => by
    have hpart := settled_resolvePart hl hm ctx part
    have hrest := settled_resolveParts hl hm ctx rest
    rw [resolveParts]
    split
    · next e he =>
      exact (hpart.error he).mono fun hc => ⟨hc.1, hc.2 part List.mem_cons_self⟩
    · exact (hrest.map _).mono fun hc =>
        ⟨hc.1, fun other hother => hc.2 other (List.mem_cons_of_mem _ hother)⟩

end

end

/-! ### Using directives -/

theorem AliasesComplete.grows {a b : Outline} (h : a.AliasesComplete) (hg : Grows a b) :
    b.AliasesComplete := by
  have hscopes := congrArg Outline.scopes hg.frame
  have hshared := congrArg Outline.globalAliases hg.frame
  exact ⟨fun s hs => h.inScopes s (hscopes ▸ hs), fun e he => h.inAll e (hshared ▸ he)⟩

/-- What a using directive gives a name to fails for its own target only. -/
theorem settled_resolveAlias (hl : o.Lookups) (a : Alias) :
    Settled a.target.Complete (o.resolveAlias a) := by
  have hresolve : Settled (True ∧ a.target.Complete)
      (o.resolveWith noAliases { scopes := a.scopes } a.target) :=
    settled_resolveWith hl (fun _ _ _ _ _ => .ok _) _ a.target
  rw [resolveAlias]
  split
  · next e he => exact (hresolve.error he).mono fun hc => ⟨trivial, hc⟩
  · exact .ok _

/-- A type that may be written fails only for the want of an operand. -/
theorem settled_resolveOptional (hl : o.Lookups) (ctx : Context) (form : Option TypeForm) :
    Settled (o.AliasesComplete ∧ CompleteIfWritten form) (o.resolveOptional ctx form) := by
  cases form with
  | none => exact .ok _
  | some form =>
    have hresolve : Settled (o.AliasesComplete ∧ form.Complete)
        (o.resolveWith o.resolveAlias ctx form) :=
      settled_resolveWith hl (fun _ _ _ a ha =>
        (settled_resolveAlias hl a).mono fun hc => hc.of_alias? ha) ctx form
    exact hresolve.mono fun hc => ⟨hc.1, hc.2 form rfl⟩

/-! ### Signatures -/

theorem settled_bindType (hw : WellFormed o) (ctx : Context) (form : Option TypeForm) :
    Settled (o.AliasesComplete ∧ CompleteIfWritten form) (o.bindType ctx form) := by
  rw [bindType]
  split
  · next e he => exact (settled_resolveOptional hw.lookups ctx form).error he
  · exact .ok _

theorem settled_bindConstraint (hw : WellFormed o) (ctx : Context) (form : ConstraintForm) :
    Settled (o.AliasesComplete ∧ form.Complete) (o.bindConstraint ctx form) := by
  cases form with
  | keyword word => exact .ok _
  | type t =>
    refine ((settled_bindType hw ctx (some t)).map _).mono fun hc => ⟨hc.1, fun u hu => ?_⟩
    cases hu
    exact hc.2

theorem settled_bindConstraintList (hw : WellFormed o) (ctx : Context) (target : TypeParameterRef)
    (forms : List ConstraintForm) :
    Settled (o.AliasesComplete ∧ ∀ form ∈ forms, form.Complete)
      (o.bindConstraintList ctx target forms) := by
  induction forms generalizing o with
  | nil => exact .ok _
  | cons form rest ih =>
    rw [bindConstraintList]
    split
    · next e he =>
      exact ((settled_bindConstraint hw ctx form).error he).mono fun hc =>
        ⟨hc.1, hc.2 form List.mem_cons_self⟩
    · next bound c hbound =>
      have hgrows := ((quiet_bindConstraint hbound).trans (quiet_constrain target c)).grows
      exact (ih (hw.grows hgrows)).mono fun hc =>
        ⟨hc.1.grows hgrows, fun other hother => hc.2 other (List.mem_cons_of_mem _ hother)⟩

theorem settled_bindClauses (hw : WellFormed o) (ctx : Context) (ps : List TypeParameterRef)
    (clauses : List ConstraintClause) :
    Settled (o.AliasesComplete ∧ ∀ c ∈ clauses, c.Complete) (o.bindClauses ctx ps clauses) := by
  induction clauses generalizing o with
  | nil => exact .ok _
  | cons clause rest ih =>
    have hskip := (ih hw).mono fun (hc : o.AliasesComplete ∧ ∀ c ∈ clause :: rest, c.Complete) =>
      ⟨hc.1, fun c hmem => hc.2 c (List.mem_cons_of_mem _ hmem)⟩
    rw [bindClauses]
    split
    · exact hskip
    · next target _ =>
      split
      · split
        · next e he =>
          exact ((settled_bindConstraintList hw ctx target clause.constraints).error he).mono
            fun hc => ⟨hc.1, hc.2 clause List.mem_cons_self⟩
        · next bound hbound =>
          have hgrows := (quiet_bindConstraintList hbound).grows
          exact (ih (hw.grows hgrows)).mono fun hc =>
            ⟨hc.1.grows hgrows, fun c hmem => hc.2 c (List.mem_cons_of_mem _ hmem)⟩
      · exact hskip

theorem settled_bindParameter (hw : WellFormed o) (ctx : Context) (form : ParameterForm) :
    Settled (o.AliasesComplete ∧ CompleteIfWritten form.type) (o.bindParameter ctx form) :=
  (settled_bindType hw ctx form.type).map _

theorem settled_bindParameters (hw : WellFormed o) (ctx : Context) (forms : List ParameterForm) :
    Settled (o.AliasesComplete ∧ ∀ p ∈ forms, CompleteIfWritten p.type)
      (o.bindParameters ctx forms) := by
  induction forms generalizing o with
  | nil => exact .ok _
  | cons form rest ih =>
    rw [bindParameters]
    split
    · next e he =>
      exact ((settled_bindParameter hw ctx form).error he).mono fun hc =>
        ⟨hc.1, hc.2 form List.mem_cons_self⟩
    · next bound p hbound =>
      obtain ⟨t, ht, -⟩ := bindParameter_ok hbound
      have hgrows := (quiet_bindType ht).grows
      exact ((ih (hw.grows hgrows)).map _).mono fun hc =>
        ⟨hc.1.grows hgrows, fun q hq => hc.2 q (List.mem_cons_of_mem _ hq)⟩

theorem settled_bindReturn (hw : WellFormed o) (ctx : Context) (form : Option ReturnForm) :
    Settled (o.AliasesComplete ∧ ∀ r ∈ form, CompleteIfWritten r.type) (o.bindReturn ctx form) := by
  cases form with
  | none => exact .ok _
  | some r => exact ((settled_bindType hw ctx r.type).map _).mono fun hc => ⟨hc.1, hc.2 r rfl⟩

/-! ### Members -/

theorem settled_bindMethod (hw : WellFormed o) (ctx : Context) (container : TypeId)
    (m : MethodForm) :
    Settled (o.AliasesComplete ∧ m.Complete) (o.bindMethod ctx container m) := by
  have hbegun : WellFormed (o.beginMethod container m) :=
    hw.sameShape (.of_definitions_eq rfl) rfl rfl
  have haliases : o.AliasesComplete → (o.beginMethod container m).AliasesComplete :=
    fun h => ⟨h.inScopes, h.inAll⟩
  rw [bindMethod]
  simp only
  split
  · next e he =>
    exact ((settled_bindClauses hbegun _ _ m.constraints).error he).mono fun hc =>
      ⟨haliases hc.1, hc.2.constraints⟩
  · next clausesBound hclauses =>
    have hclausesGrow : Grows (o.beginMethod container m) clausesBound :=
      (quiet_bindClauses hclauses).grows
    have hw' := hbegun.grows hclausesGrow
    split
    · next e he =>
      exact ((settled_bindReturn hw' _ m.returns).error he).mono fun hc =>
        ⟨(haliases hc.1).grows hclausesGrow, hc.2.returns⟩
    · next returnBound _ _ _ hreturn =>
      have hreturnGrows := hclausesGrow.trans (quiet_bindReturn hreturn).grows
      split
      · next e he =>
        exact ((settled_bindParameters (hbegun.grows hreturnGrows) _ m.parameters).error he).mono
          fun hc => ⟨(haliases hc.1).grows hreturnGrows, hc.2.parameters⟩
      · exact .ok _

theorem settled_bindMember (hw : WellFormed o) (ctx : Context) (container : TypeId)
    (form : MemberForm) :
    Settled (o.AliasesComplete ∧ form.Complete) (o.bindMember ctx container form) := by
  cases form with
  | method m => exact settled_bindMethod hw ctx container m
  | values v => exact (settled_bindType hw ctx v.type).map _

theorem settled_bindMembers (hw : WellFormed o) (ctx : Context) {container : TypeId}
    (members : List MemberForm) :
    Settled (o.AliasesComplete ∧ ∀ m ∈ members, m.Complete)
      (o.bindMembers ctx container members) := by
  induction members generalizing o with
  | nil => exact .ok _
  | cons form rest ih =>
    rw [bindMembers_cons]
    split
    · next e he =>
      exact ((settled_bindMember hw ctx container form).error he).mono fun hc =>
        ⟨hc.1, hc.2 form List.mem_cons_self⟩
    · next bound hbound =>
      have hgrows := grows_bindMember hbound
      exact (ih (hw.grows hgrows)).mono fun hc =>
        ⟨hc.1.grows hgrows, fun m hm => hc.2 m (List.mem_cons_of_mem _ hm)⟩

/-! ### Parts of types -/

theorem settled_bindPrimaryConstructor (hw : WellFormed o) (ctx : Context) (part : DeclaredPart) :
    Settled (o.AliasesComplete ∧ part.form.Complete) (o.bindPrimaryConstructor ctx part) := by
  rw [bindPrimaryConstructor]
  split
  · refine ((settled_bindMethod hw ctx part.type (primaryConstructorForm part)).map _).mono
      fun hc => ⟨hc.1, ⟨fun c hmem => ?_, fun r hr => ?_, hc.2.parameters⟩⟩
    · cases hmem
    · cases hr
  · exact .ok _

/-- Binding a part of a type fails only for the want of an operand. -/
theorem settled_bindPart (hw : WellFormed o) {part : DeclaredPart}
    (hlt : part.type.index < o.table.definitions.size) :
    Settled (o.AliasesComplete ∧ part.form.Complete) (o.bindPart part) := by
  rw [bindPart]
  split
  · next e he =>
    exact ((settled_bindClauses hw _ _ part.form.constraints).error he).mono fun hc =>
      ⟨hc.1, hc.2.constraints⟩
  · next clausesBound hclauses =>
    have hquiet := quiet_bindClauses hclauses
    have hw' := hw.grows hquiet.grows
    split
    · refine (settled_bindMethod hw' _ part.type (invokeForm part)).mono fun hc =>
        ⟨hc.1.grows hquiet.grows, ⟨fun c hmem => (by cases hmem), fun r hr => ?_,
          hc.2.parameters⟩⟩
      cases hr
      exact hc.2.returns
    · exact .ok _
    · split
      · next e he =>
        exact ((settled_bindPrimaryConstructor hw' _ part).error he).mono fun hc =>
          ⟨hc.1.grows hquiet.grows, hc.2⟩
      · next constructed hconstructed =>
        have hconstructor := makes_bindPrimaryConstructor (hquiet.shape.size ▸ hlt) hconstructed
        have hgrows := hquiet.grows.trans hconstructor.grows
        exact (settled_bindMembers (hw.grows hgrows) _ part.form.members).mono fun hc =>
          ⟨hc.1.grows hgrows, hc.2.members⟩

theorem settled_bindParts {parts : List DeclaredPart} (hw : WellFormed o)
    (hlt : ∀ part ∈ parts, part.type.index < o.table.definitions.size) :
    Settled (o.AliasesComplete ∧ ∀ part ∈ parts, part.form.Complete) (o.bindParts parts) := by
  induction parts generalizing o with
  | nil => exact .ok _
  | cons part rest ih =>
    have hpart := hlt part List.mem_cons_self
    rw [bindParts]
    split
    · next e he =>
      exact ((settled_bindPart hw hpart).error he).mono fun hc =>
        ⟨hc.1, hc.2 part List.mem_cons_self⟩
    · next bound hbound =>
      have hgrows := (makes_bindPart hpart hbound).grows
      refine (ih (hw.grows hgrows) fun other hother => ?_).mono fun hc =>
        ⟨hc.1.grows hgrows, fun other hother => hc.2 other (List.mem_cons_of_mem _ hother)⟩
      rw [hgrows.shape.size]
      exact hlt other (List.mem_cons_of_mem _ hother)

/-- **The second pass fails only for the want of an operand.** -/
theorem settled_bind (hw : WellFormed o) : Settled o.Complete o.bind :=
  ((settled_bindParts hw fun part hp => (hw.parts part hp).head_lt).map _).mono fun hc =>
    ⟨hc.aliases, hc.parts⟩

end

end Outline

/-- **Trees that lack no operand are compiled.**  If no assembly comes of some files, it is for the
want of an operand in one of their trees. -/
theorem compile_total (identity : AssemblyIdentity) (implicitUsings : Bool)
    (files : List (Text.Bytes × Source.Node)) :
    (∃ a, compile identity implicitUsings files = .ok a) ∨
      (compile identity implicitUsings files = .error (.bind .missingOperand) ∧
        ∃ file ∈ files, file.2.hasOperands = false) := by
  obtain ⟨c, hfiles, hcomplete⟩ :=
    @Compilation.addFiles_ok files (.empty identity implicitUsings) rfl
  obtain ⟨houtlined, hbound⟩ := Compilation.outlined_addFiles hfiles
  have hsettled := Outline.settled_bind houtlined.toWellFormed
  rw [compile, hfiles]
  simp only [Compilation.bind, hbound, Bool.false_eq_true, ↓reduceIte]
  cases hbind : c.outline.bind with
  | ok o => exact Or.inl ⟨_, rfl⟩
  | error e =>
    obtain ⟨rfl, hmissing⟩ := hsettled e hbind
    refine Or.inr ⟨rfl, ?_⟩
    by_contra hnone
    refine hmissing (hcomplete (Outline.complete_empty implicitUsings) fun file hfile => ?_)
    by_contra hfalse
    exact hnone ⟨file, hfile, Bool.not_eq_true _ ▸ hfalse⟩

theorem compile_ok (identity : AssemblyIdentity) (implicitUsings : Bool)
    {files : List (Text.Bytes × Source.Node)} (h : ∀ file ∈ files, file.2.hasOperands = true) :
    ∃ a, compile identity implicitUsings files = .ok a := by
  refine (compile_total identity implicitUsings files).resolve_right ?_
  rintro ⟨-, file, hfile, hmissing⟩
  rw [h file hfile] at hmissing
  cases hmissing

end ExtensionCensus.Binding
