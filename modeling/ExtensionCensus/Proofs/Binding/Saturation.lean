import ExtensionCensus.Proofs.Binding.Gathering
import ExtensionCensus.Proofs.Binding.Listing
import ExtensionCensus.Proofs.Binding.Wrapping

/-!
# Bound types are whole

Trees that lack no operand are bound, and whatever has a type after that has a whole one: each
definition in it is in the table, stands over as many arguments as it has type parameters and lies in
an instance of the type that it was declared in.

* `Ty.Saturated` — a type is whole, as far as a table can tell;
* `Nests.saturated_definitionType`, `hereditary_saturated`, `Stands.sees_saturated` — what can be
  named at a place is whole, and so is what is made of it;
* `Source.returns_of_read?`, `Outlined.implements_bind`, `Outlined.returns_bind` — a method says what
  it returns unless it is a constructor or a destructor;
* `SymbolTable.Typed`, `Outlined.typed_bind` — all members and constraints of a table are whole after
  the second pass;
* `Compilation.bind_total` — **files whose trees lack no operand are added and bound, and everything
  in them is typed; other files fail to bind for no other reason**.
-/

namespace ExtensionCensus

/-! ### Whole types -/

/-- A type is whole: every definition in it is in the table, has as many arguments as type parameters
and lies in an instance of the type that contains the definition, if there is one. -/
inductive Ty.Saturated (table : SymbolTable) : Ty → Prop where
  | unbound (name : String) {outer : Option Ty} {args : List Ty}
      (houter : ∀ t, outer = some t → Ty.Saturated table t)
      (hargs : ∀ a ∈ args, Ty.Saturated table a) :
      Ty.Saturated table (.named (.unbound name) outer args)
  | declared {id : TypeId} {outer : Option Ty} {args : List Ty}
      (hid : id.index < table.definitions.size) (harity : args.length = table.arity id)
      (hlies : outer.map Ty.declaration? = (table.lexicalOuter id).map Ty.declaration?)
      (houter : ∀ t, outer = some t → Ty.Saturated table t)
      (hargs : ∀ a ∈ args, Ty.Saturated table a) :
      Ty.Saturated table (.named (.declared id) outer args)
  | parameter (p : TypeParameterRef) : Ty.Saturated table (.parameter p)
  | array (rank : Nat) {element : Ty} (h : Ty.Saturated table element) :
      Ty.Saturated table (.array element rank)
  | pointer {target : Ty} (h : Ty.Saturated table target) : Ty.Saturated table (.pointer target)
  | functionPointer (signature : String) : Ty.Saturated table (.functionPointer signature)
  | dynamic : Ty.Saturated table .dynamic

/-- A type stays whole in a table of the same shape. -/
theorem Ty.Saturated.sameShape {a b : SymbolTable} (hs : a.SameShape b) {t : Ty} (h : t.Saturated a) :
    t.Saturated b := by
  induction h with
  | unbound name _ _ ihouter ihargs => exact .unbound name ihouter ihargs
  | declared hid harity hlies _ _ ihouter ihargs =>
    refine .declared ?_ ?_ ?_ ihouter ihargs
    · rw [hs.size]
      exact hid
    · rw [hs.arity]
      exact harity
    · rw [hs.lexicalOuter]
      exact hlies
  | parameter p => exact .parameter p
  | array rank _ ih => exact .array rank ih
  | pointer _ ih => exact .pointer ih
  | functionPointer signature => exact .functionPointer signature
  | dynamic => exact .dynamic

/-- Methods of the kind return something; constructors and destructors do not. -/
def MethodKind.returns : MethodKind → Bool
  | .constructor | .staticConstructor | .destructor => false
  | .ordinary | .operator | .conversion => true

namespace SymbolTable

/-- Whatever has a type has a whole one: parameters, what is returned and constraints, and each
field, property and event. A method returns something by its kind. -/
structure Typed (table : SymbolTable) : Prop where
  methods : ∀ m : MethodId, ∀ t ∈ (table.method m).types, t.Saturated table
  returns : ∀ m : MethodId, m.index < table.methods.size →
    (table.method m).returnType.isSome = (table.method m).kind.returns
  values : ∀ v : ValueId, v.index < table.values.size →
    ∃ t, (table.value v).type = some t ∧ t.Saturated table
  definitions : ∀ id : TypeId, ∀ q ∈ (table.definition id).typeParameters,
    ∀ t ∈ q.constraintTypes, t.Saturated table

section

variable {table : SymbolTable}

/-- What a definition stands for is whole, since a type lies in one that was declared before it. -/
theorem Nests.saturated_definitionType (h : Nests table) (id : TypeId)
    (hid : id.index < table.definitions.size) : (table.definitionType id).Saturated table := by
  refine .declared hid ?_ rfl (fun t ht => ?_) fun a ha => ?_
  · rw [List.length_map, typeParametersOf, List.length_map, List.length_range]
    rfl
  · rw [lexicalOuter] at ht
    rcases h id hid with ⟨path, hpath⟩ | ⟨outer, hlt, houter⟩
    · rw [hpath] at ht
      cases ht
    · rw [houter] at ht
      cases ht
      exact h.saturated_definitionType outer (Nat.lt_trans hlt hid)
  · obtain ⟨p, -, rfl⟩ := List.mem_map.mp ha
    exact .parameter p
termination_by id.index

end

end SymbolTable

/-! ### What forms return -/

namespace Source

/-- A member that is read off a node is a method that returns something by its kind, or no method. -/
theorem returns_of_readMember? {source : Text.Bytes} {n : Node} {m : MethodForm}
    (h : readMember? source n = some (.method m)) : m.returns.isSome = m.kind.returns := by
  rw [readMember?] at h
  split at h
  · obtain ⟨form, hform, he⟩ := Option.map_eq_some_iff.mp h
    cases he
    obtain ⟨name, -, rfl⟩ := Option.map_eq_some_iff.mp hform
    rfl
  · cases h
    rw [readConstructor]
    split <;> rfl
  · cases h
    rfl
  · cases h
    rfl
  · cases h
    rfl
  all_goals
    simp at h

/-- The methods in a declaration that is read off a node. -/
theorem returns_of_read? {source : Text.Bytes} {n : Node} {d : TypeDeclaration}
    (h : TypeDeclaration.read? source n = some d) {m : MethodForm} (hm : .method m ∈ d.members) :
    m.returns.isSome = m.kind.returns := by
  rw [TypeDeclaration.read?] at h
  split at h
  · cases h
    simp only at hm
    split at hm
    · obtain ⟨c, -, hread⟩ := List.mem_filterMap.mp hm
      exact returns_of_readMember? hread
    · cases hm
  · cases h

end Source

namespace Binding

namespace Outline

open SymbolTable (Nests SameShape Typed)
open Source (MethodForm)

section

variable {o o' : Outline}

/-! ### What can be named is whole -/

theorem hereditary_saturated : o.Hereditary (Ty.Saturated o.table) where
  unbound name _ _ houter hargs := .unbound name houter hargs
  declared _ _ _ hid harity hlies houter hargs := .declared hid harity hlies houter hargs
  array _ rank h := .array rank h
  pointer _ h := .pointer h
  functionPointer signature := .functionPointer signature
  dynamic := .dynamic

theorem Stands.sees_saturated {ctx : Context} {container : TypeId}
    (h : Stands o ctx container) (hn : Nests o.table) : o.Sees ctx (Ty.Saturated o.table) := by
  obtain ⟨rest, hrest, hchain⟩ := h.chain
  refine ⟨fun p _ => .parameter p, fun id hid => ?_⟩
  rw [hrest] at hid
  obtain ⟨around, haround⟩ := hchain.of_mem hid
  exact hn.saturated_definitionType id haround.head_lt

/-- **What is read at a site is whole.** -/
theorem ReadsSite.saturated (hw : WellFormed o) (hn : Nests o.table) {s : Site}
    (h : o.ReadsSite o.parts s) {t : Ty} (ht : s.resolve = .ok t) : t.Saturated o.table := by
  have hst := h.stands hw
  have hshape := h.grows.shape
  have hthere : Nests s.outline.table := hn.of_agrees hshape.keeps hshape.size
  exact (has_resolveOptional hst.wellFormed.lookups hereditary_saturated
    (hst.sees_saturated hthere) ht).sameShape hshape.symm

/-! ### Methods and the forms that they come from -/

/-- **Every method that there is after the second pass was bound from a form: from one that a part of
its type declares, or from that of a constructor.** -/
theorem Outlined.implements_bind (ho : Outlined o) (hf : Findable o) (h : o.bind = .ok o')
    {m : MethodId} (hm : m.index < o'.table.methods.size) :
    ∃ owner form, Implements o'.table owner m form ∧
      ((owner, form) ∈ partForms o.table o.parts ∨ ∃ access, form = implicitForm access) := by
  obtain ⟨extra, hmakes, hextra, -⟩ := ho.makes_bind h
  obtain ⟨made, hforms, hgains⟩ := hmakes.made
  obtain ⟨id, hid⟩ : ∃ id, .method m ∈ o'.table.members id := by
    rcases (ho.lists_bind hf h).listed (.method m) hm with ⟨t, ht⟩ | hid
    · cases ht
    · exact hid
  have hlisted : m ∈ o'.table.methodIds id :=
    List.mem_filterMap.mpr ⟨.method m, hid, rfl⟩
  rw [hgains.methodIds, ho.bare.methodIds, List.nil_append] at hlisted
  obtain ⟨e, he, rfl⟩ := List.mem_map.mp hlisted
  have hmem := (List.mem_filter.mp he).1
  refine ⟨e.owner, e.form, hgains.implements e hmem, ?_⟩
  have hform : (e.owner, e.form) ∈ partForms o.table o.parts ++ extra :=
    hforms ▸ List.mem_map.mpr ⟨e, hmem, rfl⟩
  exact (List.mem_append.mp hform).imp_right fun hin => hextra _ hin

/-- What a part declares returns something by its kind. -/
theorem returns_of_mem_formsOf {part : DeclaredPart} {P : Source.TypeForm → Prop}
    (hpart : part.form.All P) {kind : DefinitionKind} {m : MethodForm}
    (hm : m ∈ formsOf kind part) : m.returns.isSome = m.kind.returns := by
  have hbody : m ∈ (if part.form.hasParameterList then [primaryConstructorForm part] else []) ++
      methodForms part.form.members → m.returns.isSome = m.kind.returns := by
    intro hm
    rcases List.mem_append.mp hm with hm | hm
    · split at hm
      · rw [List.mem_singleton.mp hm]
        rfl
      · cases hm
    · obtain ⟨member, hmember, he⟩ := List.mem_filterMap.mp hm
      obtain ⟨source, n, hread⟩ := hpart.read
      cases member with
      | method form =>
        cases he
        exact Source.returns_of_read? hread hmember
      | values v => cases he
  cases kind with
  | delegateType =>
    rw [List.mem_singleton.mp hm]
    rfl
  | enumType => cases hm
  | classType => exact hbody hm
  | structType => exact hbody hm
  | interfaceType => exact hbody hm

/-- **A method says what it returns unless it is a constructor or a destructor.** -/
theorem Outlined.returns_bind (ho : Outlined o) (hf : Findable o) {P : Source.TypeForm → Prop}
    (hp : o.Takes P) (h : o.bind = .ok o') {m : MethodId}
    (hm : m.index < o'.table.methods.size) :
    (o'.table.method m).returnType.isSome = (o'.table.method m).kind.returns := by
  obtain ⟨owner, form, himplements, horigin⟩ := ho.implements_bind hf h hm
  rw [himplements.returns, himplements.kind]
  rcases horigin with hform | ⟨access, rfl⟩
  · obtain ⟨part, hpart, hform⟩ := List.mem_flatMap.mp hform
    obtain ⟨form', hform', he⟩ := List.mem_map.mp hform
    cases he
    exact returns_of_mem_formsOf (hp.parts part hpart) hform'
  · rfl

/-! ### Whole tables -/

/-- **After the second pass everything is typed.** -/
theorem Outlined.typed_bind (ho : Outlined o) (hf : Findable o) (hn : Nests o.table)
    {P : Source.TypeForm → Prop} (hp : o.Takes P) (h : o.bind = .ok o') : Typed o'.table := by
  obtain ⟨extra, hmakes, -, -⟩ := ho.makes_bind h
  have hshape := hmakes.grows.shape
  have hlists := ho.lists_bind hf h
  have hsourced := ho.sourced_bind h
  have hseen : ∀ t, (∃ s, o.ReadsSite o.parts s ∧ s.resolve = .ok t) → t.Saturated o'.table := by
    rintro t ⟨s, hread, ht⟩
    exact (hread.saturated ho.toWellFormed hn ht).sameShape hshape
  refine ⟨fun m t ht => hseen t (hsourced.methods m t ht), fun m hm => ho.returns_bind hf hp h hm,
    fun v hv => ?_, fun id q hq t ht => hseen t (hsourced.definitions id q hq t ht)⟩
  obtain ⟨t, ht⟩ := Option.isSome_iff_exists.mp (hlists.typed v hv)
  refine ⟨t, ht, ?_⟩
  rcases hsourced.values v t ht with hread | hcontainer
  · exact hseen t hread
  · -- a value of an enum is of the enum that lists it
    rcases hlists.listed (.value v) hv with ⟨u, hu⟩ | ⟨id, hid⟩
    · cases hu
    · have hown : t = o'.table.definitionType id :=
        Option.some.inj (hcontainer.symm.trans (hlists.container id _ hid))
      rw [hown]
      exact (hn.of_agrees hshape.keeps hshape.size).saturated_definitionType id
        (SymbolTable.lt_of_mem_members hid)

end

end Outline

/-! ### Compilations -/

namespace Compilation

/-- Whatever is taken down was read off a tree. -/
theorem takes_any (implicitUsings : Bool) (files : List (Text.Bytes × Source.Node)) :
    (Outline.ofFiles implicitUsings files).Takes fun _ => True := by
  refine Outline.takes_ofFiles fun file _ => ?_
  have hyields : Source.Yields file.1 (fun _ => True) fun _ => True :=
    ⟨fun _ _ => trivial, fun _ _ => trivial, fun _ => trivial, fun _ _ _ => trivial⟩
  exact hyields.readItems file.2 trivial

/-- **Binding never fails, and types everything.** All files can be added. If no operand is missing
in their trees they can be bound; otherwise binding may fail, but for the want of an operand only: no
type is ever made over a wrong number of arguments, or from a name that was not found. And once they
are bound every parameter, whatever a method returns, every field, property and event and every
constraint has a type, of which all parts are whole; only constructors and destructors return
nothing. -/
theorem bind_total (identity : AssemblyIdentity) (implicitUsings : Bool)
    (files : List (Text.Bytes × Source.Node)) :
    ∃ c, (empty identity implicitUsings).addFiles files = .ok c ∧
      ((∀ file ∈ files, file.2.hasOperands = true) → ∃ c', c.bind = .ok c') ∧
      (∀ e, c.bind = .error e → e = .bind .missingOperand) ∧
      ∀ c', c.bind = .ok c' → c'.outline.table.Typed := by
  obtain ⟨c, hadd, hcomplete⟩ := @addFiles_ok files (empty identity implicitUsings) rfl
  have houtline : c.outline = Outline.ofFiles implicitUsings files := by
    have heq := addFiles_eq (c := empty identity implicitUsings) files rfl
    rw [hadd, Except.ok.injEq] at heq
    rw [heq]
    rfl
  obtain ⟨houtlined, hbound⟩ := outlined_addFiles hadd
  have hsettled := Outline.settled_bind houtlined.toWellFormed
  have hfails : ∀ e, c.bind = .error e → e = .bind .missingOperand ∧ ¬ c.outline.Complete := by
    intro e he
    rw [bind, hbound] at he
    simp only [Bool.false_eq_true, ↓reduceIte] at he
    split at he
    · next cause hcause =>
      cases he
      obtain ⟨rfl, hmissing⟩ := hsettled cause hcause
      exact ⟨rfl, hmissing⟩
    · cases he
  refine ⟨c, hadd, fun hfiles => ?_, fun e he => (hfails e he).1, fun c' hc' => ?_⟩
  · cases hbind : c.bind with
    | ok c' => exact ⟨c', rfl⟩
    | error e =>
      exact absurd (hcomplete (Outline.complete_empty implicitUsings) hfiles) (hfails e hbind).2
  · have htakes := houtline ▸ takes_any implicitUsings files
    have hnests := houtline ▸ @Outline.nests_ofFiles implicitUsings files
    exact houtlined.typed_bind (findable_addFiles hadd) hnests htakes (bind_ok hbound hc')

/-- A generic method in a generic class is bound with whole types. -/
theorem genericClass_typed :
    ∃ c c' : Compilation,
      (empty ⟨"B", "1.0.0.0", "neutral", none⟩ true).addFiles [(genericSource, genericTree)] = .ok c ∧
      c.bind = .ok c' ∧ c'.outline.table.Typed := by
  obtain ⟨c, hadd, hbinds, -, htyped⟩ :=
    bind_total ⟨"B", "1.0.0.0", "neutral", none⟩ true [(genericSource, genericTree)]
  have hcomplete : ∀ file ∈ [(genericSource, genericTree)], file.2.hasOperands = true := by
    decide +kernel
  obtain ⟨c', hc'⟩ := hbinds hcomplete
  exact ⟨c, c', hadd, hc', htyped c' hc'⟩

end Compilation

end Binding

end ExtensionCensus
