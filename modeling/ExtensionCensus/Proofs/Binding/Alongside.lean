import ExtensionCensus.Proofs.Binding.Alike
import ExtensionCensus.Proofs.Binding.Linking
import ExtensionCensus.Proofs.Binding.Lockstep
import ExtensionCensus.Proofs.Binding.Making

/-!
# Types bound in two outlines

An outline that declares more than another one, under names that are not known, gives the same members
to the types that both declare.

* `Extends` — what an outline adds to another one has no known name;
* `Alongside` — two outlines on the way through the second pass, with the same in all common types;
* `Alongside.corresponds`, `Alongside.bridge` — a place has the same meaning in both;
* `Alongside.bindMethod`, `Alongside.bindPart`, `Alongside.bindParts` — **each step of the second pass
  keeps this**.
-/

namespace ExtensionCensus.Binding.Outline

open SymbolTable (SameShape Alike)
open SymbolTable.Alike (InFront)
open Source (TypeForm ParameterForm MethodForm ValueForm MemberForm)

/-! ### Names in later outlines -/

section

variable {Known : String → Prop} {o o' a b : Outline}

theorem typeIn?_congr (h : b.root = a.root) (space : String) (key : TypeKey) :
    b.typeIn? space key = a.typeIn? space key := by
  rw [typeIn?, typeIn?, h]

theorem WellFormed.typeIn?_lt (h : WellFormed o) {space : String} {key : TypeKey} {id : TypeId}
    (hid : o.typeIn? space key = some id) : id.index < o.table.definitions.size := by
  rcases Option.or_eq_some_iff.mp hid with hid | ⟨-, hid⟩
  · exact (h.places.of_find? hid).1
  · exact Nat.lt_of_lt_of_le (Library.places.of_find? hid).1 h.library.size_le

theorem SameChain.congr {chain chain' : ScopeChain} (h : SameChain Known o o' chain chain')
    (ha : a.scopes = o.scopes) (hb : b.scopes = o'.scopes) : SameChain Known a b chain chain' := by
  have hscope : ∀ id, a.scope id = o.scope id := fun id => by rw [scope, scope, ha]
  have hscope' : ∀ id, b.scope id = o'.scope id := fun id => by rw [scope, scope, hb]
  induction h with
  | nil => exact .nil
  | @cons i j outer outer' _ hspace husings haliases ih =>
    rw [← hscope, ← hscope'] at hspace husings haliases
    exact .cons ih hspace husings haliases

theorem Grows.globals (h : Grows a b) : b.implicitUsings = a.implicitUsings ∧
    b.globalUsings = a.globalUsings ∧ b.globalAliases = a.globalAliases :=
  ⟨(congrArg Outline.implicitUsings h.frame :), (congrArg Outline.globalUsings h.frame :),
    (congrArg Outline.globalAliases h.frame :)⟩

end

/-! ### More of the same -/

/-- Known names lead to the same types in both outlines, and the parts of the first one stand in the
same scopes of the second one. -/
structure Extends (Known : String → Prop) (o o' : Outline) : Prop where
  wellFormed : WellFormed o
  typeIn : ∀ (space : String) (key : TypeKey), Known key.name →
    o'.typeIn? space key = o.typeIn? space key
  scopes : ∀ part ∈ o.parts, SameChain Known o o' part.scopes part.scopes
  implicitUsings : o'.implicitUsings = o.implicitUsings
  globalUsings : o'.globalUsings = o.globalUsings
  globalAliases : List.Forall₂ (fun x y => y.1 = x.1 ∧ SameAlias Known o o' x.2 y.2)
    o.globalAliases o'.globalAliases

/-- The number of types that an outline declares. -/
abbrev typeCount (o : Outline) : Nat :=
  o.table.definitions.size

/-- The outlines `a` and `b` are on the way through the second pass from `o` and `o'`, with the same
in all types of `o`. -/
structure Alongside (r : Renaming) (o o' a b : Outline) : Prop where
  left : Grows o a
  right : Grows o' b
  alike : Alike r o.typeCount a.table b.table

/-- A place that lies in scopes with the same contents, and in types that both outlines declare. -/
structure Common (Known : String → Prop) (o o' : Outline) (ctx : Context) : Prop where
  scopes : SameChain Known o o' ctx.scopes ctx.scopes
  enclosing_lt : ∀ id ∈ ctx.enclosing, id.index < o.typeCount

section

variable {r : Renaming} {Known : String → Prop} {o o' a b a' b' : Outline}

theorem Alongside.size (h : Alongside r o o' a b) : a.typeCount = o.typeCount :=
  h.left.shape.size

/-- **What is written at a place asks for the same in both outlines.** -/
theorem Alongside.corresponds (hr : r.Fixes o.typeCount) (he : Extends Known o o')
    (h : Alongside r o o' a b) : Corresponds r Known a b := by
  have hw : WellFormed a := he.wellFormed.grows h.left
  have hlt : ∀ {id : TypeId}, id.index < a.typeCount → id.index < o.typeCount :=
    fun hid => h.size ▸ hid
  have hfix : ∀ {id : TypeId}, id.index < a.typeCount → r.type id = id :=
    fun hid => hr.type _ (hlt hid)
  obtain ⟨himplicit, hglobals, haliases⟩ := h.left.globals
  obtain ⟨himplicit', hglobals', haliases'⟩ := h.right.globals
  constructor
  case typeIn =>
    intro space key hkey
    rw [typeIn?_congr h.right.root, he.typeIn space key hkey, ← typeIn?_congr h.left.root]
    cases hid : a.typeIn? space key with
    | none => rfl
    | some id => rw [Option.map_some, hfix (hw.typeIn?_lt hid)]
  case typeIn_lt => exact hw.typeIn?_lt
  case nested =>
    intro id hid key
    rw [hfix hid, h.alike.nestedType? hr (hlt hid) fun t ht => hlt (hw.nested_lt id t ht)]
    cases hfound : a.table.nestedType? id key with
    | none => rfl
    | some t => rw [Option.map_some, hfix (hw.nested_lt id t (List.mem_of_find?_eq_some hfound))]
  case nested_lt =>
    intro outer key id hid
    exact hw.nested_lt outer id (List.mem_of_find?_eq_some hid)
  case definitionType =>
    intro id hid
    rw [hfix hid]
    exact h.alike.definitionType hr (hlt hid)
  case arity =>
    intro id hid
    rw [hfix hid]
    exact h.alike.arity (hlt hid)
  case metadataName =>
    intro id hid
    rw [hfix hid, h.alike.definition id (hlt hid)]
    rfl
  case kind =>
    intro id hid
    rw [hfix hid]
    exact h.alike.kind (hlt hid)
  case library =>
    intro id hid
    exact hfix (Nat.lt_of_lt_of_le hid hw.library.size_le)
  case library_le => exact hw.library.size_le
  case injective =>
    intro id other hid hother hsame
    rw [hfix hid, hfix hother] at hsame
    exact hsame
  case implicitUsings => rw [himplicit, himplicit', he.implicitUsings]
  case globalUsings => rw [hglobals, hglobals', he.globalUsings]
  case globalAliases =>
    rw [haliases, haliases']
    refine he.globalAliases.imp fun x y hxy => ⟨hxy.1, hxy.2.target, hxy.2.written, hxy.2.known, ?_⟩
    exact hxy.2.scopes.congr h.left.scopes h.right.scopes

theorem inFront_of_visible {ctx : Context} (hctx : Common Known o o' ctx)
    {p : TypeParameterRef} (hp : p ∈ a.visibleParameters ctx) : InFront o.typeCount p := by
  rw [visibleParameters] at hp
  rcases List.mem_append.mp hp with hp | hp
  · cases hm : ctx.method with
    | none =>
      rw [hm] at hp
      cases hp
    | some m =>
      rw [hm] at hp
      obtain ⟨i, -, rfl⟩ := List.mem_map.mp hp
      trivial
  · obtain ⟨id, hid, hp⟩ := List.mem_flatMap.mp hp
    obtain ⟨i, -, rfl⟩ := List.mem_map.mp hp
    exact hctx.enclosing_lt id hid

/-- A place that is common to both outlines is the same place in both. -/
theorem Alongside.samePlace (hr : r.Fixes o.typeCount) (h : Alongside r o o' a b) {ctx : Context}
    (hctx : Common Known o o' ctx) : SamePlace r Known a b ctx ctx := by
  have hparameter : ∀ p ∈ a.visibleParameters ctx,
      b.table.typeParameter (r.parameter p) = (a.table.typeParameter p).rename r := by
    intro p hp
    have hfront := inFront_of_visible hctx hp
    rw [SymbolTable.Alike.parameter_eq hr hfront, h.alike.typeParameter hfront]
  constructor
  case scopes => exact hctx.scopes.congr h.left.scopes h.right.scopes
  case enclosing =>
    refine (List.map_id _).symm.trans (List.map_congr_left fun id hid => ?_)
    exact (hr.type id (hctx.enclosing_lt id hid)).symm
  case enclosing_lt =>
    intro id hid
    exact Nat.lt_of_lt_of_eq (hctx.enclosing_lt id hid) h.size.symm
  case method =>
    cases ctx.method with
    | none => rfl
    | some m => exact congrArg some (hr.method m).symm
  case methodParameters =>
    intro m _
    rw [hr.method, h.alike.methodTypeParameters hr]
  case name =>
    intro p hp
    rw [hparameter p hp]
    rfl
  case isValue =>
    intro p hp
    rw [hparameter p hp, TypeParameter.isValue_rename]

/-- **A place that is common to both outlines stays so while a signature is bound.** -/
theorem Alongside.bridge (hr : r.Fixes o.typeCount) (he : Extends Known o o') {ctx : Context}
    (hctx : Common Known o o' ctx) {ps : List TypeParameterRef}
    (hps : ∀ p ∈ ps, InFront o.typeCount p) :
    Bridge r Known ctx ctx ps (Alongside r o o') where
  corresponds h := h.corresponds hr he
  place h := h.samePlace hr hctx
  parameter h p hp := by
    rw [SymbolTable.Alike.parameter_eq hr (hps p hp), h.alike.typeParameter (hps p hp)]
  note {a b} h t u more more' :=
    ⟨h.left.trans (quiet_note a t more).grows, h.right.trans (quiet_note b u more').grows,
      h.alike.note t u⟩
  constrain {a b} h p hp c :=
    ⟨h.left.trans (quiet_constrain p c).grows, h.right.trans (quiet_constrain _ _).grows,
      h.alike.constrain hr (hps p hp) c⟩

/-- Steps that lead to the same in front, and on the way through the second pass. -/
theorem Alongside.both (h : Alongside r o o' a b) {x y : Except BindError Outline}
    (hxy : Both (fun u v => Alike r o.typeCount u.table v.table) x y)
    (hx : ∀ u, x = .ok u → Grows a u) (hy : ∀ v, y = .ok v → Grows b v) :
    Both (Alongside r o o') x y := by
  cases hxy with
  | error e => exact .error e
  | ok halike => exact .ok ⟨h.left.trans (hx _ rfl), h.right.trans (hy _ rfl), halike⟩

/-! ### Methods -/

theorem Alike.mayExtend {table table' : SymbolTable} {n : Nat} (hr : r.Fixes n)
    (h : Alike r n table table') {id : TypeId} (hid : id.index < n) :
    mayExtend table' id = mayExtend table id := by
  rw [Outline.mayExtend, Outline.mayExtend, h.traits hid, h.definitionType hr hid,
    Ty.isGeneric_rename, h.isTopLevel hid]

theorem Alike.bareMethod {table table' : SymbolTable} {n : Nat} (hr : r.Fixes n)
    (h : Alike r n table table') {id : TypeId} (hid : id.index < n) (m : MethodForm) :
    bareMethod table' id m = (bareMethod table id m).rename r := by
  have hplace (i : Nat) : r.parameter (.ofMethod table.nextMethod i)
      = .ofMethod table.nextMethod i := by
    rw [Renaming.parameter, hr.method]
  rw [Outline.bareMethod, Outline.bareMethod, methodAccess, methodAccess, h.kind hid,
    h.definitionType hr hid, h.nextMethod]
  simp [Method.rename, map_rename_listed r hplace, TypeParameter.rename, Function.comp_def]

theorem Alongside.beginMethod (hr : r.Fixes o.typeCount) (h : Alongside r o o' a b)
    {container : TypeId} (hlt : container.index < o.typeCount) (m : MethodForm) :
    Alongside r o o' (a.beginMethod container m) (b.beginMethod container m) := by
  refine ⟨h.left.trans (grows_addMethod a _), h.right.trans (grows_addMethod b _), ?_⟩
  rw [Outline.beginMethod, Outline.beginMethod, Alike.bareMethod hr h.alike hlt]
  exact h.alike.addMethod _

/-- The same signature completes a method in the same way. -/
theorem Alike.completeMethod (hr : r.Fixes o.typeCount) (h : Alike r o.typeCount a.table b.table)
    {container : TypeId} (hlt : container.index < o.typeCount) (id : MethodId) (m : MethodForm)
    (s : Signature) : Alike r o.typeCount
      (a.completeMethod id container m s.1.1 s.1.2.1 s.1.2.2 s.2).table
      (b.completeMethod id container m (renameSignature r s).1.1 (renameSignature r s).1.2.1
        (renameSignature r s).1.2.2 (renameSignature r s).2).table := by
  have hid : Member.method id = (Member.method id).rename r := by
    rw [Member.rename, hr.method]
  simp only [Outline.completeMethod]
  conv => arg 4; rw [hid]
  refine (h.updateMethod id fun x => ?_).addMember hlt (.method id)
  simp only [renameSignature, hasThis_rename, Alike.mayExtend hr h hlt]
  rfl

/-- A method that is mapped has the parameters that are mapped. -/
theorem attached_rename (r : Renaming) {id id' : MethodId} (hid : r.method id = id')
    (ps : List Parameter) :
    attached id' (ps.map (Parameter.rename r)) = (attached id ps).map (Parameter.rename r) := by
  refine List.ext_getElem? fun i => ?_
  simp only [attached, List.getElem?_mapIdx, List.getElem?_map, Option.map_map]
  refine congrArg (Option.map · ps[i]?) (funext fun p => ?_)
  simp [Parameter.rename, hid]

/-- **The same method is made in both outlines.** -/
theorem Alongside.bindMethod (hr : r.Fixes o.typeCount) (he : Extends Known o o')
    (h : Alongside r o o' a b) {ctx : Context} (hctx : Common Known o o' ctx) {container : TypeId}
    (hlt : container.index < o.typeCount) {m : MethodForm}
    (hknown : m.All (TypeForm.Known Known)) :
    Both (Alongside r o o') (a.bindMethod ctx container m) (b.bindMethod ctx container m) := by
  have hbegin := h.beginMethod hr hlt m
  have hparameters := hbegin.alike.methodTypeParameters hr a.table.nextMethod
  have hinside : Common Known o o' { ctx with method := some a.table.nextMethod } :=
    ⟨hctx.scopes, hctx.enclosing_lt⟩
  have hfront : ∀ p ∈ (a.beginMethod container m).table.methodTypeParameters a.table.nextMethod,
      InFront o.typeCount p := by
    intro p hp
    obtain ⟨i, -, rfl⟩ := List.mem_map.mp hp
    trivial
  have hsignature := (Alongside.bridge hr he hinside hfront).bindSignature hbegin hknown
  have hbound : Both (fun u v => Alike r o.typeCount u.table v.table)
      (a.bindMethod ctx container m) (b.bindMethod ctx container m) := by
    rw [bindMethod_eq, bindMethod_eq, h.alike.nextMethod, hparameters]
    refine hsignature.map fun u v huv => ?_
    have hparameters := attached_rename r (hr.method a.table.nextMethod) u.2.2
    rw [huv.2]
    have hcompleted := Alike.completeMethod hr huv.1.alike hlt a.table.nextMethod m
      (u.2.1, attached a.table.nextMethod u.2.2)
    rw [renameSignature, ← hparameters] at hcompleted
    exact hcompleted
  exact h.both hbound (fun u hu => grows_bindMethod hu) fun v hv => grows_bindMethod hv

/-! ### Fields, properties and events -/

theorem Alongside.addValue (h : Alongside r o o' a b) {container : TypeId}
    (hlt : container.index < o.typeCount) (v : ValueMember) :
    Alongside r o o' (a.addValue container v) (b.addValue container (v.rename r)) := by
  refine ⟨h.left.trans (quiet_addValue container v).grows,
    h.right.trans (quiet_addValue container _).grows, ?_⟩
  have halike := (h.alike.addValue v).addMember hlt (.value a.table.nextValue)
  rw [Outline.addValue, Outline.addValue, h.alike.nextValue]
  exact halike

theorem Alongside.foldl_addValue {α : Type} {container : TypeId}
    (hlt : container.index < o.typeCount) {f g : Outline → α → ValueMember}
    (hfg : ∀ {x y : Outline}, Alongside r o o' x y → ∀ z, g y z = (f x z).rename r) (zs : List α)
    (h : Alongside r o o' a b) :
    Alongside r o o' (zs.foldl (fun x z => x.addValue container (f x z)) a)
      (zs.foldl (fun y z => y.addValue container (g y z)) b) := by
  induction zs generalizing a b with
  | nil => exact h
  | cons z rest ih =>
    rw [List.foldl_cons, List.foldl_cons, hfg h z]
    exact ih (h.addValue hlt (f a z))

theorem Alongside.bindValues (hr : r.Fixes o.typeCount) (he : Extends Known o o')
    (h : Alongside r o o' a b) {ctx : Context} (hctx : Common Known o o' ctx) {container : TypeId}
    (hlt : container.index < o.typeCount) {v : ValueForm} (hknown : ∀ t ∈ v.type, t.Known Known) :
    Both (Alongside r o o') (a.bindValues ctx container v) (b.bindValues ctx container v) := by
  have hnone : ∀ p ∈ ([] : List TypeParameterRef), InFront o.typeCount p := fun p hp => by cases hp
  refine ((Alongside.bridge hr he hctx hnone).bindType h hknown).map fun x y hxy => ?_
  obtain ⟨x, t⟩ := x
  obtain ⟨y, u⟩ := y
  have htype : u = t.rename r := hxy.type
  subst htype
  refine Alongside.foldl_addValue hlt (fun {x' y'} h' name => ?_) v.names hxy.outline
  rw [h'.alike.definitionType hr hlt, h'.alike.kind hlt]
  rfl

theorem Alongside.bindEnumMembers (hr : r.Fixes o.typeCount) (h : Alongside r o o' a b)
    {part : DeclaredPart} (hlt : part.type.index < o.typeCount) :
    Alongside r o o' (a.bindEnumMembers part) (b.bindEnumMembers part) := by
  refine Alongside.foldl_addValue hlt (fun {x y} h' name => ?_) part.form.enumMembers h
  rw [h'.alike.definitionType hr hlt]
  rfl

theorem Alongside.addRecordProperties (hr : r.Fixes o.typeCount) (h : Alongside r o o' a b)
    {part : DeclaredPart} (hlt : part.type.index < o.typeCount) (ps : List Parameter) :
    Alongside r o o' (a.addRecordProperties part ps)
      (b.addRecordProperties part (ps.map (Parameter.rename r))) := by
  rw [Outline.addRecordProperties, Outline.addRecordProperties, List.foldl_map]
  refine Alongside.foldl_addValue hlt (fun {x y} h' p => ?_) ps h
  rw [h'.alike.definitionType hr hlt]
  rfl

/-! ### Parts -/

theorem all_invokeForm {P : TypeForm → Prop} {part : DeclaredPart} (h : part.form.All P) :
    (invokeForm part).All P := by
  refine ⟨fun c hc => ?_, fun r hr => ?_, h.parameters⟩
  · cases hc
  · cases hr
    exact h.returns

theorem all_primaryConstructorForm {P : TypeForm → Prop} {part : DeclaredPart}
    (h : part.form.All P) : (primaryConstructorForm part).All P := by
  refine ⟨fun c hc => ?_, fun r hr => ?_, h.parameters⟩
  · cases hc
  · cases hr

theorem Alongside.bindPrimaryConstructor (hr : r.Fixes o.typeCount) (he : Extends Known o o')
    (h : Alongside r o o' a b) {ctx : Context} (hctx : Common Known o o' ctx) {part : DeclaredPart}
    (hlt : part.type.index < o.typeCount) (hknown : part.form.All (TypeForm.Known Known)) :
    Both (Alongside r o o') (a.bindPrimaryConstructor ctx part)
      (b.bindPrimaryConstructor ctx part) := by
  rw [Outline.bindPrimaryConstructor, Outline.bindPrimaryConstructor]
  split
  · have hmade := h.bindMethod hr he hctx hlt (all_primaryConstructorForm hknown)
    refine hmade.map fun x y hxy => ?_
    split
    · rw [h.alike.nextMethod, hxy.alike.method]
      exact hxy.addRecordProperties hr hlt _
    · exact hxy
  · exact .ok h

theorem Alongside.bindMember (hr : r.Fixes o.typeCount) (he : Extends Known o o')
    (h : Alongside r o o' a b) {ctx : Context} (hctx : Common Known o o' ctx) {container : TypeId}
    (hlt : container.index < o.typeCount) {form : MemberForm}
    (hknown : form.All (TypeForm.Known Known)) :
    Both (Alongside r o o') (a.bindMember ctx container form) (b.bindMember ctx container form) := by
  cases form with
  | method m => exact h.bindMethod hr he hctx hlt hknown
  | values v => exact h.bindValues hr he hctx hlt hknown

theorem Alongside.bindMembers (hr : r.Fixes o.typeCount) (he : Extends Known o o')
    (h : Alongside r o o' a b) {ctx : Context} (hctx : Common Known o o' ctx) {container : TypeId}
    (hlt : container.index < o.typeCount) {members : List MemberForm}
    (hknown : ∀ form ∈ members, form.All (TypeForm.Known Known)) :
    Both (Alongside r o o') (a.bindMembers ctx container members)
      (b.bindMembers ctx container members) := by
  induction members generalizing a b with
  | nil => exact .ok h
  | cons form rest ih =>
    have hfirst := h.bindMember hr he hctx hlt (hknown form List.mem_cons_self)
    rw [bindMembers_cons, bindMembers_cons]
    generalize a.bindMember ctx container form = x at hfirst ⊢
    generalize b.bindMember ctx container form = y at hfirst ⊢
    cases hfirst with
    | error e => exact .error e
    | ok h' => exact ih h' fun other hother => hknown other (List.mem_cons_of_mem form hother)

theorem Alongside.bindContents (hr : r.Fixes o.typeCount) (he : Extends Known o o')
    (h : Alongside r o o' a b) {part : DeclaredPart} (hctx : Common Known o o' (placeOf part))
    (hlt : part.type.index < o.typeCount) (hknown : part.form.All (TypeForm.Known Known)) :
    Both (Alongside r o o') (a.bindContents part) (b.bindContents part) := by
  rw [Outline.bindContents, Outline.bindContents, h.alike.kind hlt]
  split
  · exact h.bindMethod hr he hctx hlt (all_invokeForm hknown)
  · exact .ok (h.bindEnumMembers hr hlt)
  · have hfirst := h.bindPrimaryConstructor hr he hctx hlt hknown
    generalize a.bindPrimaryConstructor (placeOf part) part = x at hfirst ⊢
    generalize b.bindPrimaryConstructor (placeOf part) part = y at hfirst ⊢
    cases hfirst with
    | error e => exact .error e
    | ok h' => exact h'.bindMembers hr he hctx hlt hknown.members

/-- **A part of a type gives the same members to it in both outlines.** -/
theorem Alongside.bindPart (hr : r.Fixes o.typeCount) (he : Extends Known o o')
    (h : Alongside r o o' a b) {part : DeclaredPart} (hpart : part ∈ o.parts)
    (hknown : part.form.All (TypeForm.Known Known)) :
    Both (Alongside r o o') (a.bindPart part) (b.bindPart part) := by
  obtain hchain := he.wellFormed.parts part hpart
  have hlt : part.type.index < o.typeCount := hchain.head_lt
  have hctx : Common Known o o' (placeOf part) := by
    refine ⟨he.scopes part hpart, fun id hid => ?_⟩
    obtain ⟨rest, hrest⟩ := hchain.of_mem hid
    exact hrest.head_lt
  have hfront : ∀ p ∈ a.table.typeParametersOf part.type, InFront o.typeCount p := by
    intro p hp
    obtain ⟨i, -, rfl⟩ := List.mem_map.mp hp
    exact hlt
  have hclauses := (Alongside.bridge hr he hctx hfront).bindClauses h hknown.constraints
  rw [← h.alike.typeParametersOf hr hlt] at hclauses
  rw [bindPart_eq, bindPart_eq]
  generalize a.bindClauses (placeOf part) (a.table.typeParametersOf part.type)
    part.form.constraints = x at hclauses ⊢
  generalize b.bindClauses (placeOf part) (b.table.typeParametersOf part.type)
    part.form.constraints = y at hclauses ⊢
  cases hclauses with
  | error e => exact .error e
  | ok h' => exact h'.bindContents hr he hctx hlt hknown

/-- **Parts of types give the same members to them in both outlines.** -/
theorem Alongside.bindParts (hr : r.Fixes o.typeCount) (he : Extends Known o o')
    (h : Alongside r o o' a b) {parts : List DeclaredPart} (hparts : ∀ part ∈ parts, part ∈ o.parts)
    (hknown : ∀ part ∈ parts, part.form.All (TypeForm.Known Known)) :
    Both (Alongside r o o') (a.bindParts parts) (b.bindParts parts) := by
  induction parts generalizing a b with
  | nil => exact .ok h
  | cons part rest ih =>
    have hfirst := h.bindPart hr he (hparts part List.mem_cons_self) (hknown part List.mem_cons_self)
    rw [Outline.bindParts, Outline.bindParts]
    generalize a.bindPart part = x at hfirst ⊢
    generalize b.bindPart part = y at hfirst ⊢
    cases hfirst with
    | error e => exact .error e
    | ok h' =>
      exact ih h' (fun other hother => hparts other (List.mem_cons_of_mem part hother))
        fun other hother => hknown other (List.mem_cons_of_mem part hother)

end

end ExtensionCensus.Binding.Outline
