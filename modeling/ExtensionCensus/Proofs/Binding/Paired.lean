import ExtensionCensus.Proofs.Binding.Alongside
import ExtensionCensus.Proofs.Binding.Counterparts
import ExtensionCensus.Proofs.Binding.Passing

/-!
# Methods of containers in another order

In another order of files a part of a type that may hold extension methods is bound in another outline,
in which other methods were made before.  The methods that are made of it are the same, up to where types
and methods are.

* `Reordered.corresponds` — on the way through the second pass names lead to counterparts;
* `Reordered.mayExtend`, `WellFormed.exists_place` — a type that may hold extension methods has a
  counterpart that may, and lies in a namespace;
* `Paired`, `Paired.bridge` — the two outlines while a signature is bound in both;
* `Reordered.bindMethod` — **a method that is bound in both is the same**;
* `Reordered.method` — **and so it is at the end of both passes**.
-/

namespace ExtensionCensus.Binding.Outline

open SymbolTable (SameShape)
open Source (TypeForm MethodForm)

/-- Every name is known where all names are. -/
theorem all_known (m : MethodForm) : m.All (TypeForm.Known fun _ => True) := by
  refine ⟨fun c _ form _ => ?_, fun r _ t _ name _ => trivial, fun p _ t _ name _ => trivial⟩
  cases form with
  | keyword word => trivial
  | type t => exact fun name _ => trivial

theorem nestedType?_sameShape {a b : SymbolTable} (h : SameShape a b) (outer : TypeId) (key : TypeKey) :
    b.nestedType? outer key = a.nestedType? outer key := by
  rw [SymbolTable.nestedType?, SymbolTable.nestedType?, h.nested]
  exact List.find?_congr fun t _ => by rw [h.key]

/-- The renaming of types, under which every method is the method `id`. -/
abbrev toMethod (move : TypeId → TypeId) (id : MethodId) : Renaming :=
  ⟨move, fun _ => id⟩

section

variable {o o' u v w w' : Outline} {move : TypeId → TypeId} {r : Renaming} {p q : DeclaredPart}
  {form : MethodForm} {id : TypeId} {k k' : MethodId}

namespace Reordered

/-! ### Names -/

/-- **On the way through the second pass names lead to counterparts.** -/
theorem corresponds (h : Reordered move o o') (hr : r.type = move) (hu : Ahead o u) (hv : Ahead o' v) :
    Corresponds r (fun _ => True) u v := by
  subst hr
  have hw : WellFormed u := h.left.toWellFormed.grows hu.toGrows
  have hus := hu.shape
  have hvs := hv.shape
  obtain ⟨himplicit, hglobals, haliases⟩ := hu.globals
  obtain ⟨himplicit', hglobals', haliases'⟩ := hv.globals
  constructor
  case typeIn =>
    intro space key _
    rw [typeIn?_congr hv.root, typeIn?_congr hu.root, h.typeIn?_eq]
  case typeIn_lt => exact hw.typeIn?_lt
  case nested =>
    intro id _ key
    rw [nestedType?_sameShape hvs, nestedType?_sameShape hus, h.nestedType?_eq]
  case nested_lt =>
    intro outer key id hid
    exact hw.nested_lt outer id (List.mem_of_find?_eq_some hid)
  case definitionType =>
    intro id _
    rw [hvs.definitionType, hus.definitionType]
    exact h.definitionType r.method id
  case arity =>
    intro id _
    rw [hvs.arity, hus.arity, h.arity]
  case metadataName =>
    intro id _
    rw [(hv.sameLabel _).metadataName, (hu.sameLabel id).metadataName, h.metadataName]
  case kind =>
    intro id _
    rw [(hvs.agrees _).kind, (hus.agrees id).kind, h.kind]
  case library => exact fun hid => h.library _ hid
  case library_le => exact hw.library.size_le
  case injective => exact fun _ _ hsame => h.injective hsame
  case implicitUsings => rw [himplicit, himplicit', h.entries.implicitUsings]
  case globalUsings => rw [hglobals, hglobals', h.entries.globalUsings]
  case globalAliases =>
    rw [haliases, haliases']
    refine h.globalAliases.imp fun x y hxy => ⟨hxy.1, hxy.2.target, hxy.2.written, hxy.2.known, ?_⟩
    exact hxy.2.scopes.congr hu.scopes hv.scopes

/-! ### Types that may hold extension methods -/

/-- **A type in a namespace may hold extension methods if its counterpart may.** -/
theorem mayExtend (h : Reordered move o o') {x : Place} (hx : x ∈ o.root.placed []) :
    mayExtend o'.table (move x.id) = mayExtend o.table x.id := by
  rw [Outline.mayExtend, Outline.mayExtend, h.isStatic hx, h.definitionType (fun m => m),
    Ty.isGeneric_rename, SymbolTable.isTopLevel_rename (h.container (fun m => m) x.id)]

/-- Parts that were entered alike are parts of counterparts. -/
theorem move_type (h : Reordered move o o') (hp : p ∈ o.parts) (hq : q ∈ o'.parts)
    (hentry : o'.entryOf q = o.entryOf p) : move p.type = q.type :=
  h.eq_of_address (h.left.described.located p hp) (h.right.described.located q hq)
    (congrArg Entry.address hentry)

end Reordered

/-- A type that may hold extension methods has no type parameters. -/
theorem typeParametersOf_of_mayExtend {table : SymbolTable} (hmay : mayExtend table id = true) :
    table.typeParametersOf id = [] := by
  have hgeneric : (table.definitionType id).isGeneric = false := by
    rw [mayExtend, Bool.and_eq_true, Bool.and_eq_true] at hmay
    simpa using hmay.1.2
  rw [SymbolTable.definitionType] at hgeneric
  cases hparameters : table.typeParametersOf id with
  | nil => rfl
  | cons first rest =>
    rw [hparameters] at hgeneric
    cases houter : table.lexicalOuter id <;> rw [houter] at hgeneric <;>
      simp [Ty.isGeneric] at hgeneric

theorem lexicalOuter_of_mayExtend {table : SymbolTable} (hmay : mayExtend table id = true) :
    table.lexicalOuter id = none := by
  have htop : table.isTopLevel id = true := (Bool.and_eq_true_iff.mp hmay).2
  rw [SymbolTable.isTopLevel] at htop
  rw [SymbolTable.lexicalOuter]
  split at htop
  · next hcontainer => rw [hcontainer]
  · cases htop

/-- A type that may hold extension methods lies in a namespace. -/
theorem WellFormed.exists_place (h : WellFormed o) (hmay : mayExtend o.table id = true)
    (hl : o.Located id) : ∃ x ∈ o.root.placed [], x.id = id := by
  cases hl with
  | placed hx => exact ⟨_, hx, rfl⟩
  | nested _ hid =>
    have houter := h.nested _ id hid
    rw [lexicalOuter_of_mayExtend hmay] at houter
    cases houter

/-! ### Two methods -/

/-- The outlines are ahead of `o` and `o'`, and what the one says of the method `k` the other says of
`k'`. -/
structure Paired (move : TypeId → TypeId) (o o' : Outline) (k k' : MethodId) (a b : Outline) :
    Prop where
  left : Ahead o a
  right : Ahead o' b
  left_lt : k.index < a.table.methods.size
  right_lt : k'.index < b.table.methods.size
  method : b.table.method k' = (a.table.method k).rename (toMethod move k')

theorem methodTypeParameters_rename {a b : SymbolTable}
    (h : b.method k' = (a.method k).rename (toMethod move k')) :
    b.methodTypeParameters k' = (a.methodTypeParameters k).map (toMethod move k').parameter := by
  rw [SymbolTable.methodTypeParameters, SymbolTable.methodTypeParameters, h, Method.rename,
    List.length_map, List.map_map]
  rfl

theorem typeParameter_rename {a b : SymbolTable}
    (h : b.method k' = (a.method k).rename (toMethod move k')) (i : Nat) :
    b.typeParameter ((toMethod move k').parameter (.ofMethod k i))
      = (a.typeParameter (.ofMethod k i)).rename (toMethod move k') := by
  show (b.method k').typeParameters[i]?.getD default = _
  rw [h]
  exact getD_map_list rfl _ _

variable {a b : Outline}

/-- A place in a type that may hold extension methods is the same place in both outlines. -/
theorem Paired.samePlace (hr : Reordered move o o') (hp : p ∈ o.parts) (hq : q ∈ o'.parts)
    (hentry : o'.entryOf q = o.entryOf p) (hmay : mayExtend o.table p.type = true)
    (h : Paired move o o' k k' a b) : SamePlace (toMethod move k') (fun _ => True) a b
      { placeOf p with method := some k } { placeOf q with method := some k' } := by
  have htype := hr.move_type hp hq hentry
  obtain ⟨x, hx, hxp⟩ := hr.left.toWellFormed.exists_place hmay (hr.left.described.located p hp)
  have hmay' : Outline.mayExtend o'.table q.type = true := by
    rw [← htype, ← hxp, hr.mayExtend hx, hxp, hmay]
  have hinside := hr.left.toWellFormed.enclosing_eq_nil hp (lexicalOuter_of_mayExtend hmay)
  have hinside' := hr.right.toWellFormed.enclosing_eq_nil hq (lexicalOuter_of_mayExtend hmay')
  -- only type parameters of the method itself can be named
  have hown : ∀ t ∈ a.visibleParameters { placeOf p with method := some k },
      ∃ i, t = .ofMethod k i := by
    intro t ht
    rcases List.mem_append.mp ht with ht | ht
    · obtain ⟨i, -, rfl⟩ := List.mem_map.mp ht
      exact ⟨i, rfl⟩
    · obtain ⟨outer, houter, ht⟩ := List.mem_flatMap.mp ht
      have houter : outer ∈ p.type :: p.enclosing := houter
      rw [hinside, List.mem_singleton] at houter
      rw [houter, h.left.shape.typeParametersOf, typeParametersOf_of_mayExtend hmay] at ht
      cases ht
  constructor
  case scopes => exact (hr.sameChain hp hq hentry).congr h.left.scopes h.right.scopes
  case enclosing =>
    show q.type :: q.enclosing = (p.type :: p.enclosing).map move
    rw [hinside, hinside', List.map_singleton, htype]
  case enclosing_lt =>
    intro outer houter
    have houter : outer ∈ p.type :: p.enclosing := houter
    rw [hinside, List.mem_singleton] at houter
    rw [houter, h.left.shape.size]
    exact (hr.left.parts p hp).head_lt
  case method => rfl
  case methodParameters =>
    intro m hm
    cases hm
    exact methodTypeParameters_rename h.method
  case name =>
    intro t ht
    obtain ⟨i, rfl⟩ := hown t ht
    rw [typeParameter_rename h.method]
    rfl
  case isValue =>
    intro t ht
    obtain ⟨i, rfl⟩ := hown t ht
    rw [typeParameter_rename h.method, TypeParameter.isValue_rename]

theorem Paired.note (h : Paired move o o' k k' a b) (t t' : Ty) (more more' : List UnreadType) :
    Paired move o o' k k' { a with table := a.table.note t, unread := more }
      { b with table := b.table.note t', unread := more' } := by
  have hleft := h.left.trans (ahead_note a t more)
  have hright := h.right.trans (ahead_note b t' more')
  obtain ⟨instances, hnote⟩ := SymbolTable.note_eq a.table t
  obtain ⟨instances', hnote'⟩ := SymbolTable.note_eq b.table t'
  rw [hnote] at hleft ⊢
  rw [hnote'] at hright ⊢
  exact ⟨hleft, hright, h.left_lt, h.right_lt, h.method⟩

theorem Paired.constrain (h : Paired move o o' k k' a b) (i : Nat) (c : Constraint) :
    Paired move o o' k k' { a with table := a.table.constrain (.ofMethod k i) c }
      { b with table := b.table.constrain (.ofMethod k' i) (c.rename (toMethod move k')) } := by
  refine ⟨h.left.trans (ahead_constrain a _ c), h.right.trans (ahead_constrain b _ _), ?_, ?_, ?_⟩
  · exact Nat.lt_of_lt_of_eq h.left_lt (SymbolTable.size_updateMethod _ _).symm
  · exact Nat.lt_of_lt_of_eq h.right_lt (SymbolTable.size_updateMethod _ _).symm
  · show (b.table.updateMethod k' _).method k' = ((a.table.updateMethod k _).method k).rename _
    rw [SymbolTable.method_updateMethod, SymbolTable.method_updateMethod, if_pos ⟨rfl, h.right_lt⟩,
      if_pos ⟨rfl, h.left_lt⟩, h.method]
    simp only [Method.rename, SymbolTable.Alike.rename_modify]

/-- **A place in such a type stays the same while a signature is bound in both outlines.** -/
theorem Paired.bridge (hr : Reordered move o o') (hp : p ∈ o.parts) (hq : q ∈ o'.parts)
    (hentry : o'.entryOf q = o.entryOf p) (hmay : mayExtend o.table p.type = true)
    {ps : List TypeParameterRef} (hps : ∀ t ∈ ps, ∃ i, t = .ofMethod k i) :
    Bridge (toMethod move k') (fun _ => True) { placeOf p with method := some k }
      { placeOf q with method := some k' } ps (Paired move o o' k k') where
  corresponds h := hr.corresponds rfl h.left h.right
  place h := h.samePlace hr hp hq hentry hmay
  parameter h t ht := by
    obtain ⟨i, rfl⟩ := hps t ht
    exact typeParameter_rename h.method i
  note h t t' more more' := h.note t t' more more'
  constrain h t ht c := by
    obtain ⟨i, rfl⟩ := hps t ht
    exact h.constrain i c

/-! ### Binding a method in both -/

theorem method_completeMethod {bound : Outline} {container : TypeId} {returnType : Option Ty}
    {isNullable : Bool} {byRef : Option String} {parameters : List Parameter}
    (hlt : k.index < bound.table.methods.size) :
    (bound.completeMethod k container form returnType isNullable byRef parameters).table.method k
      = { bound.table.method k with
          returnType
          returnIsNullable := isNullable
          returnsByRef := byRef
          parameters
          isExtension := form.kind = .ordinary && form.modifiers.isStatic && hasThis parameters &&
            mayExtend bound.table container } := by
  show (SymbolTable.updateMethod _ k _).method k = _
  rw [SymbolTable.method_updateMethod, if_pos ⟨rfl, hlt⟩]

/-- A method is begun alike in both outlines. -/
theorem Paired.begin (hr : Reordered move o o') (hu : Ahead o u) (hv : Ahead o' v) (id : TypeId)
    (form : MethodForm) : Paired move o o' u.table.nextMethod v.table.nextMethod
      (u.beginMethod id form) (v.beginMethod (move id) form) := by
  refine ⟨hu.trans (ahead_addMethod u _), hv.trans (ahead_addMethod v _), ?_, ?_, ?_⟩
  · exact Nat.lt_of_lt_of_eq (Nat.lt_succ_self _) (SymbolTable.size_addMethod _).symm
  · exact Nat.lt_of_lt_of_eq (Nat.lt_succ_self _) (SymbolTable.size_addMethod _).symm
  · rw [method_beginMethod, method_beginMethod, bareMethod, bareMethod, methodAccess, methodAccess,
      (hv.shape.agrees _).kind, (hu.shape.agrees id).kind, hr.kind, hv.shape.definitionType,
      hu.shape.definitionType, hr.definitionType (toMethod move v.table.nextMethod).method]
    have hplace (i : Nat) : (toMethod move v.table.nextMethod).parameter
        (.ofMethod u.table.nextMethod i) = .ofMethod v.table.nextMethod i := rfl
    simp [Method.rename, map_rename_listed _ hplace, TypeParameter.rename, Function.comp_def]

/-- **A method that is bound from one form in both outlines is the same**, in a type that may hold
extension methods. -/
theorem Reordered.bindMethod (h : Reordered move o o') (hu : Ahead o u) (hv : Ahead o' v)
    (hp : p ∈ o.parts) (hq : q ∈ o'.parts) (hentry : o'.entryOf q = o.entryOf p)
    (hmay : Outline.mayExtend o.table p.type = true)
    (hw : u.bindMethod (placeOf p) p.type form = .ok w)
    (hw' : v.bindMethod (placeOf q) q.type form = .ok w') :
    w'.table.method v.table.nextMethod = (w.table.method u.table.nextMethod).rename
      (toMethod move v.table.nextMethod) := by
  have htype := h.move_type hp hq hentry
  have hbegin := Paired.begin h hu hv p.type form
  rw [htype] at hbegin
  have hparameters := methodTypeParameters_rename hbegin.method
  have hown : ∀ t ∈ (u.beginMethod p.type form).table.methodTypeParameters u.table.nextMethod,
      ∃ i, t = .ofMethod u.table.nextMethod i := by
    intro t ht
    obtain ⟨i, -, rfl⟩ := List.mem_map.mp ht
    exact ⟨i, rfl⟩
  have hsignature := (Paired.bridge h hp hq hentry hmay hown).bindSignature hbegin (all_known form)
  rw [bindMethod_eq] at hw hw'
  obtain ⟨x, hx, rfl⟩ := ok_of_map hw
  obtain ⟨y, hy, rfl⟩ := ok_of_map hw'
  rw [← hparameters, hx, hy] at hsignature
  cases hsignature with
  | ok hxy =>
    obtain ⟨hpaired, hsame⟩ := hxy
    have hmay' : Outline.mayExtend y.1.table q.type = Outline.mayExtend x.1.table p.type := by
      obtain ⟨place, hplace, hid⟩ :=
        h.left.toWellFormed.exists_place hmay (h.left.described.located p hp)
      rw [mayExtend_grows hpaired.right.toGrows, mayExtend_grows hpaired.left.toGrows, ← htype, ← hid,
        h.mayExtend hplace]
    rw [method_completeMethod hpaired.right_lt, method_completeMethod hpaired.left_lt, hsame,
      hpaired.method, hmay', renameSignature,
      attached_rename (toMethod move v.table.nextMethod) rfl, hasThis_rename]
    rfl

/-- **A method of a type that may hold extension methods is the same at the end of both passes.** -/
theorem Reordered.method (h : Reordered move o o') (hp : p ∈ o.parts) (hq : q ∈ o'.parts)
    (hentry : o'.entryOf q = o.entryOf p) (hmay : Outline.mayExtend o.table p.type = true)
    (hk : Stems o a k p form) (hk' : Stems o' b k' q form) :
    b.table.method k' = (a.table.method k).rename (toMethod move k') := by
  obtain ⟨u, w, hu, hw, rfl, -, hkept⟩ := hk
  obtain ⟨v, w', hv, hw', rfl, -, hkept'⟩ := hk'
  rw [hkept, hkept', h.bindMethod hu hv hp hq hentry hmay hw hw']

end

end ExtensionCensus.Binding.Outline
