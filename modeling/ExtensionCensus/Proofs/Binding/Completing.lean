import ExtensionCensus.Proofs.Binding.Alike
import ExtensionCensus.Proofs.Binding.Untouched
import Mathlib.Data.List.Forall2

/-!
# Types completed in two outlines

A type that has the same members in two outlines is completed in the same way in both.  The
constructors that types have without declaring them are made last, so that these alone may come to
different places.

* `SameMember` — a member at the same place with the same content, or the constructor that a type has
  without declaring it;
* `SameType` — a type is declared alike in two tables, with the same members;
* `SameType.of_alike`, `SameType.untouched` — where this comes from, and what leaves it as it is;
* `SameType.finish`, `sameType_foldl_finish` — **completing types in both keeps it**.
-/

namespace ExtensionCensus.Binding.Outline

open SymbolTable (Alike)

/-! ### Members -/

/-- The members of the type `owner` are there in both tables, and are the same up to the renaming. -/
inductive SameMember (r : Renaming) (a b : SymbolTable) (owner : TypeId) : Member → Member → Prop where
  | type (id : TypeId) : SameMember r a b owner (.type id) (.type id)
  | method {m : MethodId} (hm : Holds a (.method m)) (hm' : Holds b (.method m))
      (h : b.method m = (a.method m).rename r) : SameMember r a b owner (.method m) (.method m)
  | value {v : ValueId} (hv : Holds a (.value v)) (hv' : Holds b (.value v))
      (h : b.value v = (a.value v).rename r) : SameMember r a b owner (.value v) (.value v)
  | implicit {m m' : MethodId} {access : Accessibility} (hm : Holds a (.method m))
      (hm' : Holds b (.method m')) (h : a.method m = implicitMethod a owner access)
      (h' : b.method m' = (a.method m).rename r) : SameMember r a b owner (.method m) (.method m')

/-- The type is declared alike in both tables, with the same members. -/
structure SameType (r : Renaming) (a b : SymbolTable) (id : TypeId) : Prop where
  left_lt : id.index < a.definitions.size
  right_lt : id.index < b.definitions.size
  definition : b.definition id = { (a.definition id).rename r with members := b.members id }
  members : List.Forall₂ (SameMember r a b id) (a.members id) (b.members id)

section

variable {r : Renaming} {n : Nat} {a b : SymbolTable} {id : TypeId} {x y x' y' : Outline}

/-- Types that are the same in front have the same members. -/
theorem SameType.of_alike (hr : r.Fixes n) (h : Alike r n a b) (hid : id.index < n)
    (hnested : ∀ t ∈ a.nestedTypes id, t.index < n) (hheld : ∀ m ∈ a.members id, Holds a m) :
    SameType r a b id := by
  have hsame : ∀ m ∈ a.members id, SameMember r a b id m (m.rename r) := by
    intro m hm
    have hheld := hheld m hm
    cases m with
    | type t =>
      have ht : t ∈ a.nestedTypes id := List.mem_filterMap.mpr ⟨.type t, hm, rfl⟩
      rw [Member.rename, hr.type t (hnested t ht)]
      exact .type t
    | method k =>
      rw [Member.rename, hr.method]
      refine .method hheld ?_ (h.method k)
      rw [Holds, h.methods, Array.size_map]
      exact hheld
    | value v =>
      refine .value hheld ?_ (h.value v)
      rw [Holds, h.values, Array.size_map]
      exact hheld
  refine ⟨Nat.lt_of_lt_of_le hid h.left_le, Nat.lt_of_lt_of_le hid h.right_le, ?_, ?_⟩
  · rw [SymbolTable.members, h.definition id hid]
  · rw [h.members hid, List.forall₂_map_right_iff, List.forall₂_same]
    exact hsame

theorem SameType.kind (h : SameType r a b id) :
    (b.definition id).kind = (a.definition id).kind := by
  rw [h.definition]
  rfl

theorem SameType.traits (h : SameType r a b id) :
    (b.definition id).traits = (a.definition id).traits := by
  rw [h.definition]
  rfl

theorem SameType.definitionType (h : SameType r a b id) (hr : r.type id = id) :
    b.definitionType id = (a.definitionType id).rename r := by
  refine (congrArg b.definitionType hr).symm.trans (SymbolTable.definitionType_rename ?_ ?_)
  · rw [hr, h.definition]
    rfl
  · rw [hr, h.definition]
    exact List.length_map _

theorem SameType.isTopLevel (h : SameType r a b id) : b.isTopLevel id = a.isTopLevel id :=
  SymbolTable.isTopLevel_rename (congrArg TypeDefinition.container h.definition)

theorem SameType.mayExtend (h : SameType r a b id) (hr : r.type id = id) :
    mayExtend b id = mayExtend a id := by
  rw [Outline.mayExtend, Outline.mayExtend, h.traits, h.definitionType hr, Ty.isGeneric_rename,
    h.isTopLevel]

/-! ### Steps that leave the type alone -/

/-- Methods and values that are there stay as they are. -/
theorem SameMember.untouched {kept kept' : TypeId → Prop} {m m' : Member}
    (h : SameMember r x.table y.table id m m') (hx : Untouched kept x x') (hy : Untouched kept' y y')
    (htype : x'.table.definitionType id = x.table.definitionType id) :
    SameMember r x'.table y'.table id m m' := by
  have hheld : ∀ {k : Member}, Holds x.table k → Holds x'.table k :=
    fun hk => hk.mono hx.methodCount hx.valueCount
  have hheld' : ∀ {k : Member}, Holds y.table k → Holds y'.table k :=
    fun hk => hk.mono hy.methodCount hy.valueCount
  cases h with
  | type t => exact .type t
  | @method k hm hm' h =>
    refine .method (hheld hm) (hheld' hm') ?_
    rw [hx.method k hm, hy.method k hm', h]
  | @value v hm hm' h =>
    refine .value (hheld hm) (hheld' hm') ?_
    rw [hx.value v hm, hy.value v hm', h]
  | @implicit k k' access hm hm' h h' =>
    have hkept : x'.table.method k = implicitMethod x'.table id access := by
      rw [hx.method k hm, h, implicitMethod, implicitMethod, htype]
    refine .implicit (hheld hm) (hheld' hm') hkept ?_
    rw [hx.method k hm, hy.method k' hm', h']

/-- Steps that leave methods and values as they are, change the type in the same way and add members
to it that are the same. -/
theorem SameType.step {kept kept' : TypeId → Prop} {new new' : List Member}
    (h : SameType r x.table y.table id) (hx : Untouched kept x x') (hy : Untouched kept' y y')
    (hgx : Grows x x') (hgy : Grows y y')
    (hdef : y'.table.definition id
      = { (x'.table.definition id).rename r with members := y'.table.members id })
    (hm : x'.table.members id = x.table.members id ++ new)
    (hm' : y'.table.members id = y.table.members id ++ new')
    (hnew : List.Forall₂ (SameMember r x'.table y'.table id) new new') :
    SameType r x'.table y'.table id := by
  refine ⟨hgx.shape.size ▸ h.left_lt, hgy.shape.size ▸ h.right_lt, hdef, ?_⟩
  rw [hm, hm']
  refine List.rel_append (h.members.imp fun m m' hmm => ?_) hnew
  exact hmm.untouched hx hy (hgx.shape.definitionType id)

/-- What is not about the type leaves it the same in both. -/
theorem SameType.untouched {kept kept' : TypeId → Prop} (h : SameType r x.table y.table id)
    (hx : Untouched kept x x') (hy : Untouched kept' y y') (hgx : Grows x x') (hgy : Grows y y')
    (hid : kept id) (hid' : kept' id) : SameType r x'.table y'.table id := by
  have hdef := hx.definition id hid
  have hdef' := hy.definition id hid'
  refine h.step hx hy hgx hgy ?_ ?_ ?_ .nil
  · rw [SymbolTable.members, hdef, hdef']
    exact h.definition
  · rw [SymbolTable.members, SymbolTable.members, hdef, List.append_nil]
  · rw [SymbolTable.members, SymbolTable.members, hdef', List.append_nil]

/-! ### Completing the type -/

/-- The methods of the type are the same, in order. -/
theorem SameType.methodsOf (h : SameType r a b id) :
    methodsOf b id = (methodsOf a id).map (Method.rename r) := by
  have hmembers := h.members
  rw [Outline.methodsOf, Outline.methodsOf]
  generalize a.members id = ms at hmembers ⊢
  generalize b.members id = ms' at hmembers ⊢
  induction hmembers with
  | nil => rfl
  | @cons m m' rest rest' hm _ ih =>
    cases hm with
    | type t => exact ih
    | method _ _ h => simp only [List.filterMap_cons, List.map_cons, h, ih]
    | value _ _ _ => exact ih
    | implicit _ _ _ h => simp only [List.filterMap_cons, List.map_cons, h, ih]

theorem SameType.implicitConstructor? (h : SameType r a b id) :
    implicitConstructor? b id = implicitConstructor? a id := by
  have hconstructors : (Outline.methodsOf b id).filter (·.kind = .constructor)
      = ((Outline.methodsOf a id).filter (·.kind = .constructor)).map (Method.rename r) := by
    rw [h.methodsOf, List.filter_map]
    rfl
  have hany : ∀ ms : List Method, (ms.map (Method.rename r)).any (·.parameters.isEmpty)
      = ms.any (·.parameters.isEmpty) := by
    intro ms
    simp [List.any_map, Function.comp_def, Method.rename]
  rw [Outline.implicitConstructor?, Outline.implicitConstructor?]
  simp only [h.kind, h.traits, hconstructors, hany, List.isEmpty_map]

theorem SameType.mightHoldExtensions (h : SameType r a b id) (hr : r.type id = id) :
    mightHoldExtensions b id = mightHoldExtensions a id := by
  rw [Outline.mightHoldExtensions, Outline.mightHoldExtensions, h.mayExtend hr, h.methodsOf,
    List.any_map]
  congr 2
  funext m
  exact hasThis_rename r m.parameters

theorem definition_withImplicit (o : Outline) {id : TypeId} (hlt : id.index < o.table.definitions.size)
    (access : Accessibility) : (o.withImplicit id access).table.definition id
      = { o.table.definition id with
          members := o.table.members id ++ [.method o.table.nextMethod] } :=
  (SymbolTable.definition_updateDefinition id id _).trans (if_pos ⟨rfl, hlt⟩)

/-- The constructor that the type has without declaring it. -/
theorem SameType.withImplicit (h : SameType r x.table y.table id) (hr : r.type id = id)
    (access : Accessibility) :
    SameType r (x.withImplicit id access).table (y.withImplicit id access).table id := by
  have hx := definition_withImplicit x h.left_lt access
  have hy := definition_withImplicit y h.right_lt access
  have hmembers : (x.withImplicit id access).table.members id
      = x.table.members id ++ [.method x.table.nextMethod] := congrArg TypeDefinition.members hx
  have hmembers' : (y.withImplicit id access).table.members id
      = y.table.members id ++ [.method y.table.nextMethod] := congrArg TypeDefinition.members hy
  have hmade : (x.withImplicit id access).table.method x.table.nextMethod
      = implicitMethod x.table id access :=
    (SymbolTable.method_addMethod _ _).trans (if_pos rfl)
  have hmade' : (y.withImplicit id access).table.method y.table.nextMethod
      = implicitMethod y.table id access :=
    (SymbolTable.method_addMethod _ _).trans (if_pos rfl)
  have hgx : Grows x (x.withImplicit id access) := grows_withImplicit id access
  have hlt : Holds (x.withImplicit id access).table (.method x.table.nextMethod) := by
    show _ < (x.table.addMethod _).methods.size
    rw [SymbolTable.size_addMethod]
    exact Nat.lt_succ_self _
  have hlt' : Holds (y.withImplicit id access).table (.method y.table.nextMethod) := by
    show _ < (y.table.addMethod _).methods.size
    rw [SymbolTable.size_addMethod]
    exact Nat.lt_succ_self _
  refine h.step (untouched_withImplicit x id access) (untouched_withImplicit y id access) hgx
    (grows_withImplicit id access) ?_ hmembers hmembers' (.cons ?_ .nil)
  · rw [hmembers', hx, hy, h.definition]
    rfl
  · have hkept : (x.withImplicit id access).table.method x.table.nextMethod
        = implicitMethod (x.withImplicit id access).table id access := by
      rw [hmade, implicitMethod, implicitMethod, hgx.shape.definitionType]
    refine .implicit hlt hlt' hkept ?_
    rw [hmade, hmade', implicitMethod, implicitMethod, h.definitionType hr]
    rfl

theorem SameType.addImplicit (h : SameType r x.table y.table id) (hr : r.type id = id) :
    SameType r (x.addImplicit id).table (y.addImplicit id).table id := by
  rw [addImplicit_eq, addImplicit_eq, h.implicitConstructor?]
  cases Outline.implicitConstructor? x.table id with
  | none => exact h
  | some access => exact h.withImplicit hr access

/-- Saying of the type whether to look for extension methods in it. -/
theorem SameType.flag (h : SameType r x.table y.table id) (might : Bool) :
    SameType r
      (x.table.updateDefinition id fun d =>
        { d with traits := { d.traits with mightHoldExtensions := might } })
      (y.table.updateDefinition id fun d =>
        { d with traits := { d.traits with mightHoldExtensions := might } }) id := by
  have hx := @SymbolTable.definition_updateDefinition x.table id id fun d =>
    { d with traits := { d.traits with mightHoldExtensions := might } }
  have hy := @SymbolTable.definition_updateDefinition y.table id id fun d =>
    { d with traits := { d.traits with mightHoldExtensions := might } }
  rw [if_pos ⟨rfl, h.left_lt⟩] at hx
  rw [if_pos ⟨rfl, h.right_lt⟩] at hy
  refine h.step ((Untouched.refl (· ≠ id) x).updateDefinition (fun hne => hne rfl) fun m hm => .inl hm)
    ((Untouched.refl (· ≠ id) y).updateDefinition (fun hne => hne rfl) fun m hm => .inl hm)
    (quiet_flag id might).grows (quiet_flag id might).grows ?_ ?_ ?_ .nil
  · rw [SymbolTable.members, hx, hy, h.definition]
    rfl
  · rw [SymbolTable.members, hx, List.append_nil]
    rfl
  · rw [SymbolTable.members, hy, List.append_nil]
    rfl

/-- **Completing the type in both outlines keeps it the same.** -/
theorem SameType.finish (h : SameType r x.table y.table id) (hr : r.type id = id) :
    SameType r (x.finish id).table (y.finish id).table id := by
  have hadded := h.addImplicit hr
  rw [Outline.finish, Outline.finish, hadded.mightHoldExtensions hr]
  exact hadded.flag _

/-- **Completing types in both outlines keeps the types in front the same.** -/
theorem sameType_foldl_finish (hr : ∀ id : TypeId, id.index < n → r.type id = id) {ids : List TypeId}
    (hids : ∀ id ∈ ids, id.index < n)
    (h : ∀ id : TypeId, id.index < n → SameType r x.table y.table id) (id : TypeId)
    (hid : id.index < n) :
    SameType r (ids.foldl finish x).table (ids.foldl finish y).table id := by
  induction ids generalizing x y with
  | nil => exact h id hid
  | cons first rest ih =>
    have hfirst := hids first List.mem_cons_self
    refine ih (fun other hother => hids other (List.mem_cons_of_mem first hother))
      fun other hother => ?_
    by_cases he : other = first
    · subst he
      exact (h other hother).finish (hr other hother)
    · exact (h other hother).untouched (untouched_finish x first) (untouched_finish y first)
        (grows_finish x first) (grows_finish y first) he he

end

end ExtensionCensus.Binding.Outline
