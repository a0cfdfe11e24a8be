import ExtensionCensus.Proofs.Binding.Frame
import ExtensionCensus.Proofs.Binding.Nesting
import ExtensionCensus.Proofs.Symbol.Renaming
import Mathlib.Data.List.Find

/-!
# Tables with the same types in front

Two tables may declare the same types in front, with the same methods, fields, properties and events,
while one of them declares more types behind.  This is stated up to a renaming that leaves what is in
front where it is, since such a renaming may still tell whether a type expression is about nothing
else.

* `Renaming.Fixes` — a renaming that leaves some types and all methods where they are;
* `SymbolTable.Alike` — the tables have the same in front;
* `Alike.definitionType`, `Alike.nestedTypes`, `Alike.typeParameter` — what is read off such tables;
* `Alike.updateDefinition`, `Alike.addMethod`, `Alike.constrain`, … — **the same change of both keeps
  this**.
-/

namespace ExtensionCensus

/-- The renaming leaves the first `n` types, and all methods, where they are. -/
structure Renaming.Fixes (r : Renaming) (n : Nat) : Prop where
  type : ∀ id : TypeId, id.index < n → r.type id = id
  method : ∀ m : MethodId, r.method m = m

/-! ### Lists and arrays that are mapped -/

theorem map_modify_comm {α : Type} {f g g' : α → α} (h : ∀ x, f (g x) = g' (f x)) (xs : List α)
    (i : Nat) : (xs.modify i g).map f = (xs.map f).modify i g' := by
  refine List.ext_getElem? fun j => ?_
  rw [List.getElem?_map, List.getElem?_modify, List.getElem?_modify, List.getElem?_map]
  split <;> cases xs[j]? <;> simp [h]

theorem map_modify_array {α : Type} {f g g' : α → α} (h : ∀ x, f (g x) = g' (f x)) (xs : Array α)
    (i : Nat) : (xs.modify i g).map f = (xs.map f).modify i g' := by
  refine Array.ext_getElem? fun j => ?_
  rw [Array.getElem?_map, Array.getElem?_modify, Array.getElem?_modify, Array.getElem?_map]
  split <;> cases xs[j]? <;> simp [h]

/-- What is at a place of an array that is mapped. -/
theorem getD_map {α : Type} [Inhabited α] {f : α → α} (hf : f default = default) (xs : Array α)
    (i : Nat) : (xs.map f)[i]?.getD default = f (xs[i]?.getD default) := by
  rw [Array.getElem?_map]
  cases xs[i]? with
  | none => exact hf.symm
  | some x => rfl

/-- What is at a place of a list that is mapped. -/
theorem getD_map_list {α : Type} [Inhabited α] {f : α → α} (hf : f default = default) (xs : List α)
    (i : Nat) : (xs.map f)[i]?.getD default = f (xs[i]?.getD default) := by
  rw [List.getElem?_map]
  cases xs[i]? with
  | none => exact hf.symm
  | some x => rfl

namespace SymbolTable

/-- The first `n` types of both tables are the same up to the renaming, and so are all methods,
fields, properties and events. -/
structure Alike (r : Renaming) (n : Nat) (a b : SymbolTable) : Prop where
  definition : ∀ id : TypeId, id.index < n → b.definition id = (a.definition id).rename r
  methods : b.methods = a.methods.map (Method.rename r)
  values : b.values = a.values.map (ValueMember.rename r)
  left_le : n ≤ a.definitions.size
  right_le : n ≤ b.definitions.size

namespace Alike

variable {r : Renaming} {n : Nat} {a b : SymbolTable} {id : TypeId}

/-! ### Reading -/

theorem method (h : Alike r n a b) (m : MethodId) : b.method m = (a.method m).rename r := by
  rw [SymbolTable.method, SymbolTable.method, h.methods]
  exact getD_map rfl _ _

theorem value (h : Alike r n a b) (v : ValueId) : b.value v = (a.value v).rename r := by
  rw [SymbolTable.value, SymbolTable.value, h.values]
  exact getD_map rfl _ _

theorem nextMethod (h : Alike r n a b) : b.nextMethod = a.nextMethod := by
  rw [SymbolTable.nextMethod, SymbolTable.nextMethod, h.methods, Array.size_map]

theorem nextValue (h : Alike r n a b) : b.nextValue = a.nextValue := by
  rw [SymbolTable.nextValue, SymbolTable.nextValue, h.values, Array.size_map]

theorem typeParameters (h : Alike r n a b) (hid : id.index < n) :
    (b.definition id).typeParameters
      = (a.definition id).typeParameters.map (TypeParameter.rename r) := by
  rw [h.definition id hid]
  rfl

theorem arity (h : Alike r n a b) (hid : id.index < n) : b.arity id = a.arity id := by
  rw [SymbolTable.arity, SymbolTable.arity, h.typeParameters hid, List.length_map]

theorem key (h : Alike r n a b) (hid : id.index < n) : b.key id = a.key id := by
  rw [SymbolTable.key, SymbolTable.key, h.arity hid, h.definition id hid]
  rfl

theorem kind (h : Alike r n a b) (hid : id.index < n) :
    (b.definition id).kind = (a.definition id).kind := by
  rw [h.definition id hid]
  rfl

theorem traits (h : Alike r n a b) (hid : id.index < n) :
    (b.definition id).traits = (a.definition id).traits := by
  rw [h.definition id hid]
  rfl

theorem members (h : Alike r n a b) (hid : id.index < n) :
    b.members id = (a.members id).map (Member.rename r) := by
  rw [SymbolTable.members, SymbolTable.members, h.definition id hid]
  rfl

theorem isTopLevel (h : Alike r n a b) (hid : id.index < n) :
    b.isTopLevel id = a.isTopLevel id :=
  isTopLevel_rename (congrArg TypeDefinition.container (h.definition id hid))

theorem typeParametersOf (hr : r.Fixes n) (h : Alike r n a b) (hid : id.index < n) :
    b.typeParametersOf id = (a.typeParametersOf id).map r.parameter := by
  rw [rename_typeParametersOf, hr.type id hid, SymbolTable.typeParametersOf, h.typeParameters hid,
    List.length_map]

theorem definitionType (hr : r.Fixes n) (h : Alike r n a b) (hid : id.index < n) :
    b.definitionType id = (a.definitionType id).rename r := by
  have hsame := hr.type id hid
  refine (congrArg b.definitionType hsame).symm.trans (definitionType_rename ?_ ?_)
  · rw [hsame, h.definition id hid]
    rfl
  · rw [hsame, h.typeParameters hid, List.length_map]

theorem methodTypeParameters (hr : r.Fixes n) (h : Alike r n a b) (m : MethodId) :
    b.methodTypeParameters m = (a.methodTypeParameters m).map r.parameter := by
  rw [SymbolTable.methodTypeParameters, SymbolTable.methodTypeParameters, h.method, Method.rename,
    List.length_map, List.map_map]
  refine List.map_congr_left fun i _ => ?_
  show TypeParameterRef.ofMethod m i = .ofMethod (r.method m) i
  rw [hr.method]

/-- The types nested in a type in front, if these are in front too. -/
theorem nestedTypes (hr : r.Fixes n) (h : Alike r n a b) (hid : id.index < n)
    (hlt : ∀ t ∈ a.nestedTypes id, t.index < n) : b.nestedTypes id = a.nestedTypes id := by
  have hmembers : b.nestedTypes id = (a.nestedTypes id).map r.type := by
    rw [SymbolTable.nestedTypes, SymbolTable.nestedTypes, h.members hid, List.filterMap_map,
      List.map_filterMap]
    refine List.filterMap_congr fun m _ => ?_
    cases m <;> rfl
  rw [hmembers]
  exact (List.map_congr_left fun t ht => hr.type t (hlt t ht)).trans (List.map_id _)

theorem nestedType? (hr : r.Fixes n) (h : Alike r n a b) (hid : id.index < n)
    (hlt : ∀ t ∈ a.nestedTypes id, t.index < n) (key : TypeKey) :
    b.nestedType? id key = a.nestedType? id key := by
  rw [SymbolTable.nestedType?, SymbolTable.nestedType?, h.nestedTypes hr hid hlt]
  refine List.find?_congr fun t ht => ?_
  rw [h.key (hlt t ht)]

/-- The type parameter belongs to a method, or to one of the first `n` types. -/
def InFront (n : Nat) : TypeParameterRef → Prop
  | .ofType id _ => id.index < n
  | .ofMethod _ _ => True
  | .free _ => False

theorem parameter_eq (hr : r.Fixes n) {p : TypeParameterRef} (hp : InFront n p) :
    r.parameter p = p := by
  cases p with
  | ofType id i => exact congrArg (TypeParameterRef.ofType · i) (hr.type id hp)
  | ofMethod m i => exact congrArg (TypeParameterRef.ofMethod · i) (hr.method m)
  | free i => rfl

theorem typeParameter (h : Alike r n a b) {p : TypeParameterRef} (hp : InFront n p) :
    b.typeParameter p = (a.typeParameter p).rename r := by
  cases p with
  | ofType id i =>
    rw [SymbolTable.typeParameter, SymbolTable.typeParameter, h.typeParameters hp]
    exact getD_map_list rfl _ _
  | ofMethod m i =>
    rw [SymbolTable.typeParameter, SymbolTable.typeParameter, h.method]
    exact getD_map_list rfl _ _
  | free i => cases hp

/-! ### Changing -/

/-- Tables with the same definitions, methods and values as two that have the same in front. -/
theorem congr {a' b' : SymbolTable} (h : Alike r n a b) (ha : a'.definitions = a.definitions)
    (hb : b'.definitions = b.definitions) (hma : a'.methods = a.methods)
    (hmb : b'.methods = b.methods) (hva : a'.values = a.values) (hvb : b'.values = b.values) :
    Alike r n a' b' where
  definition id hid := by
    have hdef := h.definition id hid
    rwa [SymbolTable.definition, SymbolTable.definition, ← ha, ← hb] at hdef
  methods := by rw [hma, hmb, h.methods]
  values := by rw [hva, hvb, h.values]
  left_le := ha ▸ h.left_le
  right_le := hb ▸ h.right_le

/-- The same change of a definition in front. -/
theorem updateDefinition (h : Alike r n a b) (hid : id.index < n)
    {f g : TypeDefinition → TypeDefinition} (hfg : ∀ d, g (d.rename r) = (f d).rename r) :
    Alike r n (a.updateDefinition id f) (b.updateDefinition id g) where
  definition other hother := by
    rw [definition_updateDefinition, definition_updateDefinition]
    by_cases he : other = id
    · rw [if_pos ⟨he, Nat.lt_of_lt_of_le hid h.right_le⟩,
        if_pos ⟨he, Nat.lt_of_lt_of_le hid h.left_le⟩, h.definition id hid, hfg]
    · rw [if_neg fun hn => he hn.1, if_neg fun hn => he hn.1, h.definition other hother]
  methods := h.methods
  values := h.values
  left_le := by rw [size_updateDefinition]; exact h.left_le
  right_le := by rw [size_updateDefinition]; exact h.right_le

/-- The same change of a method. -/
theorem updateMethod (h : Alike r n a b) (m : MethodId) {f g : Method → Method}
    (hfg : ∀ x, g (x.rename r) = (f x).rename r) :
    Alike r n (a.updateMethod m f) (b.updateMethod m g) :=
  { h with
    methods := by
      show b.methods.modify m.index g = (a.methods.modify m.index f).map (Method.rename r)
      rw [h.methods, map_modify_array fun x => (hfg x).symm] }

theorem addMethod (h : Alike r n a b) (m : Method) :
    Alike r n (a.addMethod m) (b.addMethod (m.rename r)) :=
  { h with
    methods := by
      show b.methods.push (m.rename r) = (a.methods.push m).map (Method.rename r)
      rw [h.methods, Array.map_push] }

theorem addValue (h : Alike r n a b) (v : ValueMember) :
    Alike r n (a.addValue v) (b.addValue (v.rename r)) :=
  { h with
    values := by
      show b.values.push (v.rename r) = (a.values.push v).map (ValueMember.rename r)
      rw [h.values, Array.map_push] }

theorem addMember (h : Alike r n a b) (hid : id.index < n) (m : Member) :
    Alike r n (a.addMember id m) (b.addMember id (m.rename r)) := by
  refine h.updateDefinition hid fun d => ?_
  simp [TypeDefinition.rename]

theorem note (h : Alike r n a b) (t u : Ty) : Alike r n (a.note t) (b.note u) := by
  obtain ⟨instances, ha⟩ := note_eq a t
  obtain ⟨instances', hb⟩ := note_eq b u
  rw [ha, hb]
  exact h.congr rfl rfl rfl rfl rfl rfl

/-- One more constraint on a type parameter, after the same ones. -/
theorem rename_modify (q : List TypeParameter) (i : Nat) (c : Constraint) :
    (q.map (TypeParameter.rename r)).modify i
        (fun tp => { tp with constraints := tp.constraints ++ [c.rename r] })
      = (q.modify i fun tp => { tp with constraints := tp.constraints ++ [c] }).map
        (TypeParameter.rename r) := by
  refine (map_modify_comm (fun tp => ?_) q i).symm
  simp [TypeParameter.rename]

theorem constrain (hr : r.Fixes n) (h : Alike r n a b) {p : TypeParameterRef} (hp : InFront n p)
    (c : Constraint) : Alike r n (a.constrain p c) (b.constrain (r.parameter p) (c.rename r)) := by
  rw [parameter_eq hr hp]
  cases p with
  | ofType id i =>
    refine h.updateDefinition hp fun d => ?_
    simp only [TypeDefinition.rename, rename_modify]
  | ofMethod m i =>
    refine h.updateMethod m fun x => ?_
    simp only [Method.rename, rename_modify]
  | free i => cases hp

end Alike

end SymbolTable

theorem Binding.Outline.hasThis_rename (r : Renaming) (ps : List Parameter) :
    hasThis (ps.map (Parameter.rename r)) = hasThis ps := by
  cases ps <;> rfl

end ExtensionCensus
