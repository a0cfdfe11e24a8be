import ExtensionCensus.Extension.Container
import ExtensionCensus.Proofs.Binding.Making
import ExtensionCensus.Proofs.Source.Items

/-!
# Qualifying methods

Which of the methods that binding makes are extension methods.

* `extension_readMember?`, `extensionForms_eq` — **the forms that declare extension methods are read
  off static methods whose first parameter carries `this`**;
* `SymbolTable.any_isQualifying` — a type has qualifying members exactly if it has extension methods;
* `extensionMethods_of_makes` — **the extension methods of a type are those that were made from such
  forms, in order**.
-/

namespace ExtensionCensus

open Source (Declared ReadAs MethodForm MemberForm TypeDeclaration isExtensionNode readMember?
  readOrdinary?)

/-! ### Forms and nodes -/

/-- A type of the kind lists the methods in its body. -/
def Source.listsMethods (kind : DefinitionKind) : Bool :=
  kind ≠ .enumType && kind ≠ .delegateType

open Source (listsMethods)

namespace Binding

open Outline (declaresExtension receives methodForms formsOf)

/-- The method among the members that a node is read as. -/
def methodOf? : MemberForm → Option MethodForm
  | .method m => some m
  | .values _ => none

/-- The form of a constructor declares no extension method. -/
theorem declaresExtension_readConstructor (source : Text.Bytes) (n : Source.Node) :
    declaresExtension (Source.readConstructor source n) = false := by
  have hkind : (Source.readConstructor source n).kind ≠ .ordinary := by
    rw [Source.readConstructor]
    split <;> exact fun h => by cases h
  rw [declaresExtension, decide_eq_false hkind]
  rfl

/-- The form of a named method declares an extension method if its node is one of that sort. -/
theorem filter_readOrdinary? {source : Text.Bytes} {n : Source.Node}
    (hk : n.kind = "method_declaration") :
    (readOrdinary? source n).filter declaresExtension
      = if isExtensionNode source n then readOrdinary? source n else none := by
  rw [readOrdinary?, isExtensionNode, decide_eq_true hk]
  cases Source.nameNode? n with
  | none => rfl
  | some name =>
    have hreceives : ∀ m : MethodForm, m.parameters = Source.readParameters source n →
        receives m = ((Source.parameterNodes n).head?.map fun p =>
          (Source.parameterWordsOf source p).contains "this").getD false := by
      intro m hm
      rw [receives, hm, Source.readParameters, List.head?_map, Option.map_map]
      rfl
    rw [Option.map_some, Option.filter_some, declaresExtension, hreceives _ rfl]
    rfl

/-- **A node is read as a form that declares an extension method exactly if it is a static method
whose first parameter carries `this`.** -/
theorem extension_readMember? (source : Text.Bytes) (n : Source.Node) :
    ((readMember? source n).bind methodOf?).filter declaresExtension
      = if isExtensionNode source n then readOrdinary? source n else none := by
  by_cases hk : n.kind = "method_declaration"
  · have hmember : readMember? source n = (readOrdinary? source n).map .method := by
      simp only [readMember?, hk]
    have hmethod : (readMember? source n).bind methodOf? = readOrdinary? source n := by
      rw [hmember]
      cases readOrdinary? source n <;> rfl
    rw [hmethod, filter_readOrdinary? hk]
  · rw [isExtensionNode, decide_eq_false hk, readMember?]
    split
    · next h => exact absurd h hk
    · rw [Option.bind_some, methodOf?, Option.filter_some, declaresExtension_readConstructor]
      rfl
    · rfl
    · rfl
    · rfl
    · cases Source.readVariables? source n .field <;> rfl
    · cases Source.readVariables? source n .event <;> rfl
    · cases Source.nameNode? n <;> rfl
    · cases Source.nameNode? n <;> rfl
    · rfl
    · rfl

/-- The forms that declare extension methods of a type of some kind. -/
def extensionForms (kind : DefinitionKind) (d : TypeDeclaration) : List MethodForm :=
  if listsMethods kind then (methodForms d.members).filter declaresExtension else []

/-- What a delegate and a primary constructor make is no extension method. -/
theorem filter_formsOf (kind : DefinitionKind) (part : DeclaredPart) :
    (formsOf kind part).filter declaresExtension = extensionForms kind part.form := by
  have hconstructor : (if part.form.hasParameterList then [Outline.primaryConstructorForm part]
      else []).filter declaresExtension = [] := by
    split <;> rfl
  cases kind with
  | delegateType => rfl
  | enumType => rfl
  | classType | structType | interfaceType =>
    rw [formsOf, List.filter_append, hconstructor, List.nil_append]
    · rfl
    all_goals exact fun h => by cases h

/-- **The forms that declare extension methods are read off the nodes of extension methods.** -/
theorem extensionForms_eq {d : Declared} {form : TypeDeclaration}
    (h : ReadAs d.source d.node form) (kind : DefinitionKind) :
    extensionForms kind form = if listsMethods kind then
      d.extensionNodes.filterMap (readOrdinary? d.source) else [] := by
  have hmembers := h.members
  rw [extensionForms, methodForms, Declared.extensionNodes]
  cases hbody : Source.body? d.node with
  | none =>
    rw [hbody] at hmembers
    rw [hmembers]
    rfl
  | some body =>
    rw [hbody] at hmembers
    rw [hmembers]
    refine congrArg (fun forms => if listsMethods kind then forms else []) ?_
    show ((body.children.filterMap (readMember? d.source)).filterMap methodOf?).filter
      declaresExtension = _
    rw [List.filterMap_filterMap, List.filter_filterMap, List.filterMap_filter]
    exact List.filterMap_congr fun n _ => extension_readMember? d.source n

end Binding

/-! ### Methods -/

namespace SymbolTable

theorem extensionMethods_eq (table : SymbolTable) (id : TypeId) :
    table.extensionMethods id
      = (table.methodIds id).filter fun m => table.isQualifying (.method m) := by
  rw [extensionMethods, members, methodIds, methodsAmong, List.filter_filterMap]
  refine List.filterMap_congr fun member _ => ?_
  cases member with
  | method m => rw [Option.filter_some]
  | type t => rfl
  | value v => rfl

/-- Some member is an extension method exactly if there are extension methods. -/
theorem any_isQualifying (table : SymbolTable) (id : TypeId) :
    (table.members id).any table.isQualifying = true ↔ table.extensionMethods id ≠ [] := by
  rw [List.any_eq_true]
  constructor
  · rintro ⟨member, hmem, hq⟩
    cases member with
    | method m => exact List.ne_nil_of_mem (List.mem_filterMap.mpr ⟨.method m, hmem, if_pos hq⟩)
    | type t => cases hq
    | value v => cases hq
  · intro hne
    obtain ⟨m, hm⟩ := List.exists_mem_of_ne_nil _ hne
    rw [extensionMethods_eq] at hm
    obtain ⟨hmem, hq⟩ := List.mem_filter.mp hm
    obtain ⟨member, hmember, hsome⟩ := List.mem_filterMap.mp hmem
    cases member with
    | method k =>
      cases hsome
      exact ⟨.method _, hmember, hq⟩
    | type t => cases hsome
    | value v => cases hsome

end SymbolTable

namespace Binding.Outline

section

variable {a b : Outline} {forms : List (TypeId × MethodForm)}

/-- A method is an extension method with a receiver exactly if its form declares one and its type
may hold it. -/
theorem Implements.isQualifying {table : SymbolTable} {owner : TypeId} {id : MethodId}
    {m : MethodForm} (h : Implements table owner id m) :
    table.isQualifying (.method id) = (declaresExtension m && mayExtend table owner) := by
  rw [SymbolTable.isQualifying, h.isExtension]
  cases hd : declaresExtension m with
  | false => rfl
  | true =>
    -- a form with a receiver has parameters, and so has the method
    have hlength := congrArg List.length h.parameters
    rw [List.length_map, List.length_map] at hlength
    have hreceives : receives m = true := (Bool.and_eq_true_iff.mp hd).2
    have hne : (table.method id).parameters ≠ [] := by
      intro hnil
      rw [hnil, List.length_nil] at hlength
      rw [receives, List.eq_nil_of_length_eq_zero hlength.symm] at hreceives
      cases hreceives
    rw [List.isEmpty_eq_false_iff.mpr hne, Bool.not_false, Bool.and_true]

/-- The forms among some that declare extension methods of a type. -/
def extensionFormsOf (table : SymbolTable) (forms : List (TypeId × MethodForm)) (id : TypeId) :
    List MethodForm :=
  (forms.filter fun f => f.1 = id && (declaresExtension f.2 && mayExtend table id)).map (·.2)

/-- **The extension methods of a type are those that were made from forms that declare some, in
order, and no two of them are the same.** -/
theorem extensionMethods_of_makes (h : Makes a b forms) {id : TypeId}
    (hempty : a.table.methodIds id = []) :
    List.Forall₂ (Implements b.table id) (b.table.extensionMethods id)
        (extensionFormsOf a.table forms id) ∧
      (b.table.extensionMethods id).Nodup := by
  obtain ⟨made, rfl, hgains⟩ := h.made
  -- both lists come from the same made methods
  have hmethods : b.table.extensionMethods id = (made.filter fun e =>
      e.owner = id && (declaresExtension e.form && mayExtend a.table id)).map (·.id) := by
    rw [SymbolTable.extensionMethods_eq, hgains.methodIds, hempty, List.nil_append, List.filter_map,
      List.filter_filter]
    refine congrArg _ (List.filter_congr fun e he => ?_)
    have hq := (hgains.implements e he).isQualifying
    rw [mayExtend_grows h.grows] at hq
    by_cases howner : e.owner = id
    · rw [Function.comp_apply, hq, howner, decide_eq_true rfl, Bool.true_and, Bool.and_true]
    · rw [decide_eq_false howner, Bool.false_and, Bool.and_false]
  have hforms : extensionFormsOf a.table (made.map fun e => (e.owner, e.form)) id
      = (made.filter fun e =>
        e.owner = id && (declaresExtension e.form && mayExtend a.table id)).map (·.form) := by
    rw [extensionFormsOf, List.filter_map, List.map_map]
    rfl
  refine ⟨?_, ?_⟩
  · rw [hmethods, hforms, List.forall₂_map_left_iff, List.forall₂_map_right_iff, List.forall₂_same]
    intro e he
    obtain ⟨hmem, hcond⟩ := List.mem_filter.mp he
    have howner : e.owner = id := of_decide_eq_true (Bool.and_eq_true_iff.mp hcond).1
    exact howner ▸ hgains.implements e hmem
  · rw [hmethods]
    refine List.Pairwise.map _ ?_ (hgains.ordered.filter _)
    intro e f hlt he
    rw [he] at hlt
    exact Nat.lt_irrefl _ hlt

end

end Binding.Outline

end ExtensionCensus
