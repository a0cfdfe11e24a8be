import ExtensionCensus.Proofs.Binding.Completing
import ExtensionCensus.Proofs.Extension.Classifying
import ExtensionCensus.Proofs.Extension.Containers

/-!
# What is said of a type

All that a bound table says of a type, and two tables that say the same.

* `SymbolTable.Content`, `SymbolTable.contents` — the members of a type, as they are declared;
* `SymbolTable.SameAccount` — two tables have the same definition, members, texts and record of a type;
* `Renaming.behind` — the renaming that moves what is behind, and so tells types in front from others;
* `Retained.sameAccount` — **a table whose types are all the same in another one, however what is behind
  them is moved, has the same account of each of them there**.
-/

namespace ExtensionCensus

namespace SymbolTable

/-! ### Accounts -/

/-- What is declared of a member. A nested type has an account of its own. -/
inductive Content where
  | type (id : TypeId)
  | method (m : Method)
  | value (v : ValueMember)

variable (table : SymbolTable)

/-- What the table declares of a member. -/
def content : Member → Content
  | .type id => .type id
  | .method m => .method (table.method m)
  | .value v => .value (table.value v)

/-- What the table declares of the members of a type, in order. -/
def contents (id : TypeId) : List Content :=
  (table.members id).map table.content

/-- A member as it is shown. -/
def displayMember : Member → String
  | .type id => table.display (table.definitionType id)
  | .method m => table.displayMethod (table.method m)
  | .value v => table.displayValue (table.value v)

/-- Both tables say the same of the type: how it is declared, with its accessibility and its flags,
what its members are, how it and they are shown, whether it holds extension methods, and what the
report says of it. -/
structure SameAccount (a b : SymbolTable) (id : TypeId) : Prop where
  definition : b.definition id = { a.definition id with members := b.members id }
  contents : b.contents id = a.contents id
  text : b.display (b.definitionType id) = a.display (a.definitionType id)
  memberTexts : (b.members id).map b.displayMember = (a.members id).map a.displayMember
  clauses : (b.definition id).typeParameters.map b.constraintClause
    = (a.definition id).typeParameters.map a.constraintClause
  holds : b.holdsExtensions (b.definitionType id) id = a.holdsExtensions (a.definitionType id) id
  record : b.containerRecord (b.definitionType id) id = a.containerRecord (a.definitionType id) id

/-- By what is declared of it a member is an extension method with a receiver. -/
def Content.isQualifying : Content → Bool
  | .method m => m.isExtension && !m.parameters.isEmpty
  | _ => false

theorem isQualifying_eq (m : Member) : table.isQualifying m = (table.content m).isQualifying := by
  cases m <;> rfl

/-- Whether some member passes a test on what is declared of it. -/
theorem any_contents (id : TypeId) (test : Content → Bool) :
    (table.members id).any (fun m => test (table.content m)) = (table.contents id).any test := by
  rw [contents, List.any_map]
  rfl

theorem holdsExtensions_eq (id : TypeId) : table.holdsExtensions (table.definitionType id) id
    = ((table.definition id).traits.mightHoldExtensions &&
        (table.contents id).any Content.isQualifying) := by
  rw [holdsExtensions, Binding.Outline.traits_definitionType, ← any_contents]
  simp only [← isQualifying_eq]

theorem hasOtherMembers_eq (id : TypeId) : table.hasOtherMembers id
    = (table.contents id).any (!·.isQualifying) := by
  rw [hasOtherMembers, ← any_contents]
  simp only [isQualifying_eq]

end SymbolTable

/-! ### A renaming that moves what is behind -/

/-- Moves all types but the first `n` by `k` places. -/
def Renaming.behind (n k : Nat) : Renaming where
  type id := if id.index < n then id else ⟨id.index + k⟩
  method m := m

theorem Renaming.fixes_behind (n k : Nat) : (Renaming.behind n k).Fixes n :=
  ⟨fun _ hid => if_pos hid, fun _ => rfl⟩

theorem Renaming.fixes_same (n : Nat) : Renaming.same.Fixes n :=
  ⟨fun _ _ => rfl, fun _ => rfl⟩

namespace Binding.Outline

open SymbolTable (SameFaces SameParameter Scoped Nests SameAccount Content)

/-- The renaming that moves what is behind all types of `a` out of `b`. -/
abbrev apart (a b : SymbolTable) : Renaming :=
  .behind a.definitions.size b.definitions.size

/-- All types of `a` are the same in `b`, both as they are and when what is behind them is moved; and
`a` is well-formed. -/
structure Retained (a b : SymbolTable) : Prop where
  same : ∀ id : TypeId, id.index < a.definitions.size → SameType .same a b id
  apart : ∀ id : TypeId, id.index < a.definitions.size → SameType (apart a b) a b id
  wellScoped : Scoped a
  nests : Nests a
  nested_lt : ∀ id, ∀ t ∈ a.nestedTypes id, t.index < a.definitions.size
  container : ∀ id, ∀ m ∈ a.methodIds id, (a.method m).container = some (a.definitionType id)

section

variable {a b : SymbolTable} {id : TypeId} {m m' : Member} {k : MethodId}

/-! ### Types and what is declared of them -/

theorem Retained.definition (h : Retained a b) (hid : id.index < a.definitions.size) :
    b.definition id = { a.definition id with members := b.members id } := by
  rw [(h.same id hid).definition, TypeDefinition.rename, Container.rename_same,
    List.map_congr_left fun q _ => TypeParameter.rename_same q, List.map_id']

theorem Retained.definitionType (h : Retained a b) (hid : id.index < a.definitions.size) :
    b.definitionType id = a.definitionType id := by
  rw [(h.same id hid).definitionType rfl, Ty.rename_same]

theorem SameMember.content (h : SameMember .same a b id m m') : b.content m' = a.content m := by
  cases h with
  | type t => rfl
  | method _ _ h => exact congrArg Content.method (h.trans (Method.rename_same _))
  | value _ _ h => exact congrArg Content.value (h.trans (ValueMember.rename_same _))
  | implicit _ _ _ h' => exact congrArg Content.method (h'.trans (Method.rename_same _))

/-- **The members of a type are declared as they were.** -/
theorem Retained.contents (h : Retained a b) (hid : id.index < a.definitions.size) :
    b.contents id = a.contents id := by
  rw [SymbolTable.contents, SymbolTable.contents]
  refine (map_eq_map_of_forall₂ (h.same id hid).members fun m _ m' hmm => ?_).symm
  exact hmm.content.symm

/-- An extension method is where it was. -/
theorem SameType.extensionMethod {r : Renaming} (h : SameType r a b id)
    (hk : .method k ∈ a.members id) (hextends : (a.method k).isExtension = true) :
    Holds a (.method k) ∧ b.method k = (a.method k).rename r := by
  obtain ⟨m', -, hmm⟩ := exists_of_mem_left h.members hk
  cases hmm with
  | method hheld _ hrename => exact ⟨hheld, hrename⟩
  | implicit _ _ himplicit _ =>
    rw [himplicit] at hextends
    cases hextends

/-- **The type has the same extension methods, where they were.** -/
theorem Retained.extensionMethods (h : Retained a b) (hid : id.index < a.definitions.size) :
    b.extensionMethods id = a.extensionMethods id := by
  have hmembers := (h.same id hid).members
  rw [SymbolTable.extensionMethods, SymbolTable.extensionMethods]
  generalize a.members id = ms at hmembers ⊢
  generalize b.members id = ms' at hmembers ⊢
  induction hmembers with
  | nil => rfl
  | @cons m m' rest rest' hmm _ ih =>
    have hqualifying : b.isQualifying m' = a.isQualifying m := by
      rw [SymbolTable.isQualifying_eq, SymbolTable.isQualifying_eq, hmm.content]
    cases hmm with
    | type t => exact ih
    | method _ _ _ => simp only [List.filterMap_cons, hqualifying, ih]
    | value _ _ _ => exact ih
    | @implicit k k' access _ _ himplicit _ =>
      -- a constructor without parameters is no extension method, wherever it is
      have hnot : a.isQualifying (.method k) = false := by
        rw [SymbolTable.isQualifying, himplicit]
        rfl
      simp only [List.filterMap_cons, hqualifying, hnot, Bool.false_eq_true, ↓reduceIte]
      exact ih

/-! ### What is shown -/

/-- Every type of `a` is declared alike where the renaming puts it, and what is behind is nowhere. -/
theorem Retained.definition_apart (h : Retained a b) (id : TypeId) :
    b.definition ((Outline.apart a b).type id)
      = { (a.definition id).rename (Outline.apart a b) with
          members := (b.definition ((Outline.apart a b).type id)).members } := by
  by_cases hid : id.index < a.definitions.size
  · rw [(Renaming.fixes_behind _ _).type id hid]
    exact (h.apart id hid).definition
  · have hmoved : (Outline.apart a b).type id = ⟨id.index + b.definitions.size⟩ := if_neg hid
    rw [hmoved, SymbolTable.definition_of_size_le (Nat.le_of_not_lt hid),
      SymbolTable.definition_of_size_le (Nat.le_add_left _ _)]
    rfl

theorem Retained.faces (h : Retained a b) : SameFaces (Outline.apart a b) a b := by
  constructor <;> intro id <;> rw [h.definition_apart id] <;> rfl

/-- Type parameters of types are declared alike. -/
theorem Retained.sameParameter (h : Retained a b) {p : TypeParameterRef}
    (hp : ∃ owner i, p = .ofType owner i) : SameParameter (Outline.apart a b) a b p := by
  obtain ⟨owner, i, rfl⟩ := hp
  have hparameters := congrArg TypeDefinition.typeParameters (h.definition_apart owner)
  show ((b.definition ((Outline.apart a b).type owner)).typeParameters[i]?).getD default = _
  rw [hparameters]
  exact getD_map_list rfl _ _

/-- In the signature of a method only type parameters occur that are declared alike. -/
theorem Retained.within_method (h : Retained a b) (hheld : Holds a (.method k))
    (hk : b.method k = (a.method k).rename (Outline.apart a b)) {t : Ty}
    (ht : t ∈ (a.method k).types) : t.Within (SameParameter (Outline.apart a b) a b) := by
  obtain ⟨owner, -, htypes⟩ := h.wellScoped.methods k hheld
  refine (htypes t ht).mono fun p hp => ?_
  rcases hp with hown | ⟨top, -, hp⟩
  · obtain ⟨i, -, rfl⟩ := List.mem_map.mp hown
    show ((b.method k).typeParameters[i]?).getD default = _
    rw [hk]
    exact getD_map_list rfl _ _
  · obtain ⟨i, -, rfl⟩ := List.mem_map.mp hp
    exact h.sameParameter ⟨top, i, rfl⟩

theorem Retained.text (h : Retained a b) (hid : id.index < a.definitions.size) :
    b.display (b.definitionType id) = a.display (a.definitionType id) := by
  rw [(h.apart id hid).definitionType ((Renaming.fixes_behind _ _).type id hid)]
  refine h.faces.display_rename _ ?_
  exact (h.nests.within_definitionType id hid).mono fun p hp => h.sameParameter hp

/-- **A member is shown as it was.** -/
theorem Retained.displayMember (h : Retained a b) (hm : m ∈ a.members id)
    (hmm : SameMember (Outline.apart a b) a b id m m') : b.displayMember m' = a.displayMember m := by
  cases hmm with
  | type t => exact h.text (h.nested_lt id t (List.mem_filterMap.mpr ⟨_, hm, rfl⟩))
  | @method k hheld _ hk =>
    rw [SymbolTable.displayMember, SymbolTable.displayMember, hk]
    exact h.faces.displayMethod_rename fun t ht => h.within_method hheld hk ht
  | @value v hheld _ hv =>
    obtain ⟨owner, -, htypes⟩ := h.wellScoped.values v hheld
    rw [SymbolTable.displayMember, SymbolTable.displayMember, hv]
    refine h.faces.displayValue_rename fun t ht => (htypes t ht).mono fun p hp => ?_
    obtain ⟨top, -, hp⟩ := hp
    obtain ⟨i, -, rfl⟩ := List.mem_map.mp hp
    exact h.sameParameter ⟨top, i, rfl⟩
  | @implicit k k' access _ _ himplicit hk =>
    rw [SymbolTable.displayMember, SymbolTable.displayMember, hk]
    refine h.faces.displayMethod_rename fun t ht => ?_
    rw [himplicit] at ht
    cases ht

theorem Retained.clauses (h : Retained a b) (hid : id.index < a.definitions.size) :
    (b.definition id).typeParameters.map b.constraintClause
      = (a.definition id).typeParameters.map a.constraintClause := by
  rw [(h.apart id hid).definition]
  show ((a.definition id).typeParameters.map (TypeParameter.rename (Outline.apart a b))).map
    b.constraintClause = _
  rw [List.map_map]
  refine List.map_congr_left fun q hq => h.faces.constraintClause_rename fun t ht => ?_
  refine (h.wellScoped.definitions id q hq t ht).mono fun p hp => ?_
  obtain ⟨top, -, hp⟩ := hp
  obtain ⟨i, -, rfl⟩ := List.mem_map.mp hp
  exact h.sameParameter ⟨top, i, rfl⟩

/-! ### What the report says -/

/-- A record is about the receiver of its method. -/
theorem receiver_mem_of_classifyMethod {table : SymbolTable} {record : MethodRecord}
    (hr : table.classifyMethod k = .ok record) : record.receiver ∈ (table.method k).parameters := by
  rw [SymbolTable.classifyMethod] at hr
  split at hr
  · cases hr
  · next receiver rest hparameters =>
    split at hr
    · cases hr
    · cases hr
      rw [hparameters]
      exact List.mem_cons_self

/-- **An extension method has the record that it had.** -/
theorem Retained.classifyMethod (h : Retained a b) (hid : id.index < a.definitions.size)
    (hk : .method k ∈ a.members id) (hextends : (a.method k).isExtension = true) :
    b.classifyMethod k = a.classifyMethod k := by
  obtain ⟨hheld, hrename⟩ := (h.apart id hid).extensionMethod hk hextends
  have hsame : b.method k = a.method k :=
    ((h.same id hid).extensionMethod hk hextends).2.trans (Method.rename_same _)
  have hown : b.methodTypeParameters k
      = (a.methodTypeParameters k).map (Outline.apart a b).parameter := by
    rw [SymbolTable.methodTypeParameters, SymbolTable.methodTypeParameters, hsame, List.map_map]
    rfl
  have hcontainer := h.container id k (List.mem_filterMap.mpr ⟨_, hk, rfl⟩)
  have haccess : b.containerAccess? (b.method k) = a.containerAccess? (a.method k) := by
    rw [hsame, SymbolTable.containerAccess?, SymbolTable.containerAccess?, hcontainer,
      Option.map_some, Option.map_some, traits_definitionType, ← h.definitionType hid,
      traits_definitionType, h.definition hid]
  have hcarried : ∀ t ∈ (a.method k).types,
      t.Within (SymbolTable.Carried (Outline.apart a b) a b k) := by
    intro t ht p hp
    refine ⟨h.within_method hheld hrename ht p hp, fun hmem => ?_⟩
    obtain ⟨q, hq, he⟩ := List.mem_map.mp hmem
    obtain ⟨i, hi, rfl⟩ := List.mem_map.mp hq
    cases p with
    | ofMethod n j =>
      cases he
      exact hq
    | ofType owner j => cases he
    | free j => cases he
  rw [h.faces.classifyMethod_rename hrename hown hcarried haccess]
  cases hr : a.classifyMethod k with
  | error e => rfl
  | ok record =>
    -- what the receiver is about is in front, so that nothing in it is moved
    have hparameters := congrArg Method.parameters (hrename.symm.trans hsame)
    have hreceiver := map_eq_self hparameters _ (receiver_mem_of_classifyMethod hr)
    rw [Except.map, MethodRecord.rename, hreceiver]

theorem classifyMethods_congr {ids : List MethodId}
    (h : ∀ k ∈ ids, b.classifyMethod k = a.classifyMethod k) :
    b.classifyMethods ids = a.classifyMethods ids := by
  induction ids with
  | nil => rfl
  | cons k rest ih =>
    rw [SymbolTable.classifyMethods, SymbolTable.classifyMethods, h k List.mem_cons_self,
      ih fun other hother => h other (List.mem_cons_of_mem k hother)]

/-- **Both tables say the same of every type of the first one.** -/
theorem Retained.sameAccount (h : Retained a b) (hid : id.index < a.definitions.size) :
    SameAccount a b id where
  definition := h.definition hid
  contents := h.contents hid
  text := h.text hid
  memberTexts := by
    refine (map_eq_map_of_forall₂ (h.apart id hid).members fun m hm m' hmm => ?_).symm
    exact (h.displayMember hm hmm).symm
  clauses := h.clauses hid
  holds := by
    rw [SymbolTable.holdsExtensions_eq, SymbolTable.holdsExtensions_eq, h.contents hid,
      h.definition hid]
  record := by
    have htraits : b.traits (b.definitionType id) = a.traits (a.definitionType id) := by
      rw [traits_definitionType, traits_definitionType, h.definition hid]
    have hmethods : b.classifyMethods (a.extensionMethods id)
        = a.classifyMethods (a.extensionMethods id) := by
      refine classifyMethods_congr fun k hk => ?_
      obtain ⟨m, hm, hpicked⟩ := List.mem_filterMap.mp hk
      cases m with
      | method n =>
        simp only [Option.ite_none_right_eq_some, Option.some.injEq] at hpicked
        obtain ⟨hqualifying, rfl⟩ := hpicked
        exact h.classifyMethod hid hm (Bool.and_eq_true_iff.mp hqualifying).1
      | type t => cases hpicked
      | value v => cases hpicked
    rw [SymbolTable.containerRecord, SymbolTable.containerRecord, h.extensionMethods hid, hmethods,
      h.text hid, htraits, SymbolTable.hasOtherMembers_eq, SymbolTable.hasOtherMembers_eq,
      h.contents hid]

end

end Binding.Outline

end ExtensionCensus
