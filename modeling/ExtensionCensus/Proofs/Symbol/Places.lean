import ExtensionCensus.Proofs.Symbol.Growth
import ExtensionCensus.Proofs.Symbol.Placement
import ExtensionCensus.Symbol.Library

/-!
# Tables and trees that agree

* `SymbolTable.Places` — every type of a namespace tree is declared where the tree has it;
* `Places.add`, `Places.keeps`, `Places.openAt` — the steps that keep this;
* `SymbolTable.Bare` — nothing is bound yet: there are no methods, fields or constraints;
* `Library.places`, `Library.bare` — the well-known types are declared so.
-/

namespace ExtensionCensus

/-- The type parameters that a new definition lists have no constraints, and say where they stand. -/
structure TypeDefinition.IsBegun (d : TypeDefinition) (id : TypeId) : Prop where
  constraints : ∀ q ∈ d.typeParameters, q.constraints = []
  placed : TypeParameter.Placed (.ofType id) d.typeParameters

theorem TypeDefinition.IsBegun.congr {d e : TypeDefinition} {id : TypeId} (h : d.IsBegun id)
    (he : e.typeParameters = d.typeParameters) : e.IsBegun id :=
  ⟨he ▸ h.constraints, he ▸ h.placed⟩

/-- Type parameters without constraints that are listed by a new definition. -/
theorem isBegun_of_listed {d : TypeDefinition} {id : TypeId} {ps : List TypeParameter}
    (h : d.typeParameters = TypeParameter.listed (.ofType id) ps)
    (hps : ∀ p ∈ ps, p.constraints = []) : d.IsBegun id := by
  refine ⟨fun q hq => ?_, h ▸ placed_listed _ ps⟩
  rw [h] at hq
  obtain ⟨p, hp, i, rfl⟩ := mem_listed hq
  exact hps p hp

namespace SymbolTable

/-- Every namespace lists what its tables hold, and every type of the tree is declared in the
namespace where the tree has it, under the key that it has there. -/
structure Places (table : SymbolTable) (root : Namespace) : Prop where
  tabled : root.Tabled
  index_lt : ∀ x ∈ root.placed [], x.id.index < table.definitions.size
  container : ∀ x ∈ root.placed [], (table.definition x.id).container = .namespace x.path
  key : ∀ x ∈ root.placed [], table.key x.id = x.key

/-- No method, no field and no constraint is bound yet, and types list types only. -/
structure Bare (table : SymbolTable) : Prop where
  methods : table.methods = #[]
  values : table.values = #[]
  begun : ∀ id : TypeId, (table.definition id).IsBegun id
  members : ∀ id : TypeId, ∀ m ∈ (table.definition id).members, ∃ t, m = .type t

section

variable {table a b : SymbolTable} {root : Namespace}

theorem places_empty : Places table .empty := by
  refine ⟨Namespace.tabled_empty, fun x hx => ?_, fun x hx => ?_, fun x hx => ?_⟩
  all_goals
    rw [Namespace.placed_empty] at hx
    cases hx

theorem Places.keeps (hk : Keeps a b) (h : Places a root) : Places b root := by
  refine ⟨h.tabled, fun x hx => ?_, fun x hx => ?_, fun x hx => ?_⟩
  · exact Nat.lt_of_lt_of_le (h.index_lt x hx) hk.size_le
  · rw [(hk.agrees x.id (h.index_lt x hx)).container]
    exact h.container x hx
  · rw [hk.key (h.index_lt x hx)]
    exact h.key x hx

/-- Opening a namespace. -/
theorem Places.openAt (h : Places table root) (base : NamespacePath) (dotted : String) :
    Places table (root.openAt base dotted).1 := by
  have hp : (root.openAt base dotted).1.placed [] = root.placed [] :=
    Namespace.placed_update_id _ [] h.tabled
  refine ⟨Namespace.tabled_update (fun ns hd => hd) _ h.tabled, ?_, ?_, ?_⟩
  · rw [hp]
    exact h.index_lt
  · rw [hp]
    exact h.container
  · rw [hp]
    exact h.key

/-- Declaring a type in a namespace. -/
theorem Places.add (h : Places table root) {d : TypeDefinition} {path : NamespacePath}
    (hc : d.container = .namespace path) {key : TypeKey}
    (hk : key = ⟨d.name, d.typeParameters.length⟩) :
    Places (table.addDefinition d) (root.update (·.addType key table.nextType) path) := by
  have hkeeps := h.keeps (keeps_addDefinition d)
  have hmem : ∀ x ∈ (root.update (·.addType key table.nextType) path).placed [],
      x = ⟨path, key, table.nextType⟩ ∨ x ∈ root.placed [] := by
    intro x hx
    have hperm := Namespace.perm_placed_addType path [] key table.nextType h.tabled
    exact List.mem_cons.mp (hperm.mem_iff.mp hx)
  refine ⟨Namespace.tabled_update (fun ns hd => Namespace.tabled_addType key _ hd) path
    h.tabled, fun x hx => ?_, fun x hx => ?_, fun x hx => ?_⟩
  · rcases hmem x hx with rfl | hx
    · rw [size_addDefinition]
      exact Nat.lt_succ_self _
    · exact hkeeps.index_lt x hx
  · rcases hmem x hx with rfl | hx
    · rw [definition_addDefinition_nextType]
      exact hc
    · exact hkeeps.container x hx
  · rcases hmem x hx with rfl | hx
    · rw [SymbolTable.key, arity, definition_addDefinition_nextType]
      exact hk.symm
    · exact hkeeps.key x hx

/-- A type that is found along a path is declared there. -/
theorem Places.of_find? (h : Places table root) {path : NamespacePath} {key : TypeKey}
    {id : TypeId} (hf : (root.find? path).bind (·.type? key) = some id) :
    id.index < table.definitions.size ∧ (table.definition id).container = .namespace path ∧
      table.key id = key := by
  have hmem := Namespace.mem_placed_of_find? h.tabled path [] hf
  exact ⟨h.index_lt _ hmem, h.container _ hmem, h.key _ hmem⟩

theorem Bare.methodIds (h : Bare table) (id : TypeId) : table.methodIds id = [] := by
  refine List.filterMap_eq_nil_iff.mpr fun m hm => ?_
  obtain ⟨t, rfl⟩ := h.members id m hm
  rfl

theorem bare_empty : Bare {} := by
  refine ⟨rfl, rfl, fun id => ?_, fun id m hm => ?_⟩
  · rw [definition_of_size_le (Nat.zero_le _)]
    exact isBegun_of_listed rfl fun p hp => absurd hp List.not_mem_nil
  · rw [definition_of_size_le (Nat.zero_le _)] at hm
    cases hm

/-- Declaring a type whose type parameters have no constraints, and that has no members. -/
theorem Bare.addDefinition (h : Bare table) {d : TypeDefinition}
    (hd : d.IsBegun table.nextType) (hm : d.members = []) :
    Bare (table.addDefinition d) := by
  refine ⟨h.methods, h.values, fun id => ?_, fun id m hmem => ?_⟩
  · rw [definition_addDefinition]
    split
    · next he => exact he ▸ hd
    · exact h.begun id
  · rw [definition_addDefinition] at hmem
    split at hmem
    · rw [hm] at hmem
      cases hmem
    · exact h.members id m hmem

/-- Changing a definition, but not its type parameters, and adding types alone to what it lists. -/
theorem Bare.updateDefinition (h : Bare table) {id : TypeId}
    {f : TypeDefinition → TypeDefinition}
    (hf : (f (table.definition id)).typeParameters = (table.definition id).typeParameters)
    (hm : ∀ m ∈ (f (table.definition id)).members,
      m ∈ (table.definition id).members ∨ ∃ t, m = .type t) :
    Bare (table.updateDefinition id f) := by
  refine ⟨h.methods, h.values, fun other => ?_, fun other m hmem => ?_⟩
  · rw [definition_updateDefinition]
    split
    · next he => exact he.1 ▸ (h.begun id).congr hf
    · exact h.begun other
  · rw [definition_updateDefinition] at hmem
    split at hmem
    · exact (hm m hmem).elim (h.members id m) fun ht => ht
    · exact h.members other m hmem

end

end SymbolTable

/-! ### The library -/

namespace Library

/-- A property of drafts that every declaration keeps holds of the finished library. -/
theorem draft_induction {P : Draft → Prop} (start : P {})
    (step : ∀ (d : Draft) (spaceName name : String) (kind : DefinitionKind)
      (keyword : Option String) (arity : Nat), P d → P (d.declare spaceName name kind keyword arity)) :
    P draft := by
  unfold draft
  refine List.foldlRecOn _ _ ?_ fun d hd entry _ => ?_
  · exact List.foldlRecOn _ _ start fun d hd t _ => step d _ _ _ _ _ hd
  · refine List.foldlRecOn _ _ hd fun d hd t _ => ?_
    exact List.foldlRecOn _ _ hd fun d hd arity _ => step d _ _ _ _ _ hd

theorem length_typeParameterNames (arity : Nat) : (typeParameterNames arity).length = arity := by
  unfold typeParameterNames
  split
  · next h => rw [h]; rfl
  · rw [List.length_map, List.length_range]

theorem places : SymbolTable.Places table root := by
  refine draft_induction (P := fun d => SymbolTable.Places d.table d.root)
    SymbolTable.places_empty fun d spaceName name kind keyword arity hd => ?_
  refine hd.add rfl ?_
  rw [length_listed, List.length_map, length_typeParameterNames]

theorem bare : SymbolTable.Bare table := by
  refine draft_induction (P := fun d => SymbolTable.Bare d.table)
    SymbolTable.bare_empty fun d spaceName name kind keyword arity hd => ?_
  refine hd.addDefinition (isBegun_of_listed rfl fun p hp => ?_) rfl
  obtain ⟨n, -, rfl⟩ := List.mem_map.mp hp
  rfl

/-- A type that has a keyword lies in no type and has no type parameters. -/
theorem specialType?_spec {word : String} {t : Ty} (h : specialType? word = some t) :
    ∃ id : TypeId, t = .named (.declared id) none [] ∧ id.index < table.definitions.size ∧
      table.lexicalOuter id = none ∧ table.arity id = 0 := by
  have hspecial : ∀ i < specialTypes.length, i < table.definitions.size ∧
      table.lexicalOuter ⟨i⟩ = none ∧ table.arity ⟨i⟩ = 0 := by
    decide +kernel
  obtain ⟨i, hi, rfl⟩ := Option.map_eq_some_iff.mp h
  exact ⟨⟨i⟩, rfl, hspecial i (List.findIdx?_eq_some_iff_findIdx_eq.mp hi).1⟩

/-- No well-known type has types nested in it. -/
theorem nestedTypes_eq_nil (id : TypeId) : table.nestedTypes id = [] := by
  suffices h : ∀ id : TypeId, (table.definition id).members = [] by
    rw [SymbolTable.nestedTypes_eq, h id]
    rfl
  refine draft_induction (P := fun d => ∀ id : TypeId, (d.table.definition id).members = [])
    (fun id => ?_) fun d spaceName name kind keyword arity hd id => ?_
  · rw [SymbolTable.definition_of_size_le (Nat.zero_le _)]
    rfl
  · refine (congrArg (·.members) (SymbolTable.definition_addDefinition _ id)).trans ?_
    split
    · rfl
    · exact hd id

end Library

end ExtensionCensus
