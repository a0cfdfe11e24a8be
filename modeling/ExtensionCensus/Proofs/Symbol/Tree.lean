import ExtensionCensus.Proofs.Symbol.Places
import Mathlib.Data.List.Nodup

/-!
# Namespaces make up a tree

A namespace lists what its two tables hold: the nested namespaces by name and the types by key. Each
of these is listed once, and says that it lies in the namespace that lists it.

* `Namespace.keysAmong`, `Namespace.tables` — the keys of the types that are listed, and what the
  tables of a namespace hold;
* `Namespace.Tabled.perm_tables` — **with distinct keys a namespace lists exactly what its tables
  hold**;
* `Namespace.placed_sublist` — what lies in a nested namespace lies in the tree;
* `SymbolTable.HoldsTree`, `Places.holdsTree` — a tree with its back references, and that it comes of
  types that are told apart by path and key.
-/

namespace ExtensionCensus

namespace Namespace

/-! ### Members and tables -/

/-- The keys of the types that are listed. -/
def keysAmong (ls : List Listed) : List TypeKey :=
  ls.filterMap fun
    | .space _ => none
    | .type k _ => some k

/-- What the tables of a namespace hold: the nested namespace of each name and the type of each
key. -/
def tables (ns : Namespace) : List Listed :=
  ns.childNames.map .space ++ ns.typeKeys.filterMap fun key => (ns.type? key).map (.type key)

/-- What is listed is a nested namespace. -/
def isSpace : Listed → Bool
  | .space _ => true
  | .type _ _ => false

theorem eraseDups_eq_self {α : Type} [BEq α] [LawfulBEq α] {l : List α} (h : l.Nodup) :
    l.eraseDups = l := by
  induction l with
  | nil => rfl
  | cons a rest ih =>
    obtain ⟨ha, hrest⟩ := List.nodup_cons.mp h
    have hfilter : rest.filter (fun b => !b == a) = rest := by
      refine List.filter_eq_self.mpr fun b hb => ?_
      simp only [Bool.not_eq_true', beq_eq_false_iff_ne]
      rintro rfl
      exact ha hb
    rw [List.eraseDups_cons, hfilter, ih hrest]

section

variable {ns : Namespace}

theorem keysAmong_eq (ls : List Listed) : keysAmong ls = (typesAmong ls).map (·.1) := by
  rw [keysAmong, typesAmong, List.map_filterMap]
  refine List.filterMap_congr fun m _ => ?_
  cases m <;> rfl

/-- With distinct keys, a type is the one that its key finds. -/
theorem Tabled.type?_of_mem (h : ns.Tabled) (hk : (keysAmong ns.listed).Nodup) {key : TypeKey}
    {id : TypeId} (hm : .type key id ∈ ns.listed) : ns.type? key = some id := by
  obtain ⟨found, hfound⟩ := h.exists_type? hm
  have hsame := List.inj_on_of_nodup_map (keysAmong_eq _ ▸ hk)
    (mem_typesAmong_iff.mpr (h.mem_listed_of_type? hfound)) (mem_typesAmong_iff.mpr hm) rfl
  exact hfound.trans (congrArg (some ∘ Prod.snd) hsame)

/-- **With distinct keys, a namespace lists exactly what its tables hold.** -/
theorem Tabled.perm_tables (h : ns.Tabled) (hk : (keysAmong ns.listed).Nodup) :
    ns.listed.Perm ns.tables := by
  have hspaces : ns.childNames.map .space = ns.listed.filter isSpace := by
    rw [← h.lists.spaces, spaceNames, List.map_filterMap, ← List.filterMap_eq_filter]
    refine List.filterMap_congr fun m _ => ?_
    cases m <;> rfl
  have htypes : ns.typeKeys.filterMap (fun key => (ns.type? key).map (.type key))
      = ns.listed.filter (!isSpace ·) := by
    have hkeys : ns.typeKeys = keysAmong ns.listed := by
      rw [typeKeys, ← h.lists.types, ← keysAmong_eq, eraseDups_eq_self hk]
    rw [hkeys, keysAmong, List.filterMap_filterMap, ← List.filterMap_eq_filter]
    refine List.filterMap_congr fun m hm => ?_
    cases m with
    | space name => rfl
    | type key id =>
      rw [Option.bind_some, h.type?_of_mem hk hm]
      rfl
  rw [tables, hspaces, htypes]
  exact (List.filter_append_perm isSpace ns.listed).symm

/-! ### Nested namespaces -/

/-- What lies in a nested namespace lies in the tree. -/
theorem placed_sublist (path base : NamespacePath) {root : Namespace} (h : root.Tabled)
    (hfind : root.find? path = some ns) :
    (ns.placed (base ++ path)).Sublist (root.placed base) := by
  induction path generalizing base root with
  | nil =>
    cases hfind
    rw [List.append_nil]
  | cons name rest ih =>
    obtain ⟨child, hchild, hfind⟩ := Option.bind_eq_some_iff.mp hfind
    obtain ⟨front, back, hplaced, -⟩ := exists_placed_setChild h name base
    have hinner := ih (base ++ [name]) (h.child hchild) hfind
    rw [← List.append_cons] at hinner
    rw [hplaced, hchild, Option.getD_some]
    exact (hinner.trans (List.sublist_append_right _ _)).trans (List.sublist_append_left _ _)

theorem find?_append (path : NamespacePath) (name : String) {root : Namespace}
    (h : root.find? path = some ns) : root.find? (path ++ [name]) = ns.child? name := by
  induction path generalizing root with
  | nil =>
    cases h
    exact Option.bind_fun_some _
  | cons first rest ih =>
    obtain ⟨child, hchild, hfind⟩ := Option.bind_eq_some_iff.mp h
    rw [List.cons_append, find?, hchild, Option.bind_some, ih hfind]

theorem Tabled.of_find? (path : NamespacePath) {root : Namespace} (hd : root.Tabled)
    (h : root.find? path = some ns) : ns.Tabled := by
  induction path generalizing root with
  | nil =>
    cases h
    exact hd
  | cons name rest ih =>
    obtain ⟨child, hchild, hfind⟩ := Option.bind_eq_some_iff.mp h
    exact ih (hd.child hchild) hfind

/-- The types directly in a namespace are among those that lie in it. -/
theorem keysAmong_sublist (path : NamespacePath) (ns : Namespace) (ls : List Listed) :
    ((keysAmong ls).map fun key => (path, key)).Sublist
      ((ls.flatMap (placesOf path ns)).map fun x => (x.path, x.key)) := by
  induction ls with
  | nil => exact List.Sublist.refl _
  | cons m rest ih =>
    rw [List.flatMap_cons, List.map_append]
    cases m with
    | space name => exact ih.trans (List.sublist_append_right _ _)
    | type key id => exact ih.cons_cons _

end

end Namespace

/-! ### Trees with back references -/

namespace SymbolTable

/-- A tree of namespaces with the types of a table in it. In every namespace the nested ones have
distinct names and the types distinct keys, and what it lists is what its tables hold; a nested
namespace is found where its path says, and a type says that it lies in the namespace that lists it,
under the key that it has there. -/
structure HoldsTree (table : SymbolTable) (root : Namespace) : Prop where
  names : ∀ path ns, root.find? path = some ns → ns.childNames.Nodup
  keys : ∀ path ns, root.find? path = some ns → (Namespace.keysAmong ns.listed).Nodup
  members : ∀ path ns, root.find? path = some ns → ns.listed.Perm ns.tables
  spaces : ∀ path ns, root.find? path = some ns → ∀ name, .space name ∈ ns.listed →
    ∃ inner, .mk name inner ∈ ns.spaces ∧ root.find? (path ++ [name]) = some inner
  types : ∀ path ns, root.find? path = some ns → ∀ key id, .type key id ∈ ns.listed →
    id.index < table.definitions.size ∧ (table.definition id).container = .namespace path ∧
      table.key id = key

/-- **Types that are told apart by path and key make up a tree.** -/
theorem Places.holdsTree {table : SymbolTable} {root : Namespace} (h : table.Places root)
    (hu : ((root.placed []).map fun x => (x.path, x.key)).Nodup) : table.HoldsTree root := by
  have htabled : ∀ path ns, root.find? path = some ns → ns.Tabled :=
    fun path ns hns => h.tabled.of_find? path hns
  have hkeys : ∀ path ns, root.find? path = some ns → (Namespace.keysAmong ns.listed).Nodup := by
    intro path ns hns
    have hplaced := (Namespace.placed_sublist path [] h.tabled hns).map fun x => (x.path, x.key)
    rw [List.nil_append, Namespace.placed_eq] at hplaced
    exact (hu.sublist ((Namespace.keysAmong_sublist path ns ns.listed).trans hplaced)).of_map
  refine ⟨fun path ns hns => (htabled path ns hns).lists.names, hkeys,
    fun path ns hns => (htabled path ns hns).perm_tables (hkeys path ns hns),
    fun path ns hns name hm => ?_, fun path ns hns key id hm => ?_⟩
  · have hlists := (htabled path ns hns).lists
    rw [← Namespace.mem_spaceNames_iff, hlists.spaces] at hm
    obtain ⟨entry, hentry, rfl⟩ := List.mem_map.mp hm
    cases entry with
    | mk name inner =>
      refine ⟨inner, hentry, ?_⟩
      rw [NestedSpace.name, Namespace.find?_append path name hns]
      exact Namespace.child?_of_mem_spaces hlists.names hentry
  · refine h.of_find? ?_
    rw [hns, Option.bind_some]
    exact (htabled path ns hns).type?_of_mem (hkeys path ns hns) hm

end SymbolTable

end ExtensionCensus
