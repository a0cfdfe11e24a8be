import ExtensionCensus.Symbol.Table
import Mathlib.Data.List.Nodup

/-!
# Places in a namespace tree

* `Namespace.Tabled` — every namespace lists what its two tables hold, and no two nested ones have
  the same name; `tabled_setChild`, `tabled_addType` — what adds to a table lists it;
* `Place`, `Namespace.placed` — where each type of a tree lies, in the order of a walk that visits
  every namespace before what is behind it;
* `Namespace.perm_placed_addType` — **declaring a type in a namespace adds exactly its place**, and
  opening a namespace adds none;
* `Namespace.mem_placed_of_find?`, `Namespace.exists_find?_of_mem_placed` — looking a key up along a
  path finds exactly the places that are there.
-/

namespace ExtensionCensus

/-- Where a type lies: the path of its namespace, its key there, and its definition. -/
structure Place where
  path : NamespacePath
  key : TypeKey
  id : TypeId

namespace Namespace

variable {ns inner : Namespace} {name : String}

/-! ### The table of nested namespaces -/

theorem child?_eq_none_iff : ns.child? name = none ↔ name ∉ ns.childNames := by
  rw [child?, List.findSome?_eq_none_iff, childNames, List.mem_map]
  constructor
  · rintro h ⟨entry, hentry, rfl⟩
    cases entry with
    | mk n i => exact Option.some_ne_none i ((if_pos rfl).symm.trans (h _ hentry))
  · intro h entry hentry
    cases entry with
    | mk n i => exact if_neg fun hn => h ⟨_, hentry, hn⟩

theorem mem_spaces_of_child? (h : ns.child? name = some inner) : .mk name inner ∈ ns.spaces := by
  obtain ⟨entry, hentry, hat⟩ := List.exists_of_findSome?_eq_some h
  cases entry with
  | mk n i =>
    simp only [NestedSpace.at?] at hat
    split at hat
    · next hn =>
      cases hat
      exact hn ▸ hentry
    · cases hat

/-- With distinct names, a nested namespace is the one that its name finds. -/
theorem child?_of_mem_spaces (hn : ns.childNames.Nodup) (h : .mk name inner ∈ ns.spaces) :
    ns.child? name = some inner := by
  cases hc : ns.child? name with
  | none => exact absurd (List.mem_map_of_mem h) (child?_eq_none_iff.mp hc)
  | some child =>
    have hsame := List.inj_on_of_nodup_map hn (mem_spaces_of_child? hc) h rfl
    cases hsame
    rfl

/-- A nested namespace is smaller than the one around it. -/
theorem sizeOf_lt_of_child? (h : ns.child? name = some inner) : sizeOf inner < sizeOf ns := by
  cases ns with
  | mk ss ts ls =>
    have hentry := List.sizeOf_lt_of_mem (mem_spaces_of_child? h)
    simp only [spaces, NestedSpace.mk.sizeOf_spec, Namespace.mk.sizeOf_spec] at hentry ⊢
    omega

/-! ### Putting a nested namespace -/

theorem put_of_ne {entry : NestedSpace} (h : entry.name ≠ name) (new : Namespace) :
    entry.put name new = entry := by
  cases entry with
  | mk n i => exact congrArg (NestedSpace.mk n) (if_neg h)

theorem map_put_of_not_mem (h : name ∉ ns.childNames) (new : Namespace) :
    ns.spaces.map (·.put name new) = ns.spaces := by
  refine (List.map_congr_left fun entry hentry => ?_).trans (List.map_id _)
  refine put_of_ne (fun hn => h ?_) new
  rw [← hn]
  exact List.mem_map_of_mem hentry

theorem map_put_put (ss : List NestedSpace) (name : String) (a b : Namespace) :
    (ss.map (·.put name a)).map (·.put name b) = ss.map (·.put name b) := by
  rw [List.map_map]
  refine List.map_congr_left fun entry _ => ?_
  cases entry with
  | mk n i =>
    by_cases hn : n = name
    · simp only [Function.comp_apply, NestedSpace.put, if_pos hn]
    · simp only [Function.comp_apply, NestedSpace.put, if_neg hn]

theorem findSome?_put_self (ss : List NestedSpace) (name : String) (new : Namespace) :
    (ss.map (·.put name new)).findSome? (·.at? name) = (ss.findSome? (·.at? name)).map fun _ => new := by
  induction ss with
  | nil => rfl
  | cons entry rest ih =>
    rw [List.map_cons, List.findSome?_cons, List.findSome?_cons, ih]
    cases entry with
    | mk n i =>
      by_cases hn : n = name
      · simp only [NestedSpace.put, NestedSpace.at?, if_pos hn, Option.map_some]
      · simp only [NestedSpace.put, NestedSpace.at?, if_neg hn]

theorem findSome?_put_of_ne {other : String} (h : other ≠ name) (ss : List NestedSpace)
    (new : Namespace) :
    (ss.map (·.put name new)).findSome? (·.at? other) = ss.findSome? (·.at? other) := by
  rw [List.findSome?_map]
  refine congrArg (ss.findSome? ·) (funext fun entry => ?_)
  cases entry with
  | mk n i =>
    by_cases hn : n = name
    · have hne : n ≠ other := fun he => h (he.symm.trans hn)
      simp only [Function.comp_apply, NestedSpace.put, NestedSpace.at?, if_neg hne]
    · simp only [Function.comp_apply, NestedSpace.put, if_neg hn]

theorem setChild_of_some (hc : ns.child? name = some inner) (new : Namespace) :
    ns.setChild name new = .mk (ns.spaces.map (·.put name new)) ns.types ns.listed := by
  rw [setChild, hc]

theorem setChild_of_none (hc : ns.child? name = none) (new : Namespace) : ns.setChild name new
    = .mk (ns.spaces ++ [.mk name new]) ns.types (ns.listed ++ [.space name]) := by
  rw [setChild, hc]

/-- What is put is found under its name, and every other nested namespace where it was. -/
theorem child?_setChild (ns : Namespace) (name : String) (inner : Namespace) (other : String) :
    (ns.setChild name inner).child? other
      = if other = name then some inner else ns.child? other := by
  by_cases hother : other = name
  · rw [if_pos hother, hother]
    cases hc : ns.child? name with
    | some child =>
      rw [setChild_of_some hc, child?, spaces, findSome?_put_self, ← child?, hc, Option.map_some]
    | none =>
      rw [setChild_of_none hc, child?, spaces, List.findSome?_append, ← child?, hc,
        List.findSome?_singleton, Option.none_or, NestedSpace.at?, if_pos rfl]
  · rw [if_neg hother]
    cases hc : ns.child? name with
    | some child => rw [setChild_of_some hc, child?, spaces, findSome?_put_of_ne hother, ← child?]
    | none =>
      have hnew : (NestedSpace.mk name inner).at? other = none := if_neg (Ne.symm hother)
      rw [setChild_of_none hc, child?, spaces, List.findSome?_append, List.findSome?_singleton,
        hnew, Option.or_none, ← child?]

/-- What is put last stays. -/
theorem setChild_setChild (ns : Namespace) (name : String) (a b : Namespace) :
    (ns.setChild name a).setChild name b = ns.setChild name b := by
  have hfound : (ns.setChild name a).child? name = some a := by
    rw [child?_setChild, if_pos rfl]
  rw [setChild_of_some hfound]
  cases hc : ns.child? name with
  | some child =>
    rw [setChild_of_some hc, setChild_of_some hc, spaces, types, listed, map_put_put]
  | none =>
    have hput : [NestedSpace.mk name a].map (·.put name b) = [.mk name b] :=
      congrArg (fun x => [NestedSpace.mk name x]) (if_pos rfl)
    rw [setChild_of_none hc, setChild_of_none hc, spaces, types, listed, List.map_append, hput,
      map_put_of_not_mem (child?_eq_none_iff.mp hc)]

/-- Putting what is there changes nothing. -/
theorem setChild_self (hn : ns.childNames.Nodup) (hc : ns.child? name = some inner) :
    ns.setChild name inner = ns := by
  have hsame : ns.spaces.map (·.put name inner) = ns.spaces := by
    refine (List.map_congr_left fun entry hentry => ?_).trans (List.map_id _)
    by_cases hname : entry.name = name
    · rw [List.inj_on_of_nodup_map hn hentry (mem_spaces_of_child? hc) hname, NestedSpace.put,
        if_pos rfl]
      rfl
    · exact put_of_ne hname inner
  rw [setChild_of_some hc, hsame]
  cases ns
  rfl

theorem childNames_setChild (hc : ns.child? name = some inner) (new : Namespace) :
    (ns.setChild name new).childNames = ns.childNames := by
  rw [setChild_of_some hc, childNames, spaces, List.map_map, childNames]
  refine List.map_congr_left fun entry _ => ?_
  cases entry
  rfl

/-- Opening a namespace and then one inside it is opening the inner one. -/
theorem update_id_append (path more : NamespacePath) (ns : Namespace) :
    update id (path ++ more) (update id path ns) = update id (path ++ more) ns := by
  induction path generalizing ns with
  | nil => rfl
  | cons name rest ih =>
    rw [List.cons_append, update, update, update, child?_setChild, if_pos rfl, Option.getD_some,
      setChild_setChild, ih]

/-! ### What is listed and what the tables hold -/

/-- The names of the nested namespaces that are listed. -/
def spaceNames (ls : List Listed) : List String :=
  ls.filterMap fun
    | .space n => some n
    | .type _ _ => none

/-- The types that are listed, with their keys. -/
def typesAmong (ls : List Listed) : List (TypeKey × TypeId) :=
  ls.filterMap fun
    | .space _ => none
    | .type k id => some (k, id)

theorem mem_spaceNames_iff {ls : List Listed} : name ∈ spaceNames ls ↔ .space name ∈ ls := by
  constructor
  · intro h
    obtain ⟨m, hm, hn⟩ := List.mem_filterMap.mp h
    cases m with
    | space n =>
      cases hn
      exact hm
    | type key id => cases hn
  · exact fun h => List.mem_filterMap.mpr ⟨_, h, rfl⟩

theorem mem_typesAmong_iff {ls : List Listed} {key : TypeKey} {id : TypeId} :
    (key, id) ∈ typesAmong ls ↔ .type key id ∈ ls := by
  constructor
  · intro h
    obtain ⟨m, hm, hn⟩ := List.mem_filterMap.mp h
    cases m with
    | space n => cases hn
    | type k i =>
      cases hn
      exact hm
  · exact fun h => List.mem_filterMap.mpr ⟨_, h, rfl⟩

/-- A namespace lists the nested ones in the order of their table, under distinct names, and its types
in the order in which they came to theirs. -/
structure ListsTables (ns : Namespace) : Prop where
  names : ns.childNames.Nodup
  spaces : spaceNames ns.listed = ns.childNames
  types : typesAmong ns.listed = ns.types.reverse

/-- Every namespace of the tree lists what its tables hold. -/
inductive Tabled : Namespace → Prop where
  | intro {ns : Namespace} (lists : ns.ListsTables)
      (child : ∀ name inner, ns.child? name = some inner → inner.Tabled) : ns.Tabled

theorem Tabled.lists (h : ns.Tabled) : ns.ListsTables := by
  cases h
  assumption

theorem Tabled.child (h : ns.Tabled) (hc : ns.child? name = some inner) : inner.Tabled := by
  cases h with
  | intro _ child => exact child name inner hc

theorem Tabled.of_mem_spaces (h : ns.Tabled) (hm : .mk name inner ∈ ns.spaces) : inner.Tabled :=
  h.child (child?_of_mem_spaces h.lists.names hm)

theorem tabled_empty : empty.Tabled := by
  refine .intro ⟨List.nodup_nil, rfl, rfl⟩ fun name inner hc => ?_
  cases hc

theorem Tabled.childD (h : ns.Tabled) (name : String) : ((ns.child? name).getD empty).Tabled := by
  cases hc : ns.child? name with
  | some child => exact h.child hc
  | none => exact tabled_empty

/-- A nested namespace is listed under the name that finds it. -/
theorem Tabled.mem_listed (h : ns.Tabled) (hc : ns.child? name = some inner) :
    .space name ∈ ns.listed := by
  rw [← mem_spaceNames_iff, h.lists.spaces]
  exact List.mem_map_of_mem (mem_spaces_of_child? hc)

/-- Putting a nested namespace lists it, if it was not there. -/
theorem ListsTables.setChild (h : ns.ListsTables) (name : String) (inner : Namespace) :
    (ns.setChild name inner).ListsTables := by
  cases hc : ns.child? name with
  | some child =>
    have hnames := childNames_setChild hc inner
    refine ⟨hnames ▸ h.names, ?_, ?_⟩
    · rw [hnames, setChild_of_some hc]
      exact h.spaces
    · rw [setChild_of_some hc]
      exact h.types
  | none =>
    have hnames : (ns.setChild name inner).childNames = ns.childNames ++ [name] := by
      rw [setChild_of_none hc]
      exact List.map_append
    refine ⟨?_, ?_, ?_⟩
    · rw [hnames, ← List.concat_eq_append]
      exact List.Nodup.concat (child?_eq_none_iff.mp hc) h.names
    · rw [hnames, setChild_of_none hc, Namespace.listed, spaceNames, List.filterMap_append,
        ← spaceNames, h.spaces]
      rfl
    · rw [setChild_of_none hc, Namespace.listed, typesAmong, List.filterMap_append, ← typesAmong,
        h.types]
      exact List.append_nil _

theorem tabled_setChild (h : ns.Tabled) (hi : inner.Tabled) (name : String) :
    (ns.setChild name inner).Tabled := by
  refine .intro (h.lists.setChild name inner) fun other found hfound => ?_
  rw [child?_setChild] at hfound
  split at hfound
  · cases hfound
    exact hi
  · exact h.child hfound

/-- A change that keeps tables and lists together where it is made does so in the tree. -/
theorem tabled_update {f : Namespace → Namespace} (hf : ∀ ns, ns.Tabled → (f ns).Tabled)
    (path : NamespacePath) (h : ns.Tabled) : (update f path ns).Tabled := by
  induction path generalizing ns with
  | nil => exact hf ns h
  | cons name rest ih => exact tabled_setChild h (ih (h.childD name)) name

/-- Declaring a type lists it. -/
theorem tabled_addType (key : TypeKey) (id : TypeId) (h : ns.Tabled) :
    (ns.addType key id).Tabled := by
  obtain ⟨hnames, hspaces, htypes⟩ := h.lists
  refine .intro ⟨hnames, ?_, ?_⟩ fun name inner hc => h.child hc
  · show spaceNames (ns.listed ++ [.type key id]) = ns.childNames
    rw [spaceNames, List.filterMap_append, ← spaceNames, hspaces]
    exact List.append_nil _
  · show typesAmong (ns.listed ++ [.type key id]) = ((key, id) :: ns.types).reverse
    rw [typesAmong, List.filterMap_append, ← typesAmong, htypes, List.reverse_cons]
    rfl

/-! ### Places -/

mutual

/-- The places of the types in a namespace at `path` and in those inside it, in walking order. -/
def placed (path : NamespacePath) : Namespace → List Place
  | .mk ss _ ls =>
    ls.flatMap fun
      | .space name => placedIn path ss name
      | .type key id => [⟨path, key, id⟩]

/-- The places of the types inside the namespace of a name in the table of the one at `path`. -/
def placedIn (path : NamespacePath) : List NestedSpace → String → List Place
  | [], _ => []
  | .mk n inner :: rest, name =>
    if n = name then placed (path ++ [n]) inner else placedIn path rest name

end

/-- The places that a namespace has for something that it lists. -/
def placesOf (path : NamespacePath) (ns : Namespace) : Listed → List Place
  | .space name => ((ns.child? name).map (·.placed (path ++ [name]))).getD []
  | .type key id => [⟨path, key, id⟩]

theorem placedIn_eq (path : NamespacePath) (ss : List NestedSpace) (name : String) :
    placedIn path ss name
      = ((ss.findSome? (·.at? name)).map (·.placed (path ++ [name]))).getD [] := by
  induction ss with
  | nil => rfl
  | cons entry rest ih =>
    cases entry with
    | mk n i =>
      rw [placedIn, List.findSome?_cons, ih]
      by_cases hn : n = name
      · rw [if_pos hn, NestedSpace.at?, if_pos hn, hn]
        rfl
      · rw [if_neg hn, NestedSpace.at?, if_neg hn]

theorem placed_eq (path : NamespacePath) (ns : Namespace) :
    ns.placed path = ns.listed.flatMap (placesOf path ns) := by
  cases ns with
  | mk ss ts ls =>
    rw [placed]
    refine congrArg (ls.flatMap ·) (funext fun m => ?_)
    cases m with
    | space name => exact placedIn_eq path ss name
    | type key id => rfl

theorem placesOf_space (path : NamespacePath) (hc : ns.child? name = some inner) :
    placesOf path ns (.space name) = inner.placed (path ++ [name]) := by
  rw [placesOf, hc]
  rfl

theorem placed_empty (path : NamespacePath) : empty.placed path = [] :=
  rfl

theorem mem_placed_iff {path : NamespacePath} {x : Place} : x ∈ ns.placed path ↔
    (∃ key id, .type key id ∈ ns.listed ∧ x = ⟨path, key, id⟩) ∨
      ∃ name child, .space name ∈ ns.listed ∧ ns.child? name = some child ∧
        x ∈ child.placed (path ++ [name]) := by
  rw [placed_eq, List.mem_flatMap]
  constructor
  · rintro ⟨m, hm, hx⟩
    cases m with
    | space name =>
      rw [placesOf] at hx
      cases hc : ns.child? name with
      | none =>
        rw [hc] at hx
        cases hx
      | some child =>
        rw [hc] at hx
        exact .inr ⟨name, child, hm, hc, hx⟩
    | type key id => exact .inl ⟨key, id, hm, List.mem_singleton.mp hx⟩
  · rintro (⟨key, id, hm, rfl⟩ | ⟨name, child, hm, hc, hx⟩)
    · exact ⟨_, hm, List.mem_singleton_self _⟩
    · exact ⟨_, hm, placesOf_space path hc ▸ hx⟩

theorem allTypesIn_eq (ss : List NestedSpace) (name : String) :
    allTypesIn ss name = ((ss.findSome? (·.at? name)).map allTypes).getD [] := by
  induction ss with
  | nil => rfl
  | cons entry rest ih =>
    cases entry with
    | mk n i =>
      rw [allTypesIn, List.findSome?_cons, ih]
      by_cases hn : n = name
      · rw [if_pos hn, NestedSpace.at?, if_pos hn]
        rfl
      · rw [if_neg hn, NestedSpace.at?, if_neg hn]

theorem allTypes_eq (ns : Namespace) : ns.allTypes = ns.listed.flatMap fun
    | .space name => ((ns.child? name).map allTypes).getD []
    | .type _ id => [id] := by
  cases ns with
  | mk ss ts ls =>
    rw [allTypes]
    refine congrArg (ls.flatMap ·) (funext fun m => ?_)
    cases m with
    | space name => exact allTypesIn_eq ss name
    | type key id => rfl

/-- A walk comes to the types of a tree in the order of their places. -/
theorem map_id_placed (path : NamespacePath) (ns : Namespace) :
    (ns.placed path).map (·.id) = ns.allTypes := by
  rw [placed_eq, List.map_flatMap, allTypes_eq]
  refine congrArg (ns.listed.flatMap ·) (funext fun m => ?_)
  cases m with
  | type key id => rfl
  | space name =>
    cases hc : ns.child? name with
    | none =>
      simp only [placesOf, hc]
      rfl
    | some child =>
      -- the list has a name only, so the recursion goes to what the table finds under it
      simp only [placesOf_space path hc, hc, Option.map_some, Option.getD_some]
      exact map_id_placed (path ++ [name]) child
termination_by sizeOf ns
decreasing_by exact sizeOf_lt_of_child? hc

/-! ### Places after a change -/

/-- Nothing else that is listed is the nested namespace of a name. -/
theorem Tabled.exists_listed_eq (h : ns.Tabled) (hc : ns.child? name = some inner) :
    ∃ front back, ns.listed = front ++ .space name :: back ∧
      .space name ∉ front ∧ .space name ∉ back := by
  obtain ⟨front, back, hlisted⟩ := List.append_of_mem (h.mem_listed hc)
  have hsplit : spaceNames (front ++ .space name :: back)
      = spaceNames front ++ name :: spaceNames back := List.filterMap_append
  have hnodup := h.lists.names
  rw [← h.lists.spaces, hlisted, hsplit, List.nodup_append] at hnodup
  obtain ⟨-, hback, hfront⟩ := hnodup
  refine ⟨front, back, hlisted, fun hm => ?_, fun hm => ?_⟩
  · exact hfront name (mem_spaceNames_iff.mpr hm) name List.mem_cons_self rfl
  · exact (List.nodup_cons.mp hback).1 (mem_spaceNames_iff.mpr hm)

theorem placesOf_setChild_self (path : NamespacePath) (ns : Namespace) (name : String)
    (inner : Namespace) : placesOf path (ns.setChild name inner) (.space name)
      = inner.placed (path ++ [name]) :=
  placesOf_space path (by rw [child?_setChild, if_pos rfl])

/-- Putting a nested namespace leaves the places of whatever else is listed. -/
theorem flatMap_placesOf_setChild {ls : List Listed} (h : .space name ∉ ls)
    (path : NamespacePath) (ns inner : Namespace) :
    ls.flatMap (placesOf path (ns.setChild name inner)) = ls.flatMap (placesOf path ns) := by
  refine List.flatMap_congr fun m hm => ?_
  cases m with
  | type key id => rfl
  | space other =>
    have hne : other ≠ name := fun he => h (he ▸ hm)
    rw [placesOf, placesOf, child?_setChild, if_neg hne]

/-- What lies in a nested namespace lies in one piece among the places of the one around it, and
putting another there changes nothing else. -/
theorem exists_placed_setChild (h : ns.Tabled) (name : String) (path : NamespacePath) :
    ∃ front back,
      ns.placed path = front ++ ((ns.child? name).getD empty).placed (path ++ [name]) ++ back ∧
      ∀ inner, (ns.setChild name inner).placed path
        = front ++ inner.placed (path ++ [name]) ++ back := by
  cases hc : ns.child? name with
  | some child =>
    obtain ⟨front, back, hlisted, hfront, hback⟩ := h.exists_listed_eq hc
    refine ⟨front.flatMap (placesOf path ns), back.flatMap (placesOf path ns), ?_, fun inner => ?_⟩
    · rw [placed_eq, hlisted, List.flatMap_append, List.flatMap_cons, placesOf_space path hc,
        Option.getD_some, List.append_assoc]
    · have hlisted' : (ns.setChild name inner).listed = front ++ .space name :: back := by
        rw [setChild_of_some hc, ← hlisted, listed]
      rw [placed_eq, hlisted', List.flatMap_append, List.flatMap_cons, placesOf_setChild_self,
        flatMap_placesOf_setChild hfront, flatMap_placesOf_setChild hback, List.append_assoc]
  | none =>
    -- the new one is listed behind all members, so nothing lies behind its places
    have hnew : .space name ∉ ns.listed := by
      rw [← mem_spaceNames_iff, h.lists.spaces]
      exact child?_eq_none_iff.mp hc
    refine ⟨ns.placed path, [], ?_, fun inner => ?_⟩
    · rw [Option.getD_none, placed_empty, List.append_nil, List.append_nil]
    · have hlisted : (ns.setChild name inner).listed = ns.listed ++ [.space name] := by
        rw [setChild_of_none hc, listed]
      rw [placed_eq, hlisted, List.flatMap_append, List.flatMap_singleton, placesOf_setChild_self,
        flatMap_placesOf_setChild hnew, ← placed_eq, List.append_nil]

/-- Opening a namespace places nothing. -/
theorem placed_update_id (path base : NamespacePath) (h : ns.Tabled) :
    (update id path ns).placed base = ns.placed base := by
  induction path generalizing base ns with
  | nil => rfl
  | cons name rest ih =>
    obtain ⟨front, back, hold, hnew⟩ := exists_placed_setChild h name base
    rw [update, hnew, ih _ (h.childD name), ← hold]

/-- **Declaring a type in a namespace places it there, and changes no other place.** -/
theorem perm_placed_addType (path base : NamespacePath) (key : TypeKey) (id : TypeId)
    (h : ns.Tabled) :
    ((update (·.addType key id) path ns).placed base).Perm
      (⟨base ++ path, key, id⟩ :: ns.placed base) := by
  induction path generalizing base ns with
  | nil =>
    have hlisted : (ns.addType key id).listed = ns.listed ++ [.type key id] := rfl
    have hsame : placesOf base (ns.addType key id) = placesOf base ns := rfl
    rw [update, placed_eq, hlisted, List.flatMap_append, hsame, ← placed_eq, List.append_nil]
    exact List.perm_append_singleton _ _
  | cons name rest ih =>
    obtain ⟨front, back, hold, hnew⟩ := exists_placed_setChild h name base
    rw [update, hnew, hold, List.append_assoc, List.append_assoc, List.append_cons base name rest]
    exact (((ih (base ++ [name]) (h.childD name)).append_right back).append_left front).trans
      List.perm_middle

/-! ### Looking up -/

theorem mem_of_lookup {key : TypeKey} {id : TypeId} {ts : List (TypeKey × TypeId)}
    (h : ts.lookup key = some id) : (key, id) ∈ ts := by
  induction ts with
  | nil => cases h
  | cons entry rest ih =>
    rw [List.lookup_cons] at h
    split at h
    · next hkey =>
      cases h
      rw [beq_iff_eq.mp hkey]
      exact List.mem_cons_self
    · exact List.mem_cons_of_mem _ (ih h)

theorem exists_lookup_of_mem {key : TypeKey} {id : TypeId} {ts : List (TypeKey × TypeId)}
    (h : (key, id) ∈ ts) : ∃ found, ts.lookup key = some found := by
  induction ts with
  | nil => cases h
  | cons entry rest ih =>
    rw [List.lookup_cons]
    split
    · exact ⟨_, rfl⟩
    · next hkey =>
      rcases List.mem_cons.mp h with rfl | h
      · rw [beq_self_eq_true] at hkey
        cases hkey
      · exact ih h

theorem Tabled.mem_listed_of_type? (h : ns.Tabled) {key : TypeKey} {id : TypeId}
    (hfound : ns.type? key = some id) : .type key id ∈ ns.listed := by
  rw [← mem_typesAmong_iff, h.lists.types, List.mem_reverse]
  exact mem_of_lookup hfound

theorem Tabled.exists_type? (h : ns.Tabled) {key : TypeKey} {id : TypeId}
    (hm : .type key id ∈ ns.listed) : ∃ found, ns.type? key = some found := by
  rw [← mem_typesAmong_iff, h.lists.types, List.mem_reverse] at hm
  exact exists_lookup_of_mem hm

/-- What a key is found under along a path lies there. -/
theorem mem_placed_of_find? (h : ns.Tabled) (path base : NamespacePath) {key : TypeKey}
    {id : TypeId} (hid : (ns.find? path).bind (·.type? key) = some id) :
    ⟨base ++ path, key, id⟩ ∈ ns.placed base := by
  induction path generalizing base ns with
  | nil =>
    rw [List.append_nil]
    exact mem_placed_iff.mpr (.inl ⟨key, id, h.mem_listed_of_type? hid, rfl⟩)
  | cons name rest ih =>
    obtain ⟨inner, hinner, hkey⟩ := Option.bind_eq_some_iff.mp hid
    obtain ⟨child, hchild, hfind⟩ := Option.bind_eq_some_iff.mp hinner
    refine mem_placed_iff.mpr (.inr ⟨name, child, h.mem_listed hchild, hchild, ?_⟩)
    rw [List.append_cons base name rest]
    exact ih (h.child hchild) (base ++ [name]) (Option.bind_eq_some_iff.mpr ⟨inner, hfind, hkey⟩)

/-- Whatever lies in a tree is found along its path: a type is there for its key. -/
theorem exists_find?_of_mem_placed (base : NamespacePath) (ns : Namespace) (h : ns.Tabled)
    (x : Place) (hx : x ∈ ns.placed base) : ∃ path, x.path = base ++ path ∧
      ∃ id, (ns.find? path).bind (·.type? x.key) = some id := by
  rcases mem_placed_iff.mp hx with ⟨key, id, hm, rfl⟩ | ⟨name, child, -, hc, hx⟩
  · obtain ⟨found, hfound⟩ := h.exists_type? hm
    exact ⟨[], (List.append_nil base).symm, found, hfound⟩
  · obtain ⟨path, hpath, id, hid⟩ :=
      exists_find?_of_mem_placed (base ++ [name]) child (h.child hc) x hx
    refine ⟨name :: path, hpath.trans (List.append_cons ..).symm, id, ?_⟩
    rw [find?, hc]
    exact hid
termination_by sizeOf ns
decreasing_by exact sizeOf_lt_of_child? hc

/-- What lies at a path under a key where nothing else does is found there. -/
theorem find?_of_placed (h : ns.Tabled)
    (hunique : ((ns.placed []).map fun x => (x.path, x.key)).Nodup) {x : Place}
    (hx : x ∈ ns.placed []) : (ns.find? x.path).bind (·.type? x.key) = some x.id := by
  obtain ⟨path, hpath, id, hid⟩ := exists_find?_of_mem_placed [] ns h x hx
  rw [List.nil_append] at hpath
  subst hpath
  have hsame := List.inj_on_of_nodup_map hunique hx (mem_placed_of_find? h _ [] hid) rfl
  rw [hid, hsame]

end Namespace

end ExtensionCensus
