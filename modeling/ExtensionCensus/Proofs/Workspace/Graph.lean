import ExtensionCensus.Workspace.Graph
import ExtensionCensus.Proofs.Workspace.Preorder

/-!
# Reference graphs as they grow

* `ReferenceGraph.mem_paths_add`, `references_add`, `isFailed_add` and the like — what each way of
  growing changes;
* `ReferenceGraph.references_addReferences` — the references of a file, each once, in order;
* `ReferenceGraph.preorder_search` — **a search over the graph is a depth-first search**.
-/

namespace ExtensionCensus

namespace ReferenceGraph

variable {g : ReferenceGraph}

/-! ### Nodes -/

theorem isSome_node?_iff {path : String} : (g.node? path).isSome = true ↔ path ∈ g.paths := by
  rw [node?, List.isSome_find?, List.any_eq_true, paths, List.mem_map]
  simp only [decide_eq_true_eq]

theorem node?_eq_none_iff {path : String} : g.node? path = none ↔ path ∉ g.paths := by
  rw [← isSome_node?_iff, Bool.not_eq_true, Option.isSome_eq_false_iff, Option.isNone_iff_eq_none]

theorem node?_add (p q : String) :
    (g.add p).node? q = (g.node? q).or (if q = p then some { path := p } else none) := by
  rw [add]
  split
  · next hp =>
    by_cases hq : q = p
    · obtain ⟨n, hn⟩ := Option.isSome_iff_exists.mp hp
      rw [hq, hn, Option.some_or]
    · rw [if_neg hq, Option.or_none]
  · next hp =>
    rw [node?, node?, List.find?_append]
    by_cases hq : q = p
    · rw [if_pos hq, List.find?_cons_of_pos (by simp [hq])]
    · rw [if_neg hq, List.find?_cons_of_neg (by simpa using Ne.symm hq), List.find?_nil]

theorem node?_update {p : String} {f : ProjectNode → ProjectNode}
    (hf : ∀ n, (f n).path = n.path) (q : String) :
    (g.update p f).node? q = (g.node? q).map fun n => if n.path = p then f n else n := by
  rw [node?, node?, update, List.find?_map]
  congr 1
  refine congrFun (congrArg _ (funext fun n => ?_)) _
  rw [Function.comp_apply]
  split
  · rw [hf]
  · rfl

theorem paths_update {p : String} {f : ProjectNode → ProjectNode}
    (hf : ∀ n, (f n).path = n.path) : (g.update p f).paths = g.paths := by
  rw [paths, paths, update, List.map_map]
  refine List.map_congr_left fun n _ => ?_
  rw [Function.comp_apply]
  split
  · exact hf n
  · rfl

theorem path_of_node? {p : String} {n : ProjectNode} (h : g.node? p = some n) : n.path = p := by
  simpa using List.find?_some h

/-! ### A path more -/

theorem mem_paths_add {p q : String} : q ∈ (g.add p).paths ↔ q ∈ g.paths ∨ q = p := by
  rw [← isSome_node?_iff, node?_add, ← isSome_node?_iff, Option.isSome_or, Bool.or_eq_true]
  by_cases hq : q = p <;> simp [hq]

theorem nodup_add (h : g.paths.Nodup) (p : String) : (g.add p).paths.Nodup := by
  rw [add]
  split
  · exact h
  · next hp =>
    rw [paths, List.map_append, List.nodup_append]
    refine ⟨h, List.nodup_singleton _, fun a ha b hb hab => hp (isSome_node?_iff.mpr ?_)⟩
    have hap : a = p := hab.trans (List.mem_singleton.mp hb)
    exact hap ▸ ha

theorem references_add (p q : String) : (g.add p).references q = g.references q := by
  rw [references, references, node?_add]
  cases g.node? q with
  | some n => rfl
  | none =>
    rw [Option.none_or]
    split <;> rfl

theorem isFailed_add (p q : String) : (g.add p).isFailed q = g.isFailed q := by
  rw [isFailed, isFailed, node?_add]
  cases g.node? q with
  | some n => rfl
  | none =>
    rw [Option.none_or]
    split <;> rfl

/-- A graph of single paths. -/
theorem foldl_add (paths : List String) :
    let g := paths.foldl (·.add ·) ({} : ReferenceGraph)
    (∀ q, q ∈ g.paths ↔ q ∈ paths) ∧ g.paths.Nodup ∧ (∀ q, g.references q = []) ∧
      ∀ q, g.isFailed q = false := by
  suffices h : ∀ g : ReferenceGraph, g.paths.Nodup → (∀ q, g.references q = []) →
      (∀ q, g.isFailed q = false) →
      (∀ q, q ∈ (paths.foldl (·.add ·) g).paths ↔ q ∈ g.paths ∨ q ∈ paths) ∧
        (paths.foldl (·.add ·) g).paths.Nodup ∧
        (∀ q, (paths.foldl (·.add ·) g).references q = []) ∧
        ∀ q, (paths.foldl (·.add ·) g).isFailed q = false by
    obtain ⟨hpaths, hothers⟩ := h {} List.nodup_nil (fun _ => rfl) fun _ => rfl
    exact ⟨fun q => (hpaths q).trans (or_iff_right List.not_mem_nil), hothers⟩
  induction paths with
  | nil => exact fun g hnodup hreferences hfailed => ⟨by simp, hnodup, hreferences, hfailed⟩
  | cons p rest ih =>
    intro g hnodup hreferences hfailed
    obtain ⟨hpaths, hothers⟩ := ih (g.add p) (nodup_add hnodup p)
      (fun q => (references_add p q).trans (hreferences q))
      fun q => (isFailed_add p q).trans (hfailed q)
    refine ⟨fun q => ?_, hothers⟩
    rw [List.foldl_cons, hpaths, mem_paths_add, List.mem_cons, or_assoc]

/-! ### A failure more -/

theorem paths_fail (p : String) : (g.fail p).paths = g.paths :=
  paths_update fun _ => rfl

theorem node?_fail (p q : String) : (g.fail p).node? q =
    (g.node? q).map fun n => if n.path = p then { n with isFailed := true } else n :=
  node?_update (f := fun n => { n with isFailed := true }) (fun _ => rfl) q

theorem references_fail (p q : String) : (g.fail p).references q = g.references q := by
  rw [references, references, node?_fail, Option.map_map]
  congr 2
  funext n
  rw [Function.comp_apply]
  split <;> rfl

theorem isFailed_fail {p : String} (hp : p ∈ g.paths) (q : String) :
    (g.fail p).isFailed q = (g.isFailed q || decide (q = p)) := by
  rw [isFailed, isFailed, node?_fail]
  cases hq : g.node? q with
  | none =>
    have hne : q ≠ p := fun h => node?_eq_none_iff.mp hq (h ▸ hp)
    simp [hne]
  | some n =>
    have hn := path_of_node? hq
    simp only [Option.map_some, Option.getD_some, hn]
    by_cases hqp : q = p <;> simp [hqp]

/-! ### A reference more -/

theorem mem_paths_addReference {s t q : String} :
    q ∈ (g.addReference s t).paths ↔ q ∈ g.paths ∨ q = s ∨ q = t := by
  rw [addReference, paths_update fun n => by split <;> rfl, mem_paths_add, mem_paths_add, or_assoc]

theorem nodup_addReference (h : g.paths.Nodup) (s t : String) :
    (g.addReference s t).paths.Nodup := by
  rw [addReference, paths_update fun n => by split <;> rfl]
  exact nodup_add (nodup_add h s) t

theorem isFailed_addReference (s t q : String) :
    (g.addReference s t).isFailed q = g.isFailed q := by
  rw [addReference, isFailed, node?_update fun n => by split <;> rfl, Option.map_map]
  rw [← isFailed_add s q, ← isFailed_add t q, isFailed]
  congr 2
  funext n
  rw [Function.comp_apply]
  split
  · split <;> rfl
  · rfl

theorem references_addReference (s t q : String) :
    (g.addReference s t).references q =
      if q = s ∧ t ∉ g.references s then g.references s ++ [t] else g.references q := by
  have hadded : ((g.add s).add t).references q = g.references q := by
    rw [references_add, references_add]
  rw [addReference, references, node?_update fun n => by split <;> rfl]
  cases hq : ((g.add s).add t).node? q with
  | none =>
    have hne : q ≠ s := by
      rintro rfl
      exact node?_eq_none_iff.mp hq (mem_paths_add.mpr (.inl (mem_paths_add.mpr (.inr rfl))))
    rw [if_neg fun h => hne h.1, ← hadded, references, hq]
    rfl
  | some n =>
    have hn := path_of_node? hq
    have hreferences : n.references = g.references q := by
      rw [← hadded, references, hq]
      rfl
    simp only [Option.map_some, Option.getD_some, hn]
    by_cases hqs : q = s
    · subst hqs
      rw [if_pos rfl]
      by_cases ht : t ∈ g.references q
      · rw [if_pos (by simpa [hreferences] using ht), if_neg fun h => h.2 ht, hreferences]
      · rw [if_neg (by simpa [hreferences] using ht), if_pos ⟨rfl, ht⟩, ← hreferences]
    · rw [if_neg hqs, if_neg fun h => hqs h.1, hreferences]

/-! ### The references of a file -/

/-- The graph with all references of a file. -/
def addReferences (g : ReferenceGraph) (source : String) (targets : List String) : ReferenceGraph :=
  targets.foldl (·.addReference source ·) g

theorem addReferences_cons (s t : String) (rest : List String) :
    g.addReferences s (t :: rest) = (g.addReference s t).addReferences s rest :=
  rfl

theorem nodup_addReferences (h : g.paths.Nodup) (s : String) (targets : List String) :
    (g.addReferences s targets).paths.Nodup := by
  induction targets generalizing g with
  | nil => exact h
  | cons t rest ih => exact ih (nodup_addReference h s t)

theorem mem_paths_addReferences {s q : String} (targets : List String) (hs : s ∈ g.paths) :
    q ∈ (g.addReferences s targets).paths ↔ q ∈ g.paths ∨ q ∈ targets := by
  induction targets generalizing g with
  | nil => simp [addReferences]
  | cons t rest ih =>
    have hs' : s ∈ (g.addReference s t).paths := mem_paths_addReference.mpr (.inl hs)
    rw [addReferences_cons, ih hs', mem_paths_addReference, List.mem_cons]
    constructor
    · rintro ((hq | rfl | hq) | hq)
      · exact .inl hq
      · exact .inl hs
      · exact .inr (.inl hq)
      · exact .inr (.inr hq)
    · tauto

theorem isFailed_addReferences (s q : String) (targets : List String) :
    (g.addReferences s targets).isFailed q = g.isFailed q := by
  induction targets generalizing g with
  | nil => rfl
  | cons t rest ih => rw [addReferences_cons, ih, isFailed_addReference]

theorem references_addReferences_of_ne {s q : String} (hq : q ≠ s) (targets : List String) :
    (g.addReferences s targets).references q = g.references q := by
  induction targets generalizing g with
  | nil => rfl
  | cons t rest ih =>
    rw [addReferences_cons, ih, references_addReference, if_neg fun h => hq h.1]

theorem references_addReferences_self {s : String} (targets : List String)
    (h : (g.references s).Nodup) :
    (g.addReferences s targets).references s = (g.references s ++ targets).eraseDups := by
  induction targets generalizing g with
  | nil => rw [List.append_nil, eraseDups_of_nodup h]; rfl
  | cons t rest ih =>
    have hstep := references_addReference (g := g) s t s
    by_cases ht : t ∈ g.references s
    · rw [if_neg fun h => h.2 ht] at hstep
      rw [addReferences_cons, ih (hstep ▸ h), hstep, List.eraseDups_append, List.eraseDups_append,
        List.removeAll, List.removeAll, List.filter_cons_of_neg (by simpa using ht)]
    · rw [if_pos ⟨rfl, ht⟩] at hstep
      have hnodup : (g.references s ++ [t]).Nodup :=
        List.nodup_append.mpr ⟨h, List.nodup_singleton _, fun a ha b hb hab =>
          ht (List.mem_singleton.mp hb ▸ hab ▸ ha)⟩
      rw [addReferences_cons, ih (hstep ▸ hnodup), hstep, List.append_assoc, List.singleton_append]

/-! ### Search -/

/-- Every reference leads to a node of the graph. -/
def HoldsTargets (g : ReferenceGraph) : Prop :=
  ∀ p, ∀ q ∈ g.references p, q ∈ g.paths

/-- The nodes that a search meets are in depth-first order. -/
theorem preorder_searchFrom (hg : g.HoldsTargets) (remaining stack : List String) {seen : List String}
    (hnodup : remaining.Nodup) (hremaining : ∀ q ∈ g.paths, q ∈ remaining ↔ q ∉ seen)
    (hstack : ∀ q ∈ stack, q ∈ g.paths) :
    Preorder g.references seen stack (g.searchFrom remaining stack) := by
  fun_induction searchFrom g remaining stack generalizing seen with
  | case1 remaining => exact .nil _
  | case2 remaining path rest h ih =>
    have hpath := hstack path List.mem_cons_self
    have hinside : Preorder g.references (path :: seen) (g.references path ++ rest)
        (g.searchFrom (remaining.erase path) (g.references path ++ rest)) :=
      ih (hnodup.erase path) (fun q hq => ?_) fun q hq => ?_
    · obtain ⟨below, order, horder, hbelow, hbehind⟩ := hinside.of_append
      rw [horder]
      refine .enter ((hremaining path hpath).mp h) hbelow (hbehind.congr fun q => ?_)
      simp only [List.mem_cons, List.mem_append]
      tauto
    · rw [hnodup.mem_erase_iff, List.mem_cons, hremaining q hq, not_or]
    · rcases List.mem_append.mp hq with hq | hq
      · exact hg path q hq
      · exact hstack q (List.mem_cons_of_mem _ hq)
  | case3 remaining path rest h ih =>
    have hpath := hstack path List.mem_cons_self
    have hmet : path ∈ seen := by
      by_contra hnew
      exact h ((hremaining path hpath).mpr hnew)
    exact .skip hmet (ih hnodup hremaining fun q hq => hstack q (List.mem_cons_of_mem _ hq))

/-- **A search over the graph is a depth-first search.** -/
theorem preorder_search (hg : g.HoldsTargets) (hnodup : g.paths.Nodup) {path : String}
    (h : path ∈ g.paths) : Preorder g.references [] [path] (g.search path) :=
  preorder_searchFrom hg _ _ hnodup (fun _ hq => ⟨fun _ => List.not_mem_nil, fun _ => hq⟩)
    fun _ hq => List.mem_singleton.mp hq ▸ h

end ReferenceGraph

end ExtensionCensus
