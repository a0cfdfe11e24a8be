import ExtensionCensus.Proofs.Symbol.Tree

/-!
# The walk over a namespace tree

* `Namespace.mem_walk_iff` — **the walk comes to a namespace at a path exactly if it is found there**;
* `Namespace.pairwise_walk` — and to each namespace once, before it comes to those inside it.
-/

namespace ExtensionCensus.Namespace

variable {ns inner : Namespace} {path base : NamespacePath}

/-! ### What the walk comes to -/

theorem walk_eq (path : NamespacePath) (ns : Namespace) :
    ns.walk path = (path, ns) :: walkSpaces path ns.spaces := by
  cases ns
  rw [walk, spaces]

theorem mem_walkSpaces_of_mem {name : String} {ss : List NestedSpace} (h : .mk name inner ∈ ss)
    {x : NamespacePath × Namespace} (hx : x ∈ inner.walk (path ++ [name])) :
    x ∈ walkSpaces path ss := by
  induction ss with
  | nil => cases h
  | cons entry rest ih =>
    cases entry with
    | mk n i =>
      rw [walkSpaces]
      rcases List.mem_cons.mp h with he | h
      · cases he
        exact List.mem_append_left _ hx
      · exact List.mem_append_right _ (ih h)

/-- The walk comes to whatever is found along a path. -/
theorem mem_walk_of_find? (base : NamespacePath) (h : ns.find? path = some inner) :
    (base ++ path, inner) ∈ ns.walk base := by
  induction path generalizing ns base with
  | nil =>
    cases h
    rw [walk_eq, List.append_nil]
    exact List.mem_cons_self
  | cons name rest ih =>
    obtain ⟨child, hchild, hfind⟩ := Option.bind_eq_some_iff.mp h
    rw [walk_eq, List.append_cons]
    exact List.mem_cons_of_mem _
      (mem_walkSpaces_of_mem (mem_spaces_of_child? hchild) (ih (base ++ [name]) hfind))

mutual

/-- Whatever the walk comes to is found along its path. -/
theorem find?_of_mem_walk (base : NamespacePath) : ∀ ns : Namespace, ns.Tabled →
    ∀ x ∈ ns.walk base, ∃ path, x.1 = base ++ path ∧ ns.find? path = some x.2
  | .mk ss ts ls, h, x, hx => by
    rw [walk] at hx
    rcases List.mem_cons.mp hx with rfl | hx
    · exact ⟨[], (List.append_nil base).symm, rfl⟩
    · obtain ⟨name, inner, hm, path, hpath, hfind⟩ :=
        find?_of_mem_walkSpaces base ss (fun name inner hm => h.of_mem_spaces hm) x hx
      refine ⟨name :: path, hpath, ?_⟩
      rw [find?, child?_of_mem_spaces h.lists.names hm]
      exact hfind

theorem find?_of_mem_walkSpaces (base : NamespacePath) : ∀ ss : List NestedSpace,
    (∀ name inner, .mk name inner ∈ ss → inner.Tabled) → ∀ x ∈ walkSpaces base ss,
      ∃ name inner, .mk name inner ∈ ss ∧
        ∃ path, x.1 = base ++ name :: path ∧ inner.find? path = some x.2
  | [], _, x, hx => by cases hx
  | .mk name inner :: rest, h, x, hx => by
    rw [walkSpaces] at hx
    rcases List.mem_append.mp hx with hx | hx
    · obtain ⟨path, hpath, hfind⟩ := find?_of_mem_walk (base ++ [name]) inner
        (h name inner List.mem_cons_self) x hx
      exact ⟨name, inner, List.mem_cons_self, path, hpath.trans (List.append_cons ..).symm, hfind⟩
    · obtain ⟨n, i, hm, found⟩ := find?_of_mem_walkSpaces base rest
        (fun n i hm => h n i (List.mem_cons_of_mem _ hm)) x hx
      exact ⟨n, i, List.mem_cons_of_mem _ hm, found⟩

end

/-- **The walk comes to a namespace at a path exactly if it is found there.** -/
theorem mem_walk_iff (h : ns.Tabled) : (path, inner) ∈ ns.walk [] ↔ ns.find? path = some inner := by
  constructor
  · intro hmem
    obtain ⟨found, hpath, hfind⟩ := find?_of_mem_walk [] ns h _ hmem
    cases (hpath : path = found)
    exact hfind
  · exact mem_walk_of_find? []

/-! ### The order of the walk -/

mutual

/-- The walk comes to no namespace twice, and to none behind one that is inside it. -/
theorem pairwise_walk (base : NamespacePath) : ∀ ns : Namespace, ns.Tabled →
    (ns.walk base).Pairwise fun x y => ¬ y.1 <+: x.1
  | .mk ss ts ls, h => by
    have hinner := fun name inner hm => @Tabled.of_mem_spaces (.mk ss ts ls) inner name h hm
    rw [walk, List.pairwise_cons]
    refine ⟨fun y hy hprefix => ?_, pairwise_walkSpaces base ss h.lists.names hinner⟩
    obtain ⟨name, inner, -, path, hpath, -⟩ := find?_of_mem_walkSpaces base ss hinner y hy
    have hlength : y.1.length ≤ base.length := hprefix.length_le
    rw [hpath, List.length_append, List.length_cons] at hlength
    omega

theorem pairwise_walkSpaces (base : NamespacePath) : ∀ ss : List NestedSpace,
    (ss.map (·.name)).Nodup → (∀ name inner, .mk name inner ∈ ss → inner.Tabled) →
      (walkSpaces base ss).Pairwise fun x y => ¬ y.1 <+: x.1
  | [], _, _ => .nil
  | .mk name inner :: rest, hnames, h => by
    obtain ⟨hname, hrest⟩ := List.nodup_cons.mp hnames
    have hinner := h name inner List.mem_cons_self
    have hothers := fun n i hm => h n i (List.mem_cons_of_mem _ hm)
    rw [walkSpaces, List.pairwise_append]
    refine ⟨pairwise_walk (base ++ [name]) inner hinner,
      pairwise_walkSpaces base rest hrest hothers, fun x hx y hy hprefix => ?_⟩
    -- the two paths part behind `base`, where two entries have different names
    obtain ⟨p, hp, -⟩ := find?_of_mem_walk (base ++ [name]) inner hinner x hx
    obtain ⟨other, i, hm, q, hq, -⟩ := find?_of_mem_walkSpaces base rest hothers y hy
    rw [hp, hq, ← List.append_cons, List.prefix_append_right_inj, List.cons_prefix_cons] at hprefix
    exact hname (List.mem_map.mpr ⟨_, hm, hprefix.1⟩)

end

end ExtensionCensus.Namespace
