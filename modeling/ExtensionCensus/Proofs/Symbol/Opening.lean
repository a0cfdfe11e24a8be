import ExtensionCensus.Proofs.Lists
import ExtensionCensus.Proofs.Symbol.Segmented
import ExtensionCensus.Proofs.Symbol.Walking

/-!
# Adding namespaces and finding them again

Namespaces are added by dotted names, each below one that is there already, and are found by the same
names and by their own.

* `Opening`, `openAll`, `Available` — additions one after the other, each on a namespace that is there;
* `isSome_find?_update`, `update_id_of_isSome` — opening a path adds what is missing on the way and
  nothing else;
* `WellNamed` — the invariant: distinct names, as trimming and cutting at dots leaves them;
* `openAll_roundTrips` — **every namespace is found by its dotted name, the walk lists it once, and an
  addition that is repeated adds nothing**;
* `found_iff_opened` — **a dotted name finds the namespace that opening it leads to, if there are no
  blanks at the ends of its segments**.
-/

namespace ExtensionCensus.Namespace

/-! ### Additions -/

/-- An addition: the path of the namespace that it is made on, and the dotted name. -/
structure Opening where
  base : NamespacePath
  dotted : String

/-- Additions one after the other: the tree in the end, and the path that each of them leads to. -/
def openAll : Namespace → List Opening → Namespace × List NamespacePath
  | root, [] => (root, [])
  | root, c :: rest =>
    let (after, path) := root.openAt c.base c.dotted
    let (last, answers) := openAll after rest
    (last, path :: answers)

/-- Every addition is made on a namespace that is there by then. -/
def Available : Namespace → List Opening → Prop
  | _, [] => True
  | root, c :: rest =>
    (root.find? c.base).isSome = true ∧ Available (root.openAt c.base c.dotted).1 rest

/-- Availability is decided by going through the additions. -/
def decideAvailable : ∀ (root : Namespace) (calls : List Opening), Decidable (Available root calls)
  | _, [] => .isTrue trivial
  | root, c :: rest =>
    have := decideAvailable (root.openAt c.base c.dotted).1 rest
    inferInstanceAs (Decidable ((root.find? c.base).isSome = true ∧ _))

instance (root : Namespace) (calls : List Opening) : Decidable (Available root calls) :=
  decideAvailable root calls

/-! ### What opening a path adds -/

section

variable {ns : Namespace} {path q : NamespacePath} {name : String}

theorem isSome_find?_empty : (empty.find? q).isSome = true ↔ q = [] := by
  cases q with
  | nil => exact iff_of_true rfl rfl
  | cons name rest => exact iff_of_false Bool.false_ne_true (List.cons_ne_nil name rest)

/-- After a path is opened, there is what was there before and what lies on the path. -/
theorem isSome_find?_update :
    ((update id path ns).find? q).isSome = true ↔ (ns.find? q).isSome = true ∨ q <+: path := by
  induction path generalizing ns q with
  | nil =>
    rw [List.prefix_nil]
    refine (or_iff_left_of_imp ?_).symm
    rintro rfl
    rfl
  | cons name rest ih =>
    cases q with
    | nil => exact iff_of_true rfl (.inl rfl)
    | cons other more =>
      rw [find?, update, child?_setChild, List.cons_prefix_cons]
      by_cases hother : other = name
      · rw [if_pos hother, Option.bind_some, ih, find?, hother]
        cases hc : ns.child? name with
        | some child => simp only [Option.getD_some, Option.bind_some, true_and]
        | none =>
          rw [Option.getD_none, isSome_find?_empty, Option.bind_none]
          simp only [Option.isSome_none, Bool.false_eq_true, true_and, false_or, or_iff_right_iff_imp]
          rintro rfl
          exact List.nil_prefix
      · rw [if_neg hother, find?, or_iff_left fun h => hother h.1]

/-- Opening a path that is there changes nothing. -/
theorem update_id_of_isSome (h : ns.Tabled) (hfind : (ns.find? path).isSome = true) :
    update id path ns = ns := by
  induction path generalizing ns with
  | nil => rfl
  | cons name rest ih =>
    obtain ⟨inner, hinner⟩ := Option.isSome_iff_exists.mp hfind
    obtain ⟨child, hchild, hrest⟩ := Option.bind_eq_some_iff.mp hinner
    rw [update, hchild, Option.getD_some,
      ih (h.child hchild) (Option.isSome_iff_exists.mpr ⟨inner, hrest⟩)]
    exact setChild_self h.lists.names hchild

/-- An addition adds nothing exactly if the namespace is there. -/
theorem openAt_eq_iff {base : NamespacePath} {dotted : String} (hd : ns.Tabled) :
    ns.openAt base dotted = (ns, path) ↔
      path = base ++ trimmedParts dotted ∧ (ns.find? path).isSome = true := by
  rw [openAt, Prod.mk.injEq]
  constructor
  · rintro ⟨hsame, rfl⟩
    refine ⟨rfl, ?_⟩
    rw [← hsame]
    exact isSome_find?_update.mpr (.inr List.prefix_rfl)
  · rintro ⟨rfl, hfind⟩
    exact ⟨update_id_of_isSome hd hfind, rfl⟩

end

/-! ### The names in a tree -/

/-- The names in a tree of additions: listed as the tables have them, distinct in every namespace, not
empty, and without dots and blanks at their ends. -/
structure WellNamed (root : Namespace) : Prop where
  tabled : root.Tabled
  segmented : ∀ path, (root.find? path).isSome = true → Segmented path
  trimmed : ∀ path, (root.find? path).isSome = true → ∀ s ∈ path, Text.trim s = s

section

variable {root : Namespace} {base path q : NamespacePath} {dotted : String} {calls : List Opening}

theorem trim_of_mem_trimmedParts {s : String} (h : s ∈ trimmedParts dotted) : Text.trim s = s := by
  obtain ⟨part, -, rfl⟩ := List.mem_map.mp (List.mem_of_mem_filter h)
  exact Text.trim_trim part

theorem wellNamed_empty : WellNamed empty := by
  refine ⟨tabled_empty, fun path h => ?_, fun path h => ?_⟩
  · rw [isSome_find?_empty.mp h]
    exact List.forall_mem_nil _
  · rw [isSome_find?_empty.mp h]
    exact List.forall_mem_nil _

/-- One addition on a namespace that is there keeps names as they should be. -/
theorem WellNamed.openAt (h : WellNamed root) (hbase : (root.find? base).isSome = true) :
    WellNamed (root.openAt base dotted).1 := by
  refine ⟨tabled_update (fun ns hd => hd) _ h.tabled, fun path hpath => ?_, fun path hpath => ?_⟩
  · rcases isSome_find?_update.mp hpath with hold | hnew
    · exact h.segmented path hold
    · intro s hs
      rcases List.mem_append.mp (hnew.subset hs) with hs | hs
      · exact h.segmented base hbase s hs
      · exact segmented_trimmedParts dotted s hs
  · rcases isSome_find?_update.mp hpath with hold | hnew
    · exact h.trimmed path hold
    · intro s hs
      rcases List.mem_append.mp (hnew.subset hs) with hs | hs
      · exact h.trimmed base hbase s hs
      · exact trim_of_mem_trimmedParts hs

/-- Additions keep names as they should be. -/
theorem WellNamed.openAll (h : WellNamed root) (hcalls : Available root calls) :
    WellNamed (root.openAll calls).1 := by
  induction calls generalizing root with
  | nil => exact h
  | cons c rest ih => exact ih (h.openAt hcalls.1) hcalls.2

/-- A namespace is found by its dotted name. -/
theorem WellNamed.lookup?_qualifiedName (h : WellNamed root)
    (hpath : (root.find? path).isSome = true) :
    root.lookup? [] (qualifiedName path) = some path := by
  obtain ⟨ns, hns⟩ := Option.isSome_iff_exists.mp hpath
  rw [lookup?, parts_qualifiedName (h.segmented path hpath), List.nil_append, hns, Option.map_some]

/-- Dotted names tell namespaces apart. -/
theorem WellNamed.qualifiedName_inj (h : WellNamed root) (hpath : (root.find? path).isSome = true)
    (hq : (root.find? q).isSome = true) (he : qualifiedName path = qualifiedName q) : path = q := by
  rw [← parts_qualifiedName (h.segmented path hpath), he, parts_qualifiedName (h.segmented q hq)]

/-! ### Additions one after the other -/

/-- After additions there is what was there before and what lies on the paths that they lead to. -/
theorem isSome_find?_openAll : ((root.openAll calls).1.find? q).isSome = true ↔
    (root.find? q).isSome = true ∨ ∃ p ∈ (root.openAll calls).2, q <+: p := by
  induction calls generalizing root with
  | nil => simp only [openAll, List.not_mem_nil, false_and, exists_false, or_false]
  | cons c rest ih =>
    rw [openAll]
    refine ih.trans ?_
    rw [openAt, isSome_find?_update, List.exists_mem_cons_iff, or_assoc]

/-- An addition that is repeated in the end leads where it led, and adds nothing. -/
theorem WellNamed.forall₂_openAt (h : WellNamed root) (hcalls : Available root calls) :
    List.Forall₂ (fun c p => (root.openAll calls).1.openAt c.base c.dotted
      = ((root.openAll calls).1, p)) calls (root.openAll calls).2 := by
  have hlast := (h.openAll hcalls).tabled
  suffices hpaths : List.Forall₂ (fun c p => p = c.base ++ trimmedParts c.dotted) calls
      (root.openAll calls).2 by
    refine (forall₂_with_mem hpaths).imp fun c p hcp => (openAt_eq_iff hlast).mpr ⟨hcp.2, ?_⟩
    exact isSome_find?_openAll.mpr (.inr ⟨p, hcp.1.2, List.prefix_rfl⟩)
  clear hlast h hcalls
  induction calls generalizing root with
  | nil => exact .nil
  | cons c rest ih => exact .cons rfl ih

/-- **Namespaces that were added are found again.** After any additions on namespaces of one tree,
whatever empty segments and blanks their names hold and however their paths overlap:

* the walk comes to every namespace once, before it comes to those inside it;
* no two namespaces have the same dotted name, and each is what its dotted name finds;
* there are the namespaces on the paths that the additions led to, and no others;
* every addition, made once more, leads where it led and adds nothing. -/
theorem openAll_roundTrips (h : Available empty calls) :
    let root := (empty.openAll calls).1
    let answers := (empty.openAll calls).2
    (∀ path ns, (path, ns) ∈ root.walk [] ↔ root.find? path = some ns) ∧
    (root.walk []).Pairwise (fun x y => ¬ y.1 <+: x.1) ∧
    ((root.walk []).map fun x => qualifiedName x.1).Nodup ∧
    (∀ x ∈ root.walk [], root.lookup? [] (qualifiedName x.1) = some x.1) ∧
    (∀ path, (root.find? path).isSome = true ↔ path = [] ∨ ∃ p ∈ answers, path <+: p) ∧
    List.Forall₂ (fun c p => root.openAt c.base c.dotted = (root, p)) calls answers := by
  intro root answers
  have hnamed : WellNamed root := wellNamed_empty.openAll h
  have horder := pairwise_walk [] root hnamed.tabled
  have hfound : ∀ x ∈ root.walk [], (root.find? x.1).isSome = true := fun x hx =>
    Option.isSome_iff_exists.mpr ⟨x.2, (mem_walk_iff hnamed.tabled).mp hx⟩
  refine ⟨fun path ns => mem_walk_iff hnamed.tabled, horder, ?_,
    fun x hx => hnamed.lookup?_qualifiedName (hfound x hx), fun path => ?_,
    wellNamed_empty.forall₂_openAt h⟩
  · rw [List.Nodup, List.pairwise_map]
    refine horder.imp_of_mem fun {x y} hx hy hxy he => hxy ?_
    have hsame : x.1 = y.1 := hnamed.qualifiedName_inj (hfound x hx) (hfound y hy) he
    exact hsame ▸ List.prefix_rfl
  · rw [isSome_find?_openAll, isSome_find?_empty]

/-- Paths that overlap, with blanks, empty segments and a name without any segment. -/
def overlapping : List Opening :=
  [⟨[], " A . B "⟩, ⟨["A"], "B..C"⟩, ⟨["A", "B"], " . "⟩, ⟨[], "A.B.C D"⟩]

theorem overlapping_roundTrips : Available empty overlapping ∧
    (empty.openAll overlapping).2 = [["A", "B"], ["A", "B", "C"], ["A", "B"], ["A", "B", "C D"]] ∧
    (empty.openAll overlapping).1.openAt ["A"] "B..C"
      = ((empty.openAll overlapping).1, ["A", "B", "C"]) := by
  have h : Available empty overlapping := by decide +kernel
  have hrepeated := (openAll_roundTrips h).2.2.2.2.2
  refine ⟨h, by decide +kernel, ?_⟩
  cases hrepeated with
  | cons _ hrest => cases hrest with
    | cons hsecond _ => exact hsecond

/-! ### One name for adding and for finding -/

theorem trimmedParts_eq_parts (h : ∀ s ∈ Text.segments '.' dotted, Text.trim s = s) :
    trimmedParts dotted = parts dotted := by
  rw [trimmedParts, map_eq_of_forall h, parts]

/-- What a dotted name finds is what opening it leads to without adding anything, if there are no
blanks at the ends of its segments. -/
theorem WellNamed.lookup?_eq_some_iff (h : WellNamed root) :
    root.lookup? base dotted = some path ↔ root.openAt base dotted = (root, path) ∧
      ∀ s ∈ Text.segments '.' dotted, Text.trim s = s := by
  rw [openAt_eq_iff h.tabled]
  constructor
  · intro hfound
    obtain ⟨ns, hns, rfl⟩ := Option.map_eq_some_iff.mp hfound
    have hpath : (root.find? (base ++ parts dotted)).isSome = true :=
      Option.isSome_iff_exists.mpr ⟨ns, hns⟩
    have hsegments : ∀ s ∈ Text.segments '.' dotted, Text.trim s = s := by
      intro s hs
      by_cases hempty : s = ""
      · rw [hempty]
        rfl
      · have hmem : s ∈ parts dotted := List.mem_filter.mpr ⟨hs, decide_eq_true hempty⟩
        exact h.trimmed _ hpath s (List.mem_append_right _ hmem)
    rw [trimmedParts_eq_parts hsegments]
    exact ⟨⟨rfl, hpath⟩, hsegments⟩
  · rintro ⟨⟨rfl, hpath⟩, hsegments⟩
    obtain ⟨ns, hns⟩ := Option.isSome_iff_exists.mp hpath
    rw [trimmedParts_eq_parts hsegments] at hns ⊢
    rw [lookup?, hns, Option.map_some]

/-- **Finding a dotted name and adding it agree, but for blanks.** In a tree of additions a dotted name
finds a namespace exactly if opening it leads there and adds nothing, and no segment of it has blanks at
its ends. So the two agree on a name exactly if opening it would add something, or no segment has blanks
at its ends. -/
theorem found_iff_opened (h : Available empty calls) (base : NamespacePath) (dotted : String) :
    let root := (empty.openAll calls).1
    (∀ path, root.lookup? base dotted = some path ↔ root.openAt base dotted = (root, path) ∧
      ∀ s ∈ Text.segments '.' dotted, Text.trim s = s) ∧
    ((∀ path, root.lookup? base dotted = some path ↔ root.openAt base dotted = (root, path)) ↔
      (∀ path, root.openAt base dotted ≠ (root, path)) ∨
        ∀ s ∈ Text.segments '.' dotted, Text.trim s = s) := by
  intro root
  have hnamed : WellNamed root := wellNamed_empty.openAll h
  have hlookup := fun path => @WellNamed.lookup?_eq_some_iff root base path dotted hnamed
  refine ⟨hlookup, fun hagree => ?_, fun hcase path => ?_⟩
  · by_cases hopened : ∃ path, root.openAt base dotted = (root, path)
    · obtain ⟨path, hpath⟩ := hopened
      exact .inr ((hlookup path).mp ((hagree path).mpr hpath)).2
    · exact .inl (not_exists.mp hopened)
  · rw [hlookup path]
    rcases hcase with hnew | hsegments
    · exact iff_of_false (fun hfound => hnew path hfound.1) (hnew path)
    · exact and_iff_left hsegments

/-- A name with blanks around it, which is added, is not found under the same name. -/
theorem blankName_unfound :
    let root := (empty.openAll [⟨[], " A "⟩]).1
    Available empty [⟨[], " A "⟩] ∧ root.openAt [] " A " = (root, ["A"]) ∧
      root.lookup? [] " A " = none ∧
      ¬ ∀ path, root.lookup? [] " A " = some path ↔ root.openAt [] " A " = (root, path) := by
  intro root
  have h : Available empty [⟨[], " A "⟩] := by decide +kernel
  have hopened : root.openAt [] " A " = (root, ["A"]) := by
    refine (openAt_eq_iff (wellNamed_empty.openAll h).tabled).mpr ⟨?_, ?_⟩
    · decide +kernel
    · decide +kernel
  refine ⟨h, hopened, by decide +kernel, fun hagree => ?_⟩
  rcases (found_iff_opened h [] " A ").2.mp hagree with hnew | hsegments
  · exact hnew _ hopened
  · exact absurd hsegments (by decide +kernel)

end

end ExtensionCensus.Namespace
