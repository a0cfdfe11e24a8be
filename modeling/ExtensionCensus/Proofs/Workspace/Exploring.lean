import ExtensionCensus.Workspace.Load
import ExtensionCensus.Proofs.Workspace.Graph

/-!
# The first pass

What the exploration of a solution finds.

* `follows` — the references that are followed from a project;
* `Recorded`, `Drawn`, `Advanced`, `Explored` — what holds of what an exploration has found, of its
  graph and of its queue, and all of it;
* `Explored.reject`, `Explored.accept` — it is kept by each step;
* `run_explored` — **either a project that is reached breaks off the exploration, or it finds all that
  is reached and nothing else**;
* `Explored.preorder` — the order of the second pass is depth first.
-/

namespace ExtensionCensus

variable {evaluate : String → Evaluation} {entries : List String}

/-- The projects that are followed from the project at a path: those that it refers to, if it can be
loaded. -/
def follows (evaluate : String → Evaluation) (path : String) : List String :=
  match (evaluate path).outcome with
  | .ok file => file.projectReferences
  | .error _ => []

theorem follows_of_ok {path : String} {file : ProjectFile}
    (h : (evaluate path).outcome = .ok file) : follows evaluate path = file.projectReferences := by
  rw [follows, h]

/-- What an exploration has found agrees with the evaluations: its files are loaded, its failures are
the nodes that could not be, and each of these has one. -/
structure Recorded (evaluate : String → Evaluation) (x : Exploration) : Prop where
  loaded : ∀ {p file}, x.loaded.lookup p = some file → (evaluate p).outcome = .ok file
  failed : ∀ {p}, x.graph.isFailed p = true → ∃ e, (evaluate p).outcome = .error (.load e)
  failures : ∀ f, f ∈ x.failures ↔ x.graph.isFailed f.path = true ∧
    ∃ e, (evaluate f.path).outcome = .error (.load e) ∧ f.message = e.message
  failuresOnce : (x.failures.map (·.path)).Nodup

/-- The graph of an exploration has the entries, and from each file that is loaded its references. -/
structure Drawn (evaluate : String → Evaluation) (entries : List String) (x : Exploration) : Prop where
  nodup : x.graph.paths.Nodup
  references : ∀ p, x.graph.references p =
    if (x.loaded.lookup p).isSome then (follows evaluate p).eraseDups else []
  targets : x.graph.HoldsTargets
  starts : ∀ p ∈ entries, p ∈ x.graph.paths

/-- An exploration looks at what is reached from its entries: what is settled leads to what is
settled or still in its queue. -/
structure Advanced (evaluate : String → Evaluation) (entries queue : List String) (x : Exploration) :
    Prop where
  queued : ∀ p ∈ queue, Reached (follows evaluate) entries p
  settled : ∀ p, x.isSettled p = true → Reached (follows evaluate) entries p
  entered : ∀ p ∈ entries, x.isSettled p = true ∨ p ∈ queue
  followed : ∀ p, x.isSettled p = true →
    ∀ r ∈ follows evaluate p, x.isSettled r = true ∨ r ∈ queue

/-- What holds of an exploration from some entries while the paths of a queue are left to look at. -/
structure Explored (evaluate : String → Evaluation) (entries queue : List String) (x : Exploration) :
    Prop extends Recorded evaluate x, Drawn evaluate entries x, Advanced evaluate entries queue x

/-! ### Steps -/

namespace Exploration

variable {x : Exploration} {path : String}

theorem isSettled_iff {p : String} : x.isSettled p = true ↔
    (x.loaded.lookup p).isSome = true ∨ x.graph.isFailed p = true := by
  rw [isSettled, Bool.or_eq_true]

theorem lookup_of_not_isSettled (h : x.isSettled path = false) : x.loaded.lookup path = none := by
  rw [isSettled, Bool.or_eq_false_iff] at h
  rw [← Option.isNone_iff_eq_none, ← Option.isSome_eq_false_iff]
  exact h.1

/-! The graph and the loaded files after a path was looked at. -/

theorem isFailed_reject (x : Exploration) (path : String) (e : Evaluation) (error : LoadError)
    (p : String) :
    ((x.visit path e).reject path error).graph.isFailed p =
      (x.graph.isFailed p || decide (p = path)) := by
  rw [← ReferenceGraph.isFailed_add (g := x.graph) path p]
  exact ReferenceGraph.isFailed_fail (ReferenceGraph.mem_paths_add.mpr (.inr rfl)) p

theorem references_reject (e : Evaluation) (error : LoadError) (p : String) :
    ((x.visit path e).reject path error).graph.references p = x.graph.references p := by
  rw [← ReferenceGraph.references_add (g := x.graph) path p]
  exact ReferenceGraph.references_fail path p

theorem paths_reject (e : Evaluation) (error : LoadError) :
    ((x.visit path e).reject path error).graph.paths = (x.graph.add path).paths :=
  ReferenceGraph.paths_fail path

theorem graph_accept (e : Evaluation) (file : ProjectFile) :
    ((x.visit path e).accept path file).graph =
      (x.graph.add path).addReferences path file.projectReferences :=
  rfl

theorem isFailed_accept (x : Exploration) (path : String) (e : Evaluation) (file : ProjectFile)
    (p : String) :
    ((x.visit path e).accept path file).graph.isFailed p = x.graph.isFailed p := by
  rw [graph_accept, ReferenceGraph.isFailed_addReferences, ReferenceGraph.isFailed_add]

theorem lookup_accept (h : x.loaded.lookup path = none) (e : Evaluation) (file : ProjectFile)
    (p : String) : ((x.visit path e).accept path file).loaded.lookup p =
      if p = path then some file else x.loaded.lookup p := by
  show (x.loaded ++ [(path, file)]).lookup p = _
  rw [List.lookup_append]
  by_cases hp : p = path
  · rw [if_pos hp, hp, h, Option.none_or, List.lookup_cons_self]
  · rw [if_neg hp, List.lookup_cons, beq_eq_false_iff_ne.mpr hp]
    exact Option.or_none

theorem isSettled_reject (x : Exploration) (path : String) (e : Evaluation) (error : LoadError)
    (p : String) :
    ((x.visit path e).reject path error).isSettled p = true ↔ x.isSettled p = true ∨ p = path := by
  rw [isSettled, isFailed_reject, isSettled, ← Bool.or_assoc, Bool.or_eq_true (_ || _),
    decide_eq_true_eq]
  exact Iff.rfl

theorem isSettled_accept (h : x.loaded.lookup path = none) (e : Evaluation) (file : ProjectFile)
    (p : String) : ((x.visit path e).accept path file).isSettled p = true ↔
      x.isSettled p = true ∨ p = path := by
  rw [isSettled_iff, isSettled_iff, isFailed_accept, lookup_accept h]
  by_cases hp : p = path
  · simp [hp]
  · simp [hp]

end Exploration

section

variable {x : Exploration} {path : String} {rest : List String}

/-! What was found. -/

theorem Recorded.reject {error : LoadError} (h : Recorded evaluate x)
    (hnew : x.isSettled path = false) (houtcome : (evaluate path).outcome = .error (.load error)) :
    Recorded evaluate ((x.visit path (evaluate path)).reject path error) := by
  have hfailed := x.isFailed_reject path (evaluate path) error
  have hnotFailed : x.graph.isFailed path = false := (Bool.or_eq_false_iff.mp hnew).2
  constructor
  case loaded => exact h.loaded
  case failed =>
    intro p hp
    rw [hfailed, Bool.or_eq_true, decide_eq_true_eq] at hp
    rcases hp with hp | rfl
    · exact h.failed hp
    · exact ⟨error, houtcome⟩
  case failures =>
    intro f
    show f ∈ x.failures ++ [⟨path, error.message⟩] ↔ _
    rw [List.mem_append, h.failures, hfailed, Bool.or_eq_true, decide_eq_true_eq,
      List.mem_singleton]
    constructor
    · rintro (⟨hf, he⟩ | rfl)
      · exact ⟨.inl hf, he⟩
      · exact ⟨.inr rfl, error, houtcome, rfl⟩
    · rintro ⟨hf | hf, e, he, hmessage⟩
      · exact .inl ⟨hf, e, he, hmessage⟩
      · rw [hf, houtcome] at he
        cases he
        obtain ⟨fpath, message⟩ := f
        cases hf
        cases hmessage
        exact .inr rfl
  case failuresOnce =>
    show ((x.failures ++ [({ path, message := error.message } : LoadFailure)]).map (·.path)).Nodup
    rw [List.map_append, List.nodup_append]
    refine ⟨h.failuresOnce, List.nodup_singleton _, fun p hp q hq hpq => ?_⟩
    obtain ⟨f, hf, rfl⟩ := List.mem_map.mp hp
    have hpath : f.path = path := hpq.trans (List.mem_singleton.mp hq)
    have := ((h.failures f).mp hf).1
    rw [hpath, hnotFailed] at this
    cases this

theorem Recorded.accept {file : ProjectFile} (h : Recorded evaluate x)
    (hnew : x.isSettled path = false) (houtcome : (evaluate path).outcome = .ok file) :
    Recorded evaluate ((x.visit path (evaluate path)).accept path file) := by
  have hfailed := x.isFailed_accept path (evaluate path) file
  have hloaded := Exploration.lookup_accept (Exploration.lookup_of_not_isSettled hnew)
    (evaluate path) file
  constructor
  case loaded =>
    intro p found hp
    rw [hloaded] at hp
    split at hp
    · next hpath =>
      cases hp
      exact hpath ▸ houtcome
    · exact h.loaded hp
  case failed =>
    intro p hp
    rw [hfailed] at hp
    exact h.failed hp
  case failures =>
    intro f
    rw [hfailed]
    exact h.failures f
  case failuresOnce => exact h.failuresOnce

/-! The graph. -/

theorem Drawn.reject (h : Drawn evaluate entries x) (error : LoadError) :
    Drawn evaluate entries ((x.visit path (evaluate path)).reject path error) := by
  have hpaths {q : String} (hq : q ∈ x.graph.paths) : q ∈ (x.graph.add path).paths :=
    ReferenceGraph.mem_paths_add.mpr (.inl hq)
  constructor
  case nodup =>
    rw [Exploration.paths_reject]
    exact ReferenceGraph.nodup_add h.nodup path
  case references =>
    intro p
    rw [Exploration.references_reject]
    exact h.references p
  case targets =>
    intro p q hq
    rw [Exploration.references_reject] at hq
    rw [Exploration.paths_reject]
    exact hpaths (h.targets p q hq)
  case starts =>
    intro p hp
    rw [Exploration.paths_reject]
    exact hpaths (h.starts p hp)

theorem Drawn.accept {file : ProjectFile} (h : Drawn evaluate entries x)
    (hnew : x.isSettled path = false) (houtcome : (evaluate path).outcome = .ok file) :
    Drawn evaluate entries ((x.visit path (evaluate path)).accept path file) := by
  have hlookup := Exploration.lookup_of_not_isSettled hnew
  have hloaded := Exploration.lookup_accept hlookup (evaluate path) file
  have hpath : path ∈ (x.graph.add path).paths := ReferenceGraph.mem_paths_add.mpr (.inr rfl)
  have hpaths {q : String} := ReferenceGraph.mem_paths_addReferences (q := q)
    file.projectReferences hpath
  have hreferences (p : String) : ((x.visit path (evaluate path)).accept path file).graph.references p
      = if p = path then file.projectReferences.eraseDups else x.graph.references p := by
    rw [Exploration.graph_accept]
    by_cases hp : p = path
    · have hnone : (x.graph.add path).references path = [] := by
        rw [ReferenceGraph.references_add, h.references, hlookup]
        rfl
      rw [if_pos hp, hp, ReferenceGraph.references_addReferences_self _ (hnone ▸ List.nodup_nil),
        hnone, List.nil_append]
    · rw [if_neg hp, ReferenceGraph.references_addReferences_of_ne hp,
        ReferenceGraph.references_add]
  constructor
  case nodup =>
    rw [Exploration.graph_accept]
    exact ReferenceGraph.nodup_addReferences (ReferenceGraph.nodup_add h.nodup path) _ _
  case references =>
    intro p
    rw [hreferences, hloaded]
    split
    · next hp => rw [hp, follows_of_ok houtcome, Option.isSome_some, if_pos rfl]
    · exact h.references p
  case targets =>
    intro p q hq
    rw [hreferences] at hq
    rw [Exploration.graph_accept, hpaths]
    split at hq
    · exact .inr (List.mem_eraseDups.mp hq)
    · exact .inl (ReferenceGraph.mem_paths_add.mpr (.inl (h.targets p q hq)))
  case starts =>
    intro p hp
    rw [Exploration.graph_accept, hpaths]
    exact .inl (ReferenceGraph.mem_paths_add.mpr (.inl (h.starts p hp)))

/-! The queue. -/

/-- A path that is settled is passed over. -/
theorem Advanced.skip (h : Advanced evaluate entries (path :: rest) x)
    (hsettled : x.isSettled path = true) : Advanced evaluate entries rest x := by
  have hrest {p : String} (hp : x.isSettled p = true ∨ p ∈ path :: rest) :
      x.isSettled p = true ∨ p ∈ rest := by
    rcases hp with hp | hp
    · exact .inl hp
    · rcases List.mem_cons.mp hp with rfl | hp
      · exact .inl hsettled
      · exact .inr hp
  exact { h with
    queued := fun p hp => h.queued p (List.mem_cons_of_mem _ hp)
    entered := fun p hp => hrest (h.entered p hp)
    followed := fun p hp r hr => hrest (h.followed p hp r hr) }

/-- A path that becomes settled hands what it leads to over to the queue. -/
theorem Advanced.settle {x' : Exploration} (h : Advanced evaluate entries (path :: rest) x)
    (hsettled : ∀ p, x'.isSettled p = true ↔ x.isSettled p = true ∨ p = path) :
    Advanced evaluate entries (rest ++ follows evaluate path) x' := by
  have hrest {p : String} (hp : x.isSettled p = true ∨ p ∈ path :: rest) :
      x'.isSettled p = true ∨ p ∈ rest ++ follows evaluate path := by
    rw [hsettled, List.mem_append]
    rw [List.mem_cons] at hp
    grind
  have hpath := h.queued path List.mem_cons_self
  constructor
  case queued =>
    intro p hp
    rcases List.mem_append.mp hp with hp | hp
    · exact h.queued p (List.mem_cons_of_mem _ hp)
    · exact .reference hpath hp
  case settled =>
    intro p hp
    rcases (hsettled p).mp hp with hp | rfl
    · exact h.settled p hp
    · exact hpath
  case entered => exact fun p hp => hrest (h.entered p hp)
  case followed =>
    intro p hp r hr
    rcases (hsettled p).mp hp with hp | rfl
    · exact hrest (h.followed p hp r hr)
    · exact .inr (List.mem_append_right _ hr)

end

namespace Explored

variable {x : Exploration} {path : String} {rest : List String}

/-- The exploration before its first step. -/
theorem start (evaluate : String → Evaluation) (entries : List String) :
    Explored evaluate entries entries { graph := entries.foldl (·.add ·) {} } := by
  obtain ⟨hpaths, hnodup, hreferences, hfailed⟩ := ReferenceGraph.foldl_add entries
  have hsettled (p : String) :
      ¬(Exploration.isSettled { graph := entries.foldl (·.add ·) {} } p = true) := by
    rw [Exploration.isSettled_iff, hfailed]
    simp
  constructor
  case toRecorded =>
    refine ⟨nofun, fun {p} hp => ?_, fun f => ⟨nofun, fun hf => ?_⟩, List.nodup_nil⟩
    · rw [hfailed] at hp
      cases hp
    · rw [hfailed] at hf
      cases hf.1
  case toDrawn =>
    refine ⟨hnodup, hreferences, fun p q hq => ?_, fun p hp => (hpaths p).mpr hp⟩
    rw [hreferences] at hq
    cases hq
  case toAdvanced =>
    exact ⟨fun p hp => .start hp, fun p hp => absurd hp (hsettled p), fun p hp => .inr hp,
      fun p hp => absurd hp (hsettled p)⟩

/-- A path that is settled is passed over. -/
theorem skip (h : Explored evaluate entries (path :: rest) x) (hsettled : x.isSettled path = true) :
    Explored evaluate entries rest x :=
  ⟨h.toRecorded, h.toDrawn, h.toAdvanced.skip hsettled⟩

/-- A project that cannot be loaded leads nowhere. -/
theorem reject {error : LoadError} (h : Explored evaluate entries (path :: rest) x)
    (hnew : x.isSettled path = false) (houtcome : (evaluate path).outcome = .error (.load error)) :
    Explored evaluate entries rest ((x.visit path (evaluate path)).reject path error) := by
  have hadvanced := h.toAdvanced.settle (x.isSettled_reject path (evaluate path) error)
  rw [follows, houtcome, List.append_nil] at hadvanced
  exact ⟨h.toRecorded.reject hnew houtcome, h.toDrawn.reject error, hadvanced⟩

/-- A project that is loaded leads to its references. -/
theorem accept {file : ProjectFile} (h : Explored evaluate entries (path :: rest) x)
    (hnew : x.isSettled path = false) (houtcome : (evaluate path).outcome = .ok file) :
    Explored evaluate entries (rest ++ file.projectReferences)
      ((x.visit path (evaluate path)).accept path file) := by
  have hadvanced := h.toAdvanced.settle
    (Exploration.isSettled_accept (Exploration.lookup_of_not_isSettled hnew) (evaluate path) file)
  rw [follows_of_ok houtcome] at hadvanced
  exact ⟨h.toRecorded.accept hnew houtcome, h.toDrawn.accept hnew houtcome, hadvanced⟩

/-! ### The whole exploration -/

/-- An exploration that has nothing left to look at has settled all that is reached. -/
theorem isSettled_iff_reached (h : Explored evaluate entries [] x) {p : String} :
    x.isSettled p = true ↔ Reached (follows evaluate) entries p := by
  refine ⟨h.settled p, fun hp => ?_⟩
  induction hp with
  | start hp => exact (h.entered _ hp).resolve_right List.not_mem_nil
  | reference _ hrefers ih => exact (h.followed _ ih _ hrefers).resolve_right List.not_mem_nil

/-- It has loaded what is reached and can be loaded. -/
theorem lookup_iff (h : Explored evaluate entries [] x) {p : String} {file : ProjectFile} :
    x.loaded.lookup p = some file ↔
      Reached (follows evaluate) entries p ∧ (evaluate p).outcome = .ok file := by
  constructor
  · intro hp
    exact ⟨h.settled p (Exploration.isSettled_iff.mpr (.inl (hp ▸ rfl))), h.loaded hp⟩
  · rintro ⟨hp, houtcome⟩
    rcases Exploration.isSettled_iff.mp (h.isSettled_iff_reached.mpr hp) with hloaded | hfailed
    · obtain ⟨file', hfile⟩ := Option.isSome_iff_exists.mp hloaded
      rw [h.loaded hfile] at houtcome
      cases houtcome
      exact hfile
    · obtain ⟨e, he⟩ := h.failed hfailed
      rw [houtcome] at he
      cases he

/-- Its failures are what is reached and cannot be loaded. -/
theorem mem_failures_iff (h : Explored evaluate entries [] x) {f : LoadFailure} :
    f ∈ x.failures ↔ Reached (follows evaluate) entries f.path ∧
      ∃ e, (evaluate f.path).outcome = .error (.load e) ∧ f.message = e.message := by
  rw [h.failures]
  refine and_congr_left fun ⟨e, he, _⟩ => ?_
  refine ⟨fun hfailed => h.settled _ (Exploration.isSettled_iff.mpr (.inr hfailed)), fun hp => ?_⟩
  refine (Exploration.isSettled_iff.mp (h.isSettled_iff_reached.mpr hp)).resolve_left fun hloaded => ?_
  obtain ⟨file, hfile⟩ := Option.isSome_iff_exists.mp hloaded
  rw [h.loaded hfile] at he
  cases he

/-- Nothing that is reached breaks it off. -/
theorem clear (h : Explored evaluate entries [] x) {p : String}
    (hp : Reached (follows evaluate) entries p) (fault : EvaluationFault) :
    (evaluate p).outcome ≠ .error (.fault fault) := by
  intro hfault
  rcases Exploration.isSettled_iff.mp (h.isSettled_iff_reached.mpr hp) with hloaded | hfailed
  · obtain ⟨file, hfile⟩ := Option.isSome_iff_exists.mp hloaded
    rw [h.loaded hfile] at hfault
    cases hfault
  · obtain ⟨e, he⟩ := h.failed hfailed
    rw [hfault] at he
    cases he

/-- References in the graph are references of projects. -/
theorem mem_follows (h : Explored evaluate entries [] x) {p q : String}
    (hq : q ∈ x.graph.references p) : q ∈ follows evaluate p := by
  rw [h.references] at hq
  split at hq
  · exact List.mem_eraseDups.mp hq
  · cases hq

/-- A reached project has in the graph what it leads to, each once. -/
theorem references_of_reached (h : Explored evaluate entries [] x) {p : String}
    (hp : Reached (follows evaluate) entries p) :
    x.graph.references p = (follows evaluate p).eraseDups := by
  rw [h.references]
  split
  · rfl
  · next hloaded =>
    have hfailed := (Exploration.isSettled_iff.mp (h.isSettled_iff_reached.mpr hp)).resolve_left
      hloaded
    obtain ⟨e, he⟩ := h.failed hfailed
    rw [follows, he]
    rfl

/-- **The order of the second pass is depth first.** -/
theorem preorder (h : Explored evaluate entries [] x) :
    Preorder (follows evaluate) [] entries ((entries.flatMap x.graph.search).eraseDups) := by
  have hgraph : Preorder x.graph.references [] entries ((entries.flatMap x.graph.search).eraseDups) := by
    have hnone : ClosedUnder x.graph.references [] := fun _ hp => absurd hp List.not_mem_nil
    have hsearches := Preorder.flatMap_eraseDups
      (fun p hp => ReferenceGraph.preorder_search h.targets h.nodup (h.starts p hp)) hnone
    rwa [List.filter_eq_self.mpr fun q _ => by simp] at hsearches
  refine hgraph.of_next_eraseDups fun p hp => h.references_of_reached ?_
  exact (hgraph.reached_of_mem p hp).of_next fun q r hr => h.mem_follows hr

end Explored

/-- **The first pass.**  If every project that is reached and can be loaded is among the files that
remain, the exploration ends without a fault and has found all that is reached, or it ends at the
fault of a project that is reached. -/
theorem run_explored {remaining queue : List String} {x : Exploration}
    (h : Explored evaluate entries queue x)
    (hfiles : ∀ p file, Reached (follows evaluate) entries p → (evaluate p).outcome = .ok file →
      p ∈ remaining ∨ x.isSettled p = true) :
    (∃ x', x.run evaluate remaining queue = (x', none) ∧ Explored evaluate entries [] x') ∨
      ∃ x' fault p, x.run evaluate remaining queue = (x', some fault) ∧
        Reached (follows evaluate) entries p ∧ (evaluate p).outcome = .error (.fault fault) := by
  fun_induction Exploration.run evaluate remaining x queue with
  | case1 remaining x => exact .inl ⟨x, rfl, h⟩
  | case2 remaining x path rest hsettled ih => exact ih (h.skip hsettled) hfiles
  | case3 remaining x path rest hnew e fault houtcome =>
    exact .inr ⟨_, fault, path, rfl, h.queued path List.mem_cons_self, houtcome⟩
  | case4 remaining x path rest hnew e error houtcome ih =>
    rw [Bool.not_eq_true] at hnew
    refine ih (h.reject hnew houtcome) fun p file hp hfile => ?_
    exact (hfiles p file hp hfile).imp_right fun hsettled =>
      (Exploration.isSettled_reject _ _ _ _ p).mpr (.inl hsettled)
  | case5 remaining x path rest hnew e file houtcome x' hpath ih =>
    rw [Bool.not_eq_true] at hnew
    have hlookup := Exploration.lookup_of_not_isSettled hnew
    refine ih (h.accept hnew houtcome) fun p found hp hfound => ?_
    have hsettled := Exploration.isSettled_accept hlookup e file p
    by_cases hpp : p = path
    · exact .inr (hsettled.mpr (.inr hpp))
    · refine (hfiles p found hp hfound).imp (fun hremaining => ?_) fun h => hsettled.mpr (.inl h)
      exact (List.mem_erase_of_ne hpp).mpr hremaining
  | case6 remaining x path rest hnew e file houtcome x' hpath ih =>
    -- a path that has a file is among those that remain
    exact absurd (hfiles path file (h.queued path List.mem_cons_self) houtcome) (by grind)

end ExtensionCensus
