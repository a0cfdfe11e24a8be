import ExtensionCensus.Proofs.File.Tree
import ExtensionCensus.Proofs.Project.Evaluating
import ExtensionCensus.Proofs.Workspace.Building
import ExtensionCensus.Proofs.Workspace.Exploring

/-!
# Loading entries

What becomes of a list of entries when their projects are loaded.

* `references` — the projects that the loading follows from a project;
* `loadedFlavours`, `flavourFrameworks`, `BreaksProject` — what a project is built to, for which
  frameworks, and what breaks off the loading;
* `Opened` — a solution holds exactly what is reached from its entries;
* `loadEntries_spec` — **loading some entries gives such a solution, unless a project that is reached
  breaks it off**;
* `opened_of_ok`, `opens_iff` — the same for a solution file that can be read.
-/

namespace ExtensionCensus

open ExtensionCensus.Path (IsAbsolute IsNormal)

variable (tree : FileTree) (configuration : String)

/-! ### Projects at paths -/

/-- The projects that the loading of a solution follows from the project at a path: its references
as they stand without a target framework. -/
def references (path : String) : List String :=
  follows (evaluateProject tree · configuration "") path

/-- What the project at a path is built to. -/
def loadedFlavours (path : String) : List Project :=
  match (evaluateProject tree path configuration "").outcome with
  | .ok file => flavoursOf (evaluateProject tree · configuration ·) file
  | .error _ => []

/-- The frameworks for which the flavours of the project at a path are evaluated: its target frameworks
if there are several, and none otherwise, for which the empty text stands. -/
def flavourFrameworks (path : String) : List String :=
  match (evaluateProject tree path configuration "").outcome with
  | .ok file => if 2 ≤ file.targetFrameworks.length then file.targetFrameworks else [""]
  | .error _ => []

/-- The project at a path breaks off the loading of a solution: its evaluation without a framework
does, or one that a flavour needs. -/
def BreaksProject (path : String) : Prop :=
  Breaks tree path configuration "" ∨
    ∃ framework ∈ flavourFrameworks tree configuration path, Breaks tree path configuration framework

/-- A solution holds what is reached from some entries: the flavours of each project that can be
loaded, in depth-first order, and one failure for each other one. -/
structure Opened (entries : List String) (s : Solution) : Prop where
  projects : ∃ order, Preorder (references tree configuration) [] entries order ∧
    s.projects = order.flatMap (loadedFlavours tree configuration)
  failures : ∀ f, f ∈ s.failures ↔ Reached (references tree configuration) entries f.path ∧
    ∃ e, (evaluateProject tree f.path configuration "").outcome = .error (.load e) ∧
      f.message = e.message
  failuresOnce : (s.failures.map (·.path)).Nodup

variable {tree configuration} {entries : List String}

/-! ### Reached projects -/

/-- Whatever is reached from paths in normal form is at a path in normal form. -/
theorem isNormal_of_reached (hentries : ∀ p ∈ entries, IsNormal p) {p : String}
    (hp : Reached (references tree configuration) entries p) : IsNormal p := by
  induction hp with
  | start hp => exact hentries _ hp
  | @reference p q _ hrefers ih =>
    rw [references, follows] at hrefers
    split at hrefers
    · next file houtcome => exact (evaluateProject_ok tree ih houtcome).2.1 q hrefers
    · cases hrefers

theorem fault_iff_breaks {p framework : String} (hp : IsNormal p) :
    (∃ fault, (evaluateProject tree p configuration framework).outcome = .error (.fault fault)) ↔
      Breaks tree p configuration framework :=
  evaluateProject_fault_iff tree hp

/-- An evaluation for a framework has no error of loading where one without a framework has none. -/
theorem not_load_of_ok {p framework : String} {file : ProjectFile}
    (h : (evaluateProject tree p configuration "").outcome = .ok file) (e : LoadError) :
    (evaluateProject tree p configuration framework).outcome ≠ .error (.load e) := by
  intro hload
  rw [evaluateProject_load tree hload] at h
  cases h

/-- A project that is evaluated breaks off the loading just if one of several flavours does. -/
theorem breaksProject_iff_breaksFlavour {p : String} {file : ProjectFile} (hp : IsNormal p)
    (h : (evaluateProject tree p configuration "").outcome = .ok file) :
    BreaksProject tree configuration p ↔
      BreaksFlavour (evaluateProject tree · configuration ·) file := by
  have hclear : ¬Breaks tree p configuration "" := by
    intro hbreaks
    obtain ⟨fault, hfault⟩ := (fault_iff_breaks hp).mpr hbreaks
    rw [h] at hfault
    cases hfault
  rw [BreaksProject, flavourFrameworks, h, or_iff_right hclear, BreaksFlavour,
    (evaluateProject_ok tree hp h).1]
  simp only [fault_iff_breaks hp]
  split
  · next hseveral => exact (and_iff_right hseveral).symm
  · next hseveral =>
    refine ⟨?_, fun hbreaks => absurd hbreaks.1 hseveral⟩
    rintro ⟨framework, hframework, hbreaks⟩
    cases List.mem_singleton.mp hframework
    exact absurd hbreaks hclear

/-- A project that names no sources breaks off nothing. -/
theorem not_breaksProject_of_namesNoSources {p : String} (h : namesNoSources tree p = true) :
    ¬BreaksProject tree configuration p := by
  rintro (hbreaks | ⟨framework, -, hbreaks⟩)
  · exact not_breaks_of_namesNoSources tree h hbreaks
  · exact not_breaks_of_namesNoSources tree h hbreaks

/-! ### Both passes -/

theorem filterMap_flatMap_eq {α β γ : Type} (f : α → Option β) (g : β → List γ) (h : α → List γ)
    {l : List α} (hf : ∀ a ∈ l, h a = ((f a).map g).getD []) :
    (l.filterMap f).flatMap g = l.flatMap h := by
  induction l with
  | nil => rfl
  | cons a rest ih =>
    have hrest := ih fun b hb => hf b (List.mem_cons_of_mem _ hb)
    have ha := hf a List.mem_cons_self
    rw [List.filterMap_cons, List.flatMap_cons, ha]
    cases f a with
    | none => exact hrest
    | some b =>
      rw [List.flatMap_cons, hrest]
      rfl

/-- A file of the second pass is that of a project that is reached. -/
theorem Explored.of_mem_loadOrder {evaluate : String → Evaluation} {x : Exploration}
    (h : Explored evaluate entries [] x) {file : ProjectFile} (hfile : file ∈ x.loadOrder entries) :
    ∃ p, Reached (follows evaluate) entries p ∧ (evaluate p).outcome = .ok file := by
  obtain ⟨p, -, hp⟩ := List.mem_filterMap.mp hfile
  exact ⟨p, h.lookup_iff.mp hp⟩

/-- The exploration before anything is evaluated. -/
def unexplored (entries : List String) : Exploration :=
  { graph := entries.foldl (·.add ·) {} }

/-- The first pass over entries in normal form. -/
theorem run_reached (hentries : ∀ p ∈ entries, IsNormal p) :
    (∃ x, (unexplored entries).run (evaluateProject tree · configuration "") (filePaths tree) entries =
          (x, none) ∧
        Explored (evaluateProject tree · configuration "") entries [] x) ∨
      ∃ x fault p, (unexplored entries).run (evaluateProject tree · configuration "") (filePaths tree)
          entries = (x, some fault) ∧
        Reached (references tree configuration) entries p ∧ Breaks tree p configuration "" := by
  have hfiles : ∀ p file, Reached (references tree configuration) entries p →
      (evaluateProject tree p configuration "").outcome = .ok file → p ∈ filePaths tree := by
    intro p file hp hfile
    have hnormal := isNormal_of_reached hentries hp
    obtain ⟨content, hread⟩ := (evaluateProject_ok tree hnormal hfile).2.2
    exact mem_filePaths_of_read hnormal hread
  rcases run_explored (Explored.start (evaluateProject tree · configuration "") entries)
    fun p file hp hfile => .inl (hfiles p file hp hfile) with hdone | ⟨x, fault, p, hx, hp, hfault⟩
  · exact .inl hdone
  · exact .inr ⟨x, fault, p, hx, hp,
      (fault_iff_breaks (isNormal_of_reached hentries hp)).mp ⟨fault, hfault⟩⟩

/-! How the outcome follows from both passes. -/

section

variable {path : String} {x : Exploration} {f : Flavours} {fault : EvaluationFault}

theorem loadEntries_of_run_fault
    (hx : (unexplored entries).run (evaluateProject tree · configuration "") (filePaths tree) entries =
      (x, some fault)) :
    (loadEntries tree configuration path entries).outcome = .error (.fault fault) := by
  unfold unexplored at hx
  simp only [loadEntries, hx]

theorem loadEntries_of_buildAll_fault
    (hx : (unexplored entries).run (evaluateProject tree · configuration "") (filePaths tree) entries =
      (x, none))
    (hf : Flavours.buildAll (evaluateProject tree · configuration ·)
      { failures := x.failures, messages := x.messages } (x.loadOrder entries) = (f, some fault)) :
    (loadEntries tree configuration path entries).outcome = .error (.fault fault) := by
  unfold unexplored at hx
  simp only [loadEntries, hx, hf]

theorem loadEntries_of_buildAll
    (hx : (unexplored entries).run (evaluateProject tree · configuration "") (filePaths tree) entries =
      (x, none))
    (hf : Flavours.buildAll (evaluateProject tree · configuration ·)
      { failures := x.failures, messages := x.messages } (x.loadOrder entries) = (f, none)) :
    (loadEntries tree configuration path entries).outcome =
      .ok { path, projects := f.projects, failures := f.failures, graph := x.graph } := by
  unfold unexplored at hx
  simp only [loadEntries, hx, hf]

end

/-- What the second pass makes of an exploration is what the entries lead to. -/
theorem Explored.opened {x : Exploration} {s : Solution}
    (h : Explored (evaluateProject tree · configuration "") entries [] x)
    (hprojects : s.projects = (x.loadOrder entries).flatMap
      (flavoursOf (evaluateProject tree · configuration ·)))
    (hfailures : s.failures = x.failures) : Opened tree configuration entries s := by
  refine ⟨⟨_, h.preorder, ?_⟩, fun f => ?_, ?_⟩
  · rw [hprojects, Exploration.loadOrder]
    refine filterMap_flatMap_eq _ _ _ fun p hp => ?_
    have hreached := h.preorder.reached_of_mem p hp
    cases hlookup : x.loaded.lookup p with
    | some file =>
      rw [loadedFlavours, (h.lookup_iff.mp hlookup).2]
      rfl
    | none =>
      rw [loadedFlavours]
      split
      · next file houtcome =>
        rw [h.lookup_iff.mpr ⟨hreached, houtcome⟩] at hlookup
        cases hlookup
      · rfl
  · rw [hfailures]
    exact h.mem_failures_iff
  · rw [hfailures]
    exact h.failuresOnce

/-- **Loading entries.**  Entries in normal form are loaded to a solution that holds exactly what is
reached, if nothing that is reached breaks off the loading; otherwise the loading ends there. -/
theorem loadEntries_spec (hentries : ∀ p ∈ entries, IsNormal p) (path : String) :
    (∃ s, (loadEntries tree configuration path entries).outcome = .ok s ∧
        Opened tree configuration entries s ∧
        ∀ p, Reached (references tree configuration) entries p →
          ¬BreaksProject tree configuration p) ∨
      ∃ fault p, (loadEntries tree configuration path entries).outcome = .error (.fault fault) ∧
        Reached (references tree configuration) entries p ∧ BreaksProject tree configuration p := by
  rcases run_reached hentries with ⟨x, hx, hexplored⟩ | ⟨x, fault, p, hx, hp, hbreaks⟩
  · have hload : ∀ file ∈ x.loadOrder entries, ∀ framework e,
        (evaluateProject tree file.path configuration framework).outcome ≠ .error (.load e) := by
      intro file hfile framework e
      obtain ⟨p, hp, houtcome⟩ := hexplored.of_mem_loadOrder hfile
      rw [(evaluateProject_ok tree (isNormal_of_reached hentries hp) houtcome).1]
      exact not_load_of_ok houtcome e
    rcases @Flavours.buildAll_spec (evaluateProject tree · configuration ·)
        { failures := x.failures, messages := x.messages } _ hload with
      ⟨f, hf, hprojects, hfailures, hclear⟩ | ⟨f, fault, hf, file, hfile, hbreaks⟩
    · refine .inl ⟨_, loadEntries_of_buildAll hx hf, hexplored.opened hprojects hfailures,
        fun p hp hbreaks => ?_⟩
      have hnormal := isNormal_of_reached hentries hp
      cases houtcome : (evaluateProject tree p configuration "").outcome with
      | ok file =>
        have hfile : file ∈ x.loadOrder entries := List.mem_filterMap.mpr
          ⟨p, hexplored.preorder.mem_iff_reached.mpr hp, hexplored.lookup_iff.mpr ⟨hp, houtcome⟩⟩
        exact hclear file hfile ((breaksProject_iff_breaksFlavour hnormal houtcome).mp hbreaks)
      | error e =>
        rw [BreaksProject, flavourFrameworks, houtcome] at hbreaks
        obtain ⟨fault, hfault⟩ := (fault_iff_breaks hnormal).mpr
          (hbreaks.resolve_right fun ⟨_, hframework, _⟩ => nomatch hframework)
        exact hexplored.clear hp fault hfault
    · obtain ⟨p, hp, houtcome⟩ := hexplored.of_mem_loadOrder hfile
      exact .inr ⟨fault, p, loadEntries_of_buildAll_fault hx hf, hp,
        (breaksProject_iff_breaksFlavour (isNormal_of_reached hentries hp) houtcome).mpr hbreaks⟩
  · exact .inr ⟨fault, p, loadEntries_of_run_fault hx, hp, .inl hbreaks⟩

/-! ### Solution files -/

section

variable {written : String} {listed : List SolutionEntry}

/-- The paths of the entries of a solution file. -/
theorem isNormal_entries (h : IsAbsolute written)
    (hread : readSolution tree (Path.normalize written) = .ok listed) :
    ∀ p ∈ listed.map (·.path), IsNormal p := by
  intro p hp
  obtain ⟨e, he, rfl⟩ := List.mem_map.mp hp
  exact isNormal_of_readSolution tree (Path.normalize_isNormal h).isAbsolute hread e he

/-- Opening a solution file that can be read. -/
theorem openSolution_spec (h : IsAbsolute written)
    (hread : readSolution tree (Path.normalize written) = .ok listed) :
    (∃ s, (openSolution tree configuration written).outcome = .ok s ∧
        Opened tree configuration (listed.map (·.path)) s ∧
        ∀ p, Reached (references tree configuration) (listed.map (·.path)) p →
          ¬BreaksProject tree configuration p) ∨
      ∃ fault p, (openSolution tree configuration written).outcome = .error (.fault fault) ∧
        Reached (references tree configuration) (listed.map (·.path)) p ∧
        BreaksProject tree configuration p := by
  have hentries := isNormal_entries h hread
  unfold openSolution
  generalize Path.normalize written = path at hread ⊢
  simp only [hread]
  exact loadEntries_spec hentries path

/-- What a solution file is opened to. -/
theorem opened_of_ok {s : Solution} (h : IsAbsolute written)
    (hread : readSolution tree (Path.normalize written) = .ok listed)
    (hs : (openSolution tree configuration written).outcome = .ok s) :
    Opened tree configuration (listed.map (·.path)) s ∧
      ∀ p, Reached (references tree configuration) (listed.map (·.path)) p →
        ¬BreaksProject tree configuration p := by
  rcases openSolution_spec h hread with ⟨s', hs', hopened⟩ | ⟨fault, p, hfault, -⟩
  · rw [hs] at hs'
    cases hs'
    exact hopened
  · rw [hs] at hfault
    cases hfault

/-- A solution file is opened unless a project that is reached breaks it off. -/
theorem opens_iff (h : IsAbsolute written)
    (hread : readSolution tree (Path.normalize written) = .ok listed) :
    (∃ s, (openSolution tree configuration written).outcome = .ok s) ↔
      ∀ p, Reached (references tree configuration) (listed.map (·.path)) p →
        ¬BreaksProject tree configuration p := by
  constructor
  · rintro ⟨s, hs⟩
    exact (opened_of_ok h hread hs).2
  · intro hclear
    rcases openSolution_spec h hread with ⟨s, hs, -⟩ | ⟨fault, p, -, hp, hbreaks⟩
    · exact ⟨s, hs⟩
    · exact absurd hbreaks (hclear p hp)

end

end ExtensionCensus
