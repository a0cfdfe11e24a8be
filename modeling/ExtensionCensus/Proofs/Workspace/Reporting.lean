import ExtensionCensus.Proofs.Workspace.Opening
import Mathlib.Data.List.Induction

/-!
# Progress and the loaded solution

A solution says which projects it holds; a listener learns the same from the events of its loading.

* `ProgressEvent.resolved` — the event that a project is resolved with;
* `Flavours.InStep` — so far each project has had its event, in order;
* `buildAll_inStep` — the second pass keeps them in step, `run_resolveEvents` — the first tells nothing
  of it;
* `frameworkMap` — the target frameworks of each project file, by its path;
* `foldl_add_resolved` — a listener gathers that map from the events;
* `reported_frameworks` — **what a listener has gathered when a solution is opened is the map of the
  solution's projects**.
-/

namespace ExtensionCensus

open ExtensionCensus.Path (IsAbsolute IsNormal)

/-! ### The events of resolving -/

/-- The event that a project is resolved with. -/
def ProgressEvent.resolved (p : Project) : ProgressEvent :=
  { step := .resolve, path := p.filePath, framework := p.framework }

/-- The events of resolving among some messages. -/
def resolveEvents (messages : List LoadMessage) : List ProgressEvent :=
  (progressEvents messages).filter (·.step = .resolve)

theorem resolveEvents_append (first second : List LoadMessage) :
    resolveEvents (first ++ second) = resolveEvents first ++ resolveEvents second := by
  rw [resolveEvents, progressEvents, List.filterMap_append, List.filter_append]
  rfl

/-- An evaluation resolves nothing. -/
theorem resolveEvents_messages (e : Evaluation) (framework : String) :
    resolveEvents (e.messages framework) = [] := by
  have hremarks : resolveEvents (e.remarks.map .unclear) = [] := by
    rw [resolveEvents, progressEvents, List.filterMap_map]
    exact List.filter_eq_nil_iff.mpr fun event hevent => by simp at hevent
  rw [Evaluation.messages, resolveEvents_append, hremarks]
  split <;> rfl

/-- A listener passes over all other events. -/
theorem foldl_add_filter (m : FrameworkMap) (events : List ProgressEvent) :
    (events.filter (·.step = .resolve)).foldl FrameworkMap.add m = events.foldl FrameworkMap.add m := by
  induction events generalizing m with
  | nil => rfl
  | cons e rest ih =>
    by_cases hstep : e.step = .resolve
    · rw [List.filter_cons_of_pos (by simpa using hstep), List.foldl_cons, List.foldl_cons, ih]
    · have hadd : m.add e = m := by
        rw [FrameworkMap.add]
        split
        · next hresolve => exact absurd hresolve hstep
        · rfl
      rw [List.filter_cons_of_neg (by simpa using hstep), List.foldl_cons, hadd, ih]

/-! ### Both passes -/

/-- The first pass resolves nothing. -/
theorem run_resolveEvents (evaluate : String → Evaluation) (remaining queue : List String)
    (x : Exploration) :
    resolveEvents (x.run evaluate remaining queue).1.messages = resolveEvents x.messages := by
  have hvisit (x : Exploration) (path : String) :
      resolveEvents (x.visit path (evaluate path)).messages = resolveEvents x.messages := by
    rw [Exploration.visit, resolveEvents_append, resolveEvents_messages, List.append_nil]
  have haccept (x : Exploration) (path : String) (file : ProjectFile) :
      resolveEvents ((x.visit path (evaluate path)).accept path file).messages =
        resolveEvents x.messages := by
    rw [Exploration.accept, resolveEvents_append, hvisit]
    exact List.append_nil _
  fun_induction Exploration.run evaluate remaining x queue with
  | case1 => rfl
  | case2 _ _ _ _ _ ih => exact ih
  | case3 _ x path => exact hvisit x path
  | case4 _ x path _ _ _ _ _ ih => exact ih.trans (hvisit x path)
  | case5 _ x path _ _ _ file _ _ _ ih => exact ih.trans (haccept x path file)
  | case6 _ x path _ _ _ file _ _ _ ih => exact ih.trans (haccept x path file)

namespace Flavours

/-- Each project that is built has had its event, in order. -/
def InStep (x : Flavours) : Prop :=
  resolveEvents x.messages = x.projects.map .resolved

variable {x : Flavours} {evaluate : String → String → Evaluation} {file : ProjectFile}

theorem InStep.tell (h : x.InStep) (e : Evaluation) (framework : String) :
    (x.tell (e.messages framework)).InStep := by
  rw [InStep, Flavours.tell, resolveEvents_append, resolveEvents_messages, List.append_nil]
  exact h

theorem InStep.push (h : x.InStep) {p : Project} {path : String} (hpath : p.filePath = path) :
    (x.push path p).InStep := by
  subst hpath
  rw [InStep, Flavours.push, resolveEvents_append, h, List.map_append]
  rfl

/-- Building for several frameworks keeps both in step if every evaluation gives the file it was asked
for. -/
theorem buildEach_inStep (h : x.InStep) (frameworks : List String)
    (hpath : ∀ framework flavour, (evaluate file.path framework).outcome = .ok flavour →
      flavour.path = file.path) :
    (x.buildEach evaluate file frameworks).1.InStep := by
  induction frameworks generalizing x with
  | nil => exact h
  | cons framework rest ih =>
    have htold := h.tell (evaluate file.path framework) framework
    rw [buildEach]
    cases houtcome : (evaluate file.path framework).outcome with
    | error e =>
      cases e with
      | load e => exact ih htold
      | fault fault => exact htold
    | ok flavour => exact ih (htold.push (hpath framework flavour houtcome))

theorem build_inStep (h : x.InStep)
    (hpath : ∀ framework flavour, (evaluate file.path framework).outcome = .ok flavour →
      flavour.path = file.path) :
    (x.build evaluate file).1.InStep := by
  rw [build]
  split
  · exact h.push rfl
  · exact h.push rfl
  · exact buildEach_inStep h _ hpath

/-- The second pass keeps the projects and the events in step. -/
theorem buildAll_inStep (h : x.InStep) {files : List ProjectFile}
    (hpath : ∀ file ∈ files, ∀ framework flavour,
      (evaluate file.path framework).outcome = .ok flavour → flavour.path = file.path) :
    (x.buildAll evaluate files).1.InStep := by
  induction files generalizing x with
  | nil => exact h
  | cons file rest ih =>
    have hbuilt := build_inStep h (hpath file List.mem_cons_self)
    rw [buildAll]
    split
    · next heq =>
      rw [heq] at hbuilt
      exact hbuilt
    · next heq =>
      rw [heq] at hbuilt
      exact ih hbuilt fun file hfile => hpath file (List.mem_cons_of_mem _ hfile)

end Flavours

/-! ### The map of a list of projects -/

/-- The target frameworks of the projects of the file at a path that name one. -/
def frameworksOf (projects : List Project) (path : String) : List String :=
  ((projects.filter (·.filePath = path)).filterMap (·.framework)).filter (· ≠ "")

/-- The target frameworks of each project file among some projects, in order of first appearance. -/
def frameworkMap (projects : List Project) : FrameworkMap :=
  (projects.map (·.filePath)).eraseDups.map fun path => (path, frameworksOf projects path)

theorem frameworksOf_append (projects : List Project) (p : Project) (path : String) :
    frameworksOf (projects ++ [p]) path =
      frameworksOf projects path ++
        if p.filePath = path then (ProgressEvent.resolved p).frameworks else [] := by
  rw [frameworksOf, List.filter_append, List.filterMap_append, List.filter_append]
  refine congrArg _ ?_
  by_cases hpath : p.filePath = path
  · rw [if_pos hpath, List.filter_cons_of_pos (by simpa using hpath)]
    cases hframework : p.framework with
    | none => simp [hframework, ProgressEvent.resolved, ProgressEvent.frameworks]
    | some framework =>
      by_cases hempty : framework = "" <;>
        simp [hframework, hempty, ProgressEvent.resolved, ProgressEvent.frameworks]
  · rw [if_neg hpath, List.filter_cons_of_neg (by simpa using hpath)]
    rfl

/-- The map after the event of a project. -/
theorem add_resolved (m : FrameworkMap) (p : Project) :
    m.add (.resolved p) =
      if m.any fun entry => Text.fold entry.1 = Text.fold p.filePath then
        m.map fun entry =>
          if Text.fold entry.1 = Text.fold p.filePath then
            (entry.1, entry.2 ++ (ProgressEvent.resolved p).frameworks)
          else entry
      else m ++ [(p.filePath, (ProgressEvent.resolved p).frameworks)] :=
  rfl

/-- One more project adds to the entry of its file, or a new entry behind the others. -/
theorem frameworkMap_append {projects : List Project} {p : Project}
    (hfold : ∀ q ∈ projects, Text.fold q.filePath = Text.fold p.filePath → q.filePath = p.filePath) :
    frameworkMap (projects ++ [p]) = (frameworkMap projects).add (.resolved p) := by
  have hsame {path : String} (h : path ∈ (projects.map (·.filePath)).eraseDups) :
      Text.fold path = Text.fold p.filePath ↔ p.filePath = path := by
    obtain ⟨q, hq, rfl⟩ := List.mem_map.mp (List.mem_eraseDups.mp h)
    exact ⟨fun heq => (hfold q hq heq).symm, fun heq => congrArg _ heq.symm⟩
  have hany : ((frameworkMap projects).any fun entry =>
      Text.fold entry.1 = Text.fold p.filePath) = true ↔ p.filePath ∈ projects.map (·.filePath) := by
    rw [List.any_eq_true, ← List.mem_eraseDups]
    constructor
    · rintro ⟨_, hentry, heq⟩
      obtain ⟨path, hpath, rfl⟩ := List.mem_map.mp hentry
      rwa [(hsame hpath).mp (of_decide_eq_true heq)]
    · intro h
      exact ⟨_, List.mem_map_of_mem h, decide_eq_true rfl⟩
  rw [add_resolved, frameworkMap, List.map_append, List.eraseDups_append, List.map_append]
  by_cases hold : p.filePath ∈ projects.map (·.filePath)
  · have hnew : ([p].map (·.filePath)).removeAll (projects.map (·.filePath)) = [] := by
      simpa [List.removeAll] using hold
    rw [if_pos (hany.mpr hold), hnew, List.eraseDups_nil, List.map_nil, List.append_nil,
      frameworkMap, List.map_map]
    refine List.map_congr_left fun path hpath => ?_
    rw [frameworksOf_append, Function.comp_apply]
    by_cases hp : p.filePath = path
    · rw [if_pos hp, if_pos ((hsame hpath).mpr hp)]
    · rw [if_neg hp, if_neg fun heq => hp ((hsame hpath).mp heq), List.append_nil]
  · have hnew : ([p].map (·.filePath)).removeAll (projects.map (·.filePath)) = [p.filePath] := by
      simpa [List.removeAll] using hold
    have hnone : frameworksOf projects p.filePath = [] := by
      have hfilter : projects.filter (·.filePath = p.filePath) = [] :=
        List.filter_eq_nil_iff.mpr fun q hq heq => hold (List.mem_map.mpr ⟨q, hq, of_decide_eq_true heq⟩)
      rw [frameworksOf, hfilter]
      rfl
    have hkept : ∀ path ∈ (projects.map (·.filePath)).eraseDups,
        (path, frameworksOf (projects ++ [p]) path) = (path, frameworksOf projects path) := by
      intro path hpath
      rw [frameworksOf_append, if_neg fun heq => hold ?_, List.append_nil]
      rw [heq]
      exact List.mem_eraseDups.mp hpath
    rw [if_neg fun h => hold (hany.mp h), hnew, List.map_congr_left hkept, List.eraseDups_cons,
      List.filter_nil, List.eraseDups_nil, List.map_singleton, frameworksOf_append, hnone,
      if_pos rfl]
    rfl

/-- **A listener gathers the map of the projects whose events it hears**, if their paths differ in more
than case. -/
theorem foldl_add_resolved (projects : List Project)
    (hfold : ∀ p ∈ projects, ∀ q ∈ projects,
      Text.fold p.filePath = Text.fold q.filePath → p.filePath = q.filePath) :
    (projects.map .resolved).foldl FrameworkMap.add [] = frameworkMap projects := by
  induction projects using List.reverseRecOn with
  | nil => rfl
  | append_singleton projects p ih =>
    have hmem {q : Project} (hq : q ∈ projects) : q ∈ projects ++ [p] := List.mem_append_left _ hq
    rw [List.map_append, List.foldl_append, ih fun p hp q hq => hfold p (hmem hp) q (hmem hq),
      frameworkMap_append fun q hq => hfold q (hmem hq) p (List.mem_append_right _ (List.mem_singleton_self p))]
    rfl

/-! ### Solutions -/

section

variable {tree : FileTree} {configuration : String}

/-- Of some entries that are loaded, each project has had its event, in order. -/
theorem loadEntries_inStep {entries : List String} (hentries : ∀ p ∈ entries, IsNormal p)
    {path : String} {s : Solution}
    (hs : (loadEntries tree configuration path entries).outcome = .ok s) :
    resolveEvents (loadEntries tree configuration path entries).messages =
      s.projects.map .resolved := by
  rcases @run_reached tree configuration entries hentries with
    ⟨x, hx, hexplored⟩ | ⟨x, fault, p, hx, -, -⟩
  · have hstart : Flavours.InStep { failures := x.failures, messages := x.messages } := by
      have hrun := run_resolveEvents (evaluateProject tree · configuration "") (filePaths tree) entries
        (unexplored entries)
      rwa [hx] at hrun
    have hpath : ∀ file ∈ x.loadOrder entries, ∀ framework flavour,
        (evaluateProject tree file.path configuration framework).outcome = .ok flavour →
          flavour.path = file.path := by
      intro file hfile framework flavour hflavour
      obtain ⟨p, hp, houtcome⟩ := hexplored.of_mem_loadOrder hfile
      have hnormal := isNormal_of_reached hentries hp
      have hfile := (evaluateProject_ok tree hnormal houtcome).1
      rw [hfile] at hflavour ⊢
      exact (evaluateProject_ok tree hnormal hflavour).1
    have hbuilt := @Flavours.buildAll_inStep _ (evaluateProject tree · configuration ·) hstart _ hpath
    unfold unexplored at hx
    simp only [loadEntries, hx] at hs ⊢
    split at hs
    · cases hs
    · next heq =>
      rw [heq] at hbuilt
      cases hs
      rw [resolveEvents_append, hbuilt]
      exact List.append_nil _
  · rw [loadEntries_of_run_fault hx] at hs
    cases hs

/-- **Progress agrees with the solution.**  If no two project files of an opened solution have paths that
are equal but for case, a listener that hears its loading has one entry for each project file, in order of
first appearance, with the target frameworks of its projects in order. -/
theorem reported_frameworks {written : String} {s : Solution} (h : IsAbsolute written)
    (hs : (openSolution tree configuration written).outcome = .ok s)
    (hfold : ∀ p ∈ s.projects, ∀ q ∈ s.projects,
      Text.fold p.filePath = Text.fold q.filePath → p.filePath = q.filePath) :
    (progressEvents (openSolution tree configuration written).messages).foldl FrameworkMap.add [] =
      frameworkMap s.projects := by
  have hstep : resolveEvents (openSolution tree configuration written).messages =
      s.projects.map .resolved := by
    cases hread : readSolution tree (Path.normalize written) with
    | error e =>
      unfold openSolution at hs
      generalize Path.normalize written = path at hread hs
      simp only [hread] at hs
      cases hs
    | ok listed =>
      have hentries := isNormal_entries h hread
      unfold openSolution at hs ⊢
      generalize Path.normalize written = path at hread hs ⊢
      simp only [hread] at hs ⊢
      exact loadEntries_inStep hentries hs
  rw [← foldl_add_filter, ← foldl_add_resolved s.projects hfold, ← hstep]
  rfl

end

/-! ### A project for two frameworks -/

/-- A solution that lists a project that is missing and one for two target frameworks. -/
def twoFrameworks : FileTree :=
  .directory [.mk "w" (.directory
    [.mk "s.slnx" (textFile "<S><Project Path='c.csproj'/><Project Path='a.csproj'/></S>"),
      .mk "a.csproj" (textFile ("<Project><PropertyGroup>" ++
        "<TargetFrameworks>net8.0;net6.0</TargetFrameworks></PropertyGroup></Project>"))])]

/-- What is read of the solution and of its projects. -/
theorem twoFrameworks_facts :
    readSolution twoFrameworks (Path.normalize "/w/s.slnx") =
        .ok [{ name := "c", path := "/w/c.csproj" }, { name := "a", path := "/w/a.csproj" }] ∧
      (∀ p ∈ ["/w/c.csproj", "/w/a.csproj"], references twoFrameworks "Debug" p = [] ∧
        namesNoSources twoFrameworks p = true) ∧
      (fun projects : List Project => (projects.map (·.filePath), frameworkMap projects))
          (["/w/c.csproj", "/w/a.csproj"].flatMap (loadedFlavours twoFrameworks "Debug")) =
        (["/w/a.csproj", "/w/a.csproj"], [("/w/a.csproj", ["net8.0", "net6.0"])]) := by
  decide

/-- The listener has heard of the project that is there, with both of its frameworks. -/
theorem twoFrameworks_reported :
    ∃ s, (openSolution twoFrameworks "Debug" "/w/s.slnx").outcome = .ok s ∧
      (progressEvents (openSolution twoFrameworks "Debug" "/w/s.slnx").messages).foldl
          FrameworkMap.add [] = frameworkMap s.projects ∧
      frameworkMap s.projects = [("/w/a.csproj", ["net8.0", "net6.0"])] := by
  have habsolute : IsAbsolute "/w/s.slnx" := by decide
  obtain ⟨hlisted, hplain, hflavours⟩ := twoFrameworks_facts
  obtain ⟨hpaths, hmap⟩ := Prod.mk.inj hflavours
  have horder : Preorder (references twoFrameworks "Debug") [] ["/w/c.csproj", "/w/a.csproj"]
      ["/w/c.csproj", "/w/a.csproj"] := by
    have hnext : ∀ p ∈ ["/w/c.csproj", "/w/a.csproj"],
        references twoFrameworks "Debug" p = [] := fun p hp => (hplain p hp).1
    refine @Preorder.enter _ [] _ [] ["/w/a.csproj"] _ List.not_mem_nil ?_
      (@Preorder.enter _ _ _ [] [] _ (by decide) ?_ (.nil _))
    · rw [hnext _ (by decide)]
      exact .nil _
    · rw [hnext _ (by decide)]
      exact .nil _
  obtain ⟨s, hs⟩ := (opens_iff habsolute hlisted).mpr fun p hp =>
    not_breaksProject_of_namesNoSources (hplain p (horder.mem_iff_reached.mpr hp)).2
  obtain ⟨order, hpreorder, hprojects⟩ := (opened_of_ok habsolute hlisted hs).1.projects
  rw [hpreorder.unique horder] at hprojects
  rw [← hprojects] at hpaths hmap
  refine ⟨s, hs, reported_frameworks habsolute hs fun p hp q hq _ => ?_, hmap⟩
  have hsame : ∀ p ∈ s.projects, p.filePath = "/w/a.csproj" := by
    intro p hp
    have hmem : p.filePath ∈ ["/w/a.csproj", "/w/a.csproj"] := hpaths ▸ List.mem_map_of_mem hp
    simpa using hmem
  exact (hsame p hp).trans (hsame q hq).symm

end ExtensionCensus
