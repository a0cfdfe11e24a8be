import ExtensionCensus.Proofs.Run.Labelling

/-!
# Units of flavours

A project file that is built for several frameworks writes each of them into the display name of its
flavour, and the unit of the flavour reads it back from there.

* `ProjectFile.ne_empty_of_several` — none of several frameworks is empty;
* `unit_ofFile_label` — the unit of a flavour has its framework, wherever it compiles to;
* `Census.processed_foldl_addProject` — of projects with different units a run passes over only those that
  it met before the first of them;
* `Flavours.build_distinguishes` — **the flavours of a project file have its frameworks as their labels, in
  order, and are told apart**.
-/

namespace ExtensionCensus

open ExtensionCensus.Path (IsAbsolute IsNormal)

/-! ### Labels of flavours -/

/-- None of several frameworks that a project is built for is empty. -/
theorem ProjectFile.ne_empty_of_several {p : ProjectFile} (h : 2 ≤ p.targetFrameworks.length) :
    ∀ f ∈ p.targetFrameworks, f ≠ "" := by
  intro f hf
  rw [targetFrameworks] at h hf
  split at hf
  · rw [listEntries, List.mem_filter] at hf
    exact of_decide_eq_true hf.2
  · next hlist =>
    -- the other ways to name a framework name one at most
    rw [if_neg hlist] at h
    split at h
    · exact absurd h (Nat.not_le_of_lt Nat.one_lt_two)
    · split at h
      · exact absurd h (Nat.not_le_of_lt Nat.one_lt_two)
      · exact absurd h (by decide)

/-- The unit of a flavour has its framework as label, wherever the flavour compiles to. -/
theorem unit_ofFile_label (file : ProjectFile) {framework : String} (hne : framework ≠ "")
    (hlabel : '(' ∉ framework.toList) :
    (Project.ofFile file (some framework) true).unit =
      ⟨file.path, Text.trimRight (Path.stem file.path), framework⟩ := by
  simp only [Project.unit, Project.ofFile, if_true, Option.getD_some, resolveUnit,
    splitDisplayName_label _ hlabel, if_neg hne]

section

variable {evaluate : String → String → Evaluation} {file : ProjectFile}
  (hseveral : 2 ≤ file.targetFrameworks.length)

include hseveral

theorem flavoursOf_of_several : flavoursOf evaluate file =
    file.targetFrameworks.filterMap (flavour? evaluate file) := by
  rw [flavoursOf]
  split
  · next hnone => exact absurd hseveral (by rw [hnone]; decide)
  · next f hone => exact absurd hseveral (by rw [hone]; exact Nat.not_le_of_lt Nat.one_lt_two)
  · rfl

/-- The flavours of a project file have its frameworks as labels, in order, unless the evaluation for one
of them fails. -/
theorem units_flavoursOf (hlabels : ∀ f ∈ file.targetFrameworks, '(' ∉ f.toList)
    (hpath : ∀ f flavour, (evaluate file.path f).outcome = .ok flavour → flavour.path = file.path)
    (hload : ∀ f e, (evaluate file.path f).outcome ≠ .error (.load e))
    (hclear : ¬BreaksFlavour evaluate file) :
    (flavoursOf evaluate file).map Project.unit = file.targetFrameworks.map fun f =>
      ⟨file.path, Text.trimRight (Path.stem file.path), f⟩ := by
  have hunit : ∀ f ∈ file.targetFrameworks, (flavour? evaluate file f).map Project.unit =
      some ⟨file.path, Text.trimRight (Path.stem file.path), f⟩ := by
    intro f hf
    rw [flavour?]
    cases houtcome : (evaluate file.path f).outcome with
    | ok flavour =>
      simp only [Option.map_some]
      rw [unit_ofFile_label flavour (ProjectFile.ne_empty_of_several hseveral f hf) (hlabels f hf),
        hpath f flavour houtcome]
    | error e =>
      cases e with
      | load e => exact absurd houtcome (hload f e)
      | fault fault => exact absurd ⟨hseveral, f, hf, fault, houtcome⟩ hclear
  rw [flavoursOf_of_several hseveral, List.map_filterMap, List.filterMap_congr hunit,
    ← List.filterMap_eq_map]
  rfl

end

/-- Units with different labels are different. -/
theorem same_eq_false_of_framework {u v : ProjectUnit} (h : u.framework ≠ v.framework) :
    u.same v = false := by
  rw [ProjectUnit.same, decide_eq_false_iff_not]
  intro hkey
  exact h (congrArg (·.2.2) hkey)

theorem same_comm (u v : ProjectUnit) : u.same v = v.same u := by
  rw [ProjectUnit.same, ProjectUnit.same]
  exact decide_eq_decide.mpr eq_comm

/-! ### Visited units -/

/-- The projects are of different units. -/
def AreApart (projects : List Project) : Prop :=
  projects.Pairwise fun p q => p.unit.same q.unit = false

namespace Census

variable (tree : FileTree) (parse : Source.Parser)

/-- A project that declares something is processed unless its unit was met before. -/
theorem processed_addProject (c : Census) (p : Project) :
    (c.addProject tree parse p).processed =
      c.processed ++ ((declaringProjects [p]).filter fun p => !c.processed.any p.unit.same).map
        Project.unit := by
  rw [addProject, declaringProjects]
  by_cases href : isReferenceAssembly p.filePath = true
  · rw [if_pos href, List.filter_cons_of_neg (by simp [href])]
    simp [tell]
  · rw [if_neg href, List.filter_cons_of_pos (by simp [href])]
    show (if c.processed.any p.unit.same then { c with duplicates := c.duplicates + 1 }
      else c.process tree parse p.unit p).processed = _
    by_cases hseen : c.processed.any p.unit.same = true
    · rw [if_pos hseen, List.filter_cons_of_neg (by simp [hseen])]
      simp
    · rw [if_neg hseen, List.filter_cons_of_pos (by simp [hseen])]
      obtain ⟨messages, hprocess⟩ := process_eq tree parse c p
      rw [hprocess]
      cases p.ending tree parse <;> rfl

/-- A project stands in the way of no project with another unit. -/
theorem any_processed_addProject (c : Census) {p : Project} {u : ProjectUnit}
    (h : u.same p.unit = false) :
    (c.addProject tree parse p).processed.any u.same = c.processed.any u.same := by
  have hown : ∀ v ∈ ((declaringProjects [p]).filter fun p => !c.processed.any p.unit.same).map
      Project.unit, u.same v = false := by
    intro v hv
    obtain ⟨q, hq, rfl⟩ := List.mem_map.mp hv
    rw [List.mem_singleton.mp (List.mem_filter.mp (List.mem_filter.mp hq).1).1, h]
  rw [processed_addProject, List.any_append,
    List.any_eq_false.mpr fun v hv => Bool.eq_false_iff.mp (hown v hv), Bool.or_false]

/-- **Of projects with different units a run passes over only those that it met before the first of
them.** -/
theorem processed_foldl_addProject {projects : List Project} (h : AreApart projects) (c : Census) :
    (projects.foldl (addProject tree parse) c).processed =
      c.processed ++ ((declaringProjects projects).filter fun p =>
        !c.processed.any p.unit.same).map Project.unit := by
  induction projects generalizing c with
  | nil => exact (List.append_nil _).symm
  | cons p rest ih =>
    obtain ⟨hp, hrest⟩ := List.pairwise_cons.mp h
    have hsplit : declaringProjects (p :: rest) = declaringProjects [p] ++ declaringProjects rest :=
      declaringProjects_append [p] rest
    have hothers : ∀ q ∈ declaringProjects rest,
        (!(c.addProject tree parse p).processed.any q.unit.same) =
          !c.processed.any q.unit.same := by
      intro q hq
      rw [any_processed_addProject tree parse c
        ((same_comm _ _).trans (hp q (List.mem_filter.mp hq).1))]
    rw [List.foldl_cons, ih hrest, List.filter_congr hothers, processed_addProject, hsplit,
      List.filter_append, List.map_append, List.append_assoc]

end Census

/-- Units of one project file with different labels are of different projects. -/
theorem areApart_of_units {projects : List Project} {path name : String} {frameworks : List String}
    (h : projects.map Project.unit = frameworks.map fun f => ⟨path, name, f⟩)
    (hdistinct : frameworks.Nodup) : AreApart projects := by
  have hlabelled : (frameworks.map fun f => (⟨path, name, f⟩ : ProjectUnit)).Pairwise
      fun u v => u.same v = false :=
    List.pairwise_map.mpr (List.Pairwise.imp (fun hne => same_eq_false_of_framework hne) hdistinct)
  rwa [← h, List.pairwise_map] at hlabelled

/-! ### Flavours of a project file -/

/-- A project file is evaluated again at its own path. -/
theorem evaluateProject_path {tree : FileTree} {configuration written : String} {file : ProjectFile}
    (hwritten : IsAbsolute written)
    (hfile : (evaluateProject tree written configuration "").outcome = .ok file) :
    IsNormal file.path ∧ (evaluateProject tree file.path configuration "").outcome = .ok file := by
  have hnormal := Path.normalize_isNormal hwritten
  have hown : evaluateProject tree (Path.normalize written) configuration "" =
      evaluateProject tree written configuration "" := by
    rw [evaluateProject_eq, evaluateProject_eq, Path.normalize_of_isNormal hnormal]
  rw [← hown] at hfile
  rw [(evaluateProject_ok tree hnormal hfile).1]
  exact ⟨hnormal, hfile⟩

/-- **The flavours of a project file are told apart.**  A project file with two or more different
frameworks, none of which holds an opening parenthesis, is built to one flavour for each, unless the
evaluation for one of them breaks off.  The units of the flavours have these frameworks as their labels, in
order, and the stem of the file without blanks at its end as their name, whatever the stem and the output
paths hold; so they are different, and a run passes over a flavour only if it met the unit before any of
them. -/
theorem Flavours.build_distinguishes {tree : FileTree} {configuration written : String}
    {file : ProjectFile} (hwritten : IsAbsolute written)
    (hfile : (evaluateProject tree written configuration "").outcome = .ok file)
    (hseveral : 2 ≤ file.targetFrameworks.length) (hdistinct : file.targetFrameworks.Nodup)
    (hlabels : ∀ f ∈ file.targetFrameworks, '(' ∉ f.toList) (x : Flavours) :
    (∃ x' made, x.build (evaluateProject tree · configuration ·) file = (x', none) ∧
        x'.projects = x.projects ++ made ∧
        made.map Project.unit = file.targetFrameworks.map (fun f =>
          ⟨file.path, Text.trimRight (Path.stem file.path), f⟩) ∧
        AreApart made ∧
        ∀ parse (c : Census), (made.foldl (Census.addProject tree parse) c).processed =
          c.processed ++ ((declaringProjects made).filter fun p =>
            !c.processed.any p.unit.same).map Project.unit) ∨
      ∃ x' fault, x.build (evaluateProject tree · configuration ·) file = (x', some fault) ∧
        BreaksFlavour (evaluateProject tree · configuration ·) file := by
  obtain ⟨hnormal, hown⟩ := evaluateProject_path hwritten hfile
  have hload : ∀ framework e,
      (evaluateProject tree file.path configuration framework).outcome ≠ .error (.load e) :=
    fun _ => not_load_of_ok hown
  have hpath : ∀ framework flavour,
      (evaluateProject tree file.path configuration framework).outcome = .ok flavour →
        flavour.path = file.path :=
    fun _ _ houtcome => (evaluateProject_ok tree hnormal houtcome).1
  rcases @Flavours.build_spec (evaluateProject tree · configuration ·) file x hload with
    ⟨x', hx', hprojects, -, hclear⟩ | hbreaks
  · have hunits := @units_flavoursOf (evaluateProject tree · configuration ·) file hseveral hlabels
      hpath hload hclear
    have hapart := areApart_of_units hunits hdistinct
    exact .inl ⟨x', _, hx', hprojects, hunits, hapart,
      fun parse c => c.processed_foldl_addProject tree parse hapart⟩
  · exact .inr hbreaks

/-! A stem and a label that hold parentheses themselves. -/

/-- A project whose stem ends in parentheses and a blank, built for two frameworks. -/
def parenthesized : FileTree :=
  .directory [.mk "w" (.directory [.mk "A (x) .csproj" (textFile ("<Project><PropertyGroup>" ++
    "<TargetFrameworks>net8.0;x)</TargetFrameworks></PropertyGroup></Project>"))])]

theorem parenthesized_evaluated :
    (evaluateProject parenthesized "/w/A (x) .csproj" "Debug" "").outcome.toOption.map
      (fun file => (file.path, file.targetFrameworks)) =
        some ("/w/A (x) .csproj", ["net8.0", "x)"]) := by
  decide +kernel

theorem parenthesized_units : ∃ file x,
    (evaluateProject parenthesized "/w/A (x) .csproj" "Debug" "").outcome = .ok file ∧
      ({} : Flavours).build (evaluateProject parenthesized · "Debug" ·) file = (x, none) ∧
      x.projects.map Project.unit =
        [⟨"/w/A (x) .csproj", "A (x)", "net8.0"⟩, ⟨"/w/A (x) .csproj", "A (x)", "x)"⟩] := by
  have hread := parenthesized_evaluated
  cases hfile : (evaluateProject parenthesized "/w/A (x) .csproj" "Debug" "").outcome with
  | error e =>
    rw [hfile] at hread
    cases hread
  | ok file =>
    rw [hfile] at hread
    obtain ⟨hpath, hframeworks⟩ := Prod.mk.inj (Option.some.inj hread)
    obtain ⟨hnormal, hown⟩ := evaluateProject_path (by decide) hfile
    have hclear := mt (breaksProject_iff_breaksFlavour hnormal hown).mpr
      (not_breaksProject_of_namesNoSources (by rw [hpath]; decide))
    rcases Flavours.build_distinguishes (by decide) hfile (by rw [hframeworks]; decide)
        (by rw [hframeworks]; decide) (by rw [hframeworks]; decide) {} with
      ⟨x, made, hx, hprojects, hunits, -⟩ | ⟨x, fault, -, hbreaks⟩
    · refine ⟨file, x, rfl, hx, ?_⟩
      rw [hprojects, List.map_append, hunits, hframeworks, hpath]
      decide
    · exact absurd hbreaks hclear

end ExtensionCensus
