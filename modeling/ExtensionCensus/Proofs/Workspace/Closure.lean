import ExtensionCensus.Proofs.Workspace.Opening

/-!
# Closure under references

Which references of its projects a solution holds.

* `Solution.Covers` — a project file is part of a solution, loaded or not;
* `map_loadedFlavours` — what each flavour of a project refers to;
* `openSolution_closed` — **a solution covers what is reached by the evaluations without a framework,
  so it is closed exactly if the evaluations for a framework refer to nothing else**.
-/

namespace ExtensionCensus

open ExtensionCensus.Path (IsAbsolute IsNormal)

/-- A project file has a project in the solution, or a failure. -/
def Solution.Covers (s : Solution) (path : String) : Prop :=
  (∃ p ∈ s.projects, p.filePath = path) ∨ ∃ f ∈ s.failures, f.path = path

variable {tree : FileTree} {configuration : String}

/-! ### Flavours -/

/-- A flavour for one of several frameworks refers to what the evaluation for that framework does. -/
theorem map_flavour? {q framework : String} {file : ProjectFile} (hq : IsNormal q)
    (houtcome : (evaluateProject tree q configuration "").outcome = .ok file)
    (hclear : ¬Breaks tree q configuration framework) :
    (flavour? (evaluateProject tree · configuration ·) file framework).map
        (fun p => (p.filePath, p.projectReferences)) =
      some (q, follows (evaluateProject tree · configuration framework) q) := by
  rw [flavour?, (evaluateProject_ok tree hq houtcome).1, follows]
  cases hflavour : (evaluateProject tree q configuration framework).outcome with
  | ok flavour =>
    exact congrArg (fun path => some (path, flavour.projectReferences))
      (evaluateProject_ok tree hq hflavour).1
  | error e =>
    cases e with
    | load e => exact absurd hflavour (not_load_of_ok houtcome e)
    | fault fault => exact absurd ((fault_iff_breaks hq).mp ⟨fault, hflavour⟩) hclear

/-- The flavours of a project are at its path, and each refers to what its own evaluation does. -/
theorem map_loadedFlavours {q : String} (hq : IsNormal q)
    (hclear : ¬BreaksProject tree configuration q) :
    (loadedFlavours tree configuration q).map (fun p => (p.filePath, p.projectReferences)) =
      (flavourFrameworks tree configuration q).map fun framework =>
        (q, follows (evaluateProject tree · configuration framework) q) := by
  have hflavours : ∀ framework ∈ flavourFrameworks tree configuration q,
      ¬Breaks tree q configuration framework :=
    fun framework hframework hbreaks => hclear (.inr ⟨framework, hframework, hbreaks⟩)
  rw [flavourFrameworks] at hflavours ⊢
  rw [loadedFlavours]
  cases houtcome : (evaluateProject tree q configuration "").outcome with
  | error e => rfl
  | ok file =>
    rw [houtcome] at hflavours
    have hreferences : follows (evaluateProject tree · configuration "") q = file.projectReferences :=
      follows_of_ok houtcome
    have hone (framework : Option String) :
        [Project.ofFile file framework false].map (fun p => (p.filePath, p.projectReferences)) =
          [(q, follows (evaluateProject tree · configuration "") q)] := by
      rw [hreferences]
      exact congrArg (fun path => [(path, file.projectReferences)])
        (evaluateProject_ok tree hq houtcome).1
    simp only [flavoursOf] at hflavours ⊢
    generalize file.targetFrameworks = frameworks at hflavours ⊢
    rcases frameworks with _ | ⟨first, _ | ⟨second, rest⟩⟩
    · exact hone none
    · exact hone (some first)
    · have hseveral : 2 ≤ (first :: second :: rest).length := by simp
      rw [if_pos hseveral] at hflavours ⊢
      rw [List.map_filterMap, ← List.filterMap_eq_map]
      exact List.filterMap_congr fun framework hframework =>
        map_flavour? hq houtcome (hflavours framework hframework)

/-! ### Solutions -/

section

variable {entries : List String} {s : Solution}

/-- The projects of a solution, each with its references, are those of the evaluations that the
reached projects need. -/
theorem Opened.mem_projects (hentries : ∀ p ∈ entries, IsNormal p)
    (h : Opened tree configuration entries s)
    (hclear : ∀ q, Reached (references tree configuration) entries q →
      ¬BreaksProject tree configuration q) (q : String) (rs : List String) :
    (∃ p ∈ s.projects, p.filePath = q ∧ p.projectReferences = rs) ↔
      Reached (references tree configuration) entries q ∧
        ∃ framework ∈ flavourFrameworks tree configuration q,
          rs = follows (evaluateProject tree · configuration framework) q := by
  obtain ⟨order, horder, hprojects⟩ := h.projects
  have hflavours {r : String} (hr : Reached (references tree configuration) entries r) :=
    map_loadedFlavours (isNormal_of_reached hentries hr) (hclear r hr)
  rw [hprojects]
  constructor
  · rintro ⟨p, hp, rfl, rfl⟩
    obtain ⟨r, hr, hp⟩ := List.mem_flatMap.mp hp
    have hreached := horder.mem_iff_reached.mp hr
    have hmem := List.mem_map_of_mem (f := fun p : Project => (p.filePath, p.projectReferences)) hp
    rw [hflavours hreached] at hmem
    obtain ⟨framework, hframework, hpair⟩ := List.mem_map.mp hmem
    obtain ⟨rfl, hreferences⟩ := Prod.mk.inj hpair
    exact ⟨hreached, framework, hframework, hreferences.symm⟩
  · rintro ⟨hq, framework, hframework, rfl⟩
    have hmem := List.mem_map_of_mem (f := fun framework =>
      (q, follows (evaluateProject tree · configuration framework) q)) hframework
    rw [← hflavours hq] at hmem
    obtain ⟨p, hp, hpair⟩ := List.mem_map.mp hmem
    obtain ⟨hpath, hreferences⟩ := Prod.mk.inj hpair
    exact ⟨p, List.mem_flatMap.mpr ⟨q, horder.mem_iff_reached.mpr hq, hp⟩, hpath, hreferences⟩

/-- A project that is evaluated has a flavour. -/
theorem exists_mem_flavourFrameworks {q : String} {file : ProjectFile}
    (houtcome : (evaluateProject tree q configuration "").outcome = .ok file) :
    ∃ framework, framework ∈ flavourFrameworks tree configuration q := by
  rw [flavourFrameworks, houtcome]
  simp only
  split
  · next hseveral => exact ⟨_, List.getElem_mem (Nat.lt_of_lt_of_le Nat.zero_lt_two hseveral)⟩
  · exact ⟨"", List.mem_singleton_self _⟩

/-- A solution covers exactly what is reached. -/
theorem Opened.covers_iff (hentries : ∀ p ∈ entries, IsNormal p)
    (h : Opened tree configuration entries s)
    (hclear : ∀ q, Reached (references tree configuration) entries q →
      ¬BreaksProject tree configuration q) (r : String) :
    s.Covers r ↔ Reached (references tree configuration) entries r := by
  constructor
  · rintro (⟨p, hp, hpath⟩ | ⟨f, hf, rfl⟩)
    · exact ((h.mem_projects hentries hclear _ _).mp ⟨p, hp, hpath, rfl⟩).1
    · exact ((h.failures f).mp hf).1
  · intro hr
    cases houtcome : (evaluateProject tree r configuration "").outcome with
    | ok file =>
      obtain ⟨framework, hframework⟩ := exists_mem_flavourFrameworks houtcome
      obtain ⟨p, hp, hpath, -⟩ :=
        (h.mem_projects hentries hclear _ _).mpr ⟨hr, framework, hframework, rfl⟩
      exact .inl ⟨p, hp, hpath⟩
    | error e =>
      cases e with
      | load e => exact .inr ⟨⟨r, e.message⟩, (h.failures _).mpr ⟨hr, e, houtcome, rfl⟩, rfl⟩
      | fault fault =>
        have hbreaks := (fault_iff_breaks (isNormal_of_reached hentries hr)).mp ⟨fault, houtcome⟩
        exact absurd (.inl hbreaks) (hclear r hr)

variable {written : String} {listed : List SolutionEntry}

/-- **Closure.**  An opened solution covers exactly what is reached by the references that stand
without a framework.  A project that is not built for several frameworks only refers to what is
covered; all of them do just if no evaluation for a framework refers to a project that is not
reached. -/
theorem openSolution_closed (h : IsAbsolute written)
    (hread : readSolution tree (Path.normalize written) = .ok listed)
    (hs : (openSolution tree configuration written).outcome = .ok s) :
    (∀ r, s.Covers r ↔ Reached (references tree configuration) (listed.map (·.path)) r) ∧
      (∀ p ∈ s.projects, flavourFrameworks tree configuration p.filePath = [""] →
        ∀ r ∈ p.projectReferences, s.Covers r) ∧
      ((∀ p ∈ s.projects, ∀ r ∈ p.projectReferences, s.Covers r) ↔
        ∀ q, Reached (references tree configuration) (listed.map (·.path)) q →
          ∀ framework ∈ flavourFrameworks tree configuration q,
            ∀ r ∈ follows (evaluateProject tree · configuration framework) q,
              Reached (references tree configuration) (listed.map (·.path)) r) := by
  have hentries := isNormal_entries h hread
  obtain ⟨hopened, hclear⟩ := opened_of_ok h hread hs
  have hcovers := hopened.covers_iff hentries hclear
  have hprojects := hopened.mem_projects hentries hclear
  refine ⟨hcovers, fun p hp hone r hr => ?_, ?_⟩
  · obtain ⟨hreached, framework, hframework, hreferences⟩ :=
      (hprojects _ _).mp ⟨p, hp, rfl, rfl⟩
    rw [hone, List.mem_singleton] at hframework
    rw [hreferences, hframework] at hr
    exact (hcovers r).mpr (.reference hreached hr)
  · constructor
    · intro hclosed q hq framework hframework r hr
      obtain ⟨p, hp, -, hreferences⟩ := (hprojects _ _).mpr ⟨hq, framework, hframework, rfl⟩
      exact (hcovers r).mp (hclosed p hp r (hreferences ▸ hr))
    · intro hreached p hp r hr
      obtain ⟨hq, framework, hframework, hreferences⟩ := (hprojects _ _).mp ⟨p, hp, rfl, rfl⟩
      exact (hcovers r).mpr (hreached _ hq framework hframework r (hreferences ▸ hr))

end

/-! ### A reference for one framework -/

/-- A solution with a project for two frameworks, which refers to another project for the second. -/
def conditioned : FileTree :=
  .directory [.mk "w" (.directory
    [.mk "s.slnx" (textFile "<S><Project Path='a.csproj'/></S>"),
      .mk "a.csproj" (textFile ("<Project>" ++
        "<PropertyGroup><TargetFrameworks>x;y</TargetFrameworks></PropertyGroup><ItemGroup>" ++
        "<ProjectReference Condition=\"'$(TargetFramework)'=='y'\" Include='b.csproj'/>" ++
        "</ItemGroup></Project>")),
      .mk "b.csproj" (textFile "<Project/>")])]

theorem conditioned_listed : readSolution conditioned (Path.normalize "/w/s.slnx") =
    .ok [{ name := "a", path := "/w/a.csproj" }] := by
  decide

theorem conditioned_evaluated : references conditioned "Debug" "/w/a.csproj" = [] ∧
    namesNoSources conditioned "/w/a.csproj" = true ∧
    "y" ∈ flavourFrameworks conditioned "Debug" "/w/a.csproj" ∧
    "/w/b.csproj" ∈ follows (evaluateProject conditioned · "Debug" "y") "/w/a.csproj" := by
  decide +kernel

theorem conditioned_open : ∃ s, (openSolution conditioned "Debug" "/w/s.slnx").outcome = .ok s ∧
    ∃ p ∈ s.projects, ∃ r ∈ p.projectReferences, ¬s.Covers r := by
  obtain ⟨hreferences, hsources, hframework, hrefers⟩ := conditioned_evaluated
  obtain ⟨s, hs⟩ := (opens_iff (by decide) conditioned_listed).mpr fun p hp => by
    rw [hp.eq_of_next_nil hreferences]
    exact not_breaksProject_of_namesNoSources hsources
  refine ⟨s, hs, ?_⟩
  by_contra hall
  push Not at hall
  have hb := (openSolution_closed (by decide) conditioned_listed hs).2.2.mp hall "/w/a.csproj"
    (.start List.mem_cons_self) "y" hframework "/w/b.csproj" hrefers
  exact absurd (hb.eq_of_next_nil hreferences) (by decide)

end ExtensionCensus
