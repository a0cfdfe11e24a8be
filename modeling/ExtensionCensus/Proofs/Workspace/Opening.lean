import ExtensionCensus.Proofs.Workspace.Loading

/-!
# Opening solutions

What a solution file is opened to.

* `openSolution_exact` — **if every evaluation that is made gives a project or an error of loading, a
  solution holds exactly the projects that are reached from its entries, in the order of one depth-first
  search, and one failure for each that cannot be loaded**.
-/

namespace ExtensionCensus

open ExtensionCensus.Path (IsAbsolute)

section

variable {tree : FileTree} {configuration written : String} {listed : List SolutionEntry}

/-- **Opening is exact.**  If each reached project is evaluated, without a framework and for those of its
flavours, to a project or to an error of loading, the solution file is opened: its projects are the
flavours of each reached project in the order of one search from the entries, and its failures are the
reached projects that cannot be loaded. -/
theorem openSolution_exact (h : IsAbsolute written)
    (hread : readSolution tree (Path.normalize written) = .ok listed)
    (hevaluates : ∀ p, Reached (references tree configuration) (listed.map (·.path)) p →
      ∀ framework ∈ "" :: flavourFrameworks tree configuration p, ∀ fault,
        (evaluateProject tree p configuration framework).outcome ≠ .error (.fault fault)) :
    ∃ s order, (openSolution tree configuration written).outcome = .ok s ∧
      Preorder (references tree configuration) [] (listed.map (·.path)) order ∧
      order.Nodup ∧
      (∀ p, p ∈ order ↔ Reached (references tree configuration) (listed.map (·.path)) p) ∧
      s.projects = order.flatMap (loadedFlavours tree configuration) ∧
      (s.failures.map (·.path)).Nodup ∧
      ∀ f, f ∈ s.failures ↔
        Reached (references tree configuration) (listed.map (·.path)) f.path ∧
          ∃ e, (evaluateProject tree f.path configuration "").outcome = .error (.load e) ∧
            f.message = e.message := by
  have hclear : ∀ p, Reached (references tree configuration) (listed.map (·.path)) p →
      ¬BreaksProject tree configuration p := by
    intro p hp hbreaks
    have hnormal := isNormal_of_reached (isNormal_entries h hread) hp
    obtain ⟨framework, hframework, hbreaks⟩ := (List.exists_mem_cons_iff ..).mpr hbreaks
    obtain ⟨fault, hfault⟩ := (fault_iff_breaks hnormal).mpr hbreaks
    exact hevaluates p hp framework hframework fault hfault
  obtain ⟨s, hs⟩ := (opens_iff h hread).mpr hclear
  have hopened := (opened_of_ok h hread hs).1
  obtain ⟨order, horder, hprojects⟩ := hopened.projects
  exact ⟨s, order, hs, horder, horder.nodup, fun p => horder.mem_iff_reached, hprojects,
    hopened.failuresOnce, hopened.failures⟩

end

/-! ### Projects in a circle -/

/-- A file with a text. -/
def textFile (text : String) : Entry :=
  .file text.toUTF8.data

/-- A solution that lists a project and one that is missing. The project is for two frameworks, each with
its own sources, and refers to another one, which refers back. -/
def circle : FileTree :=
  .directory [.mk "w" (.directory
    [.mk "s.slnx" (textFile "<S><Project Path='a.csproj'/><Project Path='c.csproj'/></S>"),
      .mk "a.csproj" (textFile ("<Project><PropertyGroup>" ++
        "<TargetFrameworks>net6.0;net8.0</TargetFrameworks></PropertyGroup>" ++
        "<ItemGroup><Compile Include='src/$(TargetFramework)/*.cs'/>" ++
        "<ProjectReference Include='b.csproj'/></ItemGroup></Project>")),
      .mk "b.csproj" (textFile ("<Project><ItemGroup>" ++
        "<ProjectReference Include='a.csproj'/></ItemGroup></Project>"))])]

theorem circle_listed : readSolution circle (Path.normalize "/w/s.slnx") =
    .ok [{ name := "a", path := "/w/a.csproj" }, { name := "c", path := "/w/c.csproj" }] := by
  decide

theorem circle_evaluated : (references circle "Debug" "/w/a.csproj" = ["/w/b.csproj"] ∧
    references circle "Debug" "/w/b.csproj" = ["/w/a.csproj"] ∧
    references circle "Debug" "/w/c.csproj" = []) ∧
    ∀ p ∈ ["/w/a.csproj", "/w/b.csproj", "/w/c.csproj"], namesNoSources circle p = true ∨
      ∀ framework ∈ "" :: flavourFrameworks circle "Debug" p,
        (evaluateProject circle p "Debug" framework).outcome.isOk = true := by
  decide +kernel

/-- The project in front is entered, and the other one inside it. -/
theorem circle_order : Preorder (references circle "Debug") [] ["/w/a.csproj", "/w/c.csproj"]
    ["/w/a.csproj", "/w/b.csproj", "/w/c.csproj"] := by
  obtain ⟨⟨ha, hb, hc⟩, -⟩ := circle_evaluated
  refine @Preorder.enter _ [] _ ["/w/b.csproj"] ["/w/c.csproj"] _ List.not_mem_nil ?_ ?_
  · rw [ha]
    refine @Preorder.enter _ _ _ [] [] _ (by decide) ?_ (.nil _)
    rw [hb]
    exact .skip (by decide) (.nil _)
  · refine @Preorder.enter _ _ _ [] [] _ (by decide) ?_ (.nil _)
    rw [hc]
    exact .nil _

theorem circle_opened : ∃ s, (openSolution circle "Debug" "/w/s.slnx").outcome = .ok s ∧
    s.projects = ["/w/a.csproj", "/w/b.csproj", "/w/c.csproj"].flatMap
      (loadedFlavours circle "Debug") ∧ (s.failures.map (·.path)).Nodup := by
  have habsolute : IsAbsolute "/w/s.slnx" := by decide
  have hentries := isNormal_entries habsolute circle_listed
  have hevaluates : ∀ p, Reached (references circle "Debug") ["/w/a.csproj", "/w/c.csproj"] p →
      ∀ framework ∈ "" :: flavourFrameworks circle "Debug" p, ∀ fault,
        (evaluateProject circle p "Debug" framework).outcome ≠ .error (.fault fault) := by
    intro p hp framework hframework fault hfault
    rcases circle_evaluated.2 p (circle_order.mem_iff_reached.mpr hp) with hsources | hok
    · exact not_breaks_of_namesNoSources circle hsources
        ((fault_iff_breaks (isNormal_of_reached hentries hp)).mp ⟨fault, hfault⟩)
    · have hproject := hok framework hframework
      rw [hfault] at hproject
      cases hproject
  obtain ⟨s, order, hs, horder, -, -, hprojects, hnodup, -⟩ :=
    openSolution_exact habsolute circle_listed hevaluates
  rw [horder.unique circle_order] at hprojects
  exact ⟨s, hs, hprojects, hnodup⟩

end ExtensionCensus
