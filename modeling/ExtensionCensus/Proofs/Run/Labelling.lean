import ExtensionCensus.Proofs.Project.Labels
import ExtensionCensus.Proofs.Run.Accounting
import ExtensionCensus.Proofs.Workspace.Closure

/-!
# The units of a project file

Which units a project file has in a solution, if it says nothing of its output.

* `IsPlainProject` — such a project file;
* `ListsFrameworks`, `NamesFramework` — the two ways to say what a project is built for;
* `IsPlainProject.frameworkOfOutput` — where the label of an output path comes from;
* `openSolution_units` — **a project file has one unit for each of several frameworks and one for a
  framework that it names; a list with one framework gives it the label of its directory**.
-/

namespace ExtensionCensus

open ExtensionCensus.Path (IsAbsolute IsNormal)

/-- The units of a project file in a solution, in the order of its projects. -/
def Solution.unitsOf (s : Solution) (path : String) : List ProjectUnit :=
  (s.projects.filter (·.filePath = path)).map Project.unit

/-! ### Frameworks -/

/-- The properties list these frameworks. -/
def ListsFrameworks (ps : Properties) (frameworks : List String) : Prop :=
  ∃ entries, ps.get? "targetframeworks" = some (";".intercalate entries) ∧
    Enumerates entries frameworks

/-- The framework that the properties name, if they name one. -/
def namedFramework (ps : Properties) : String :=
  Text.trim ((ps.get? "targetframework").getD "")

/-- The properties name one framework and list none. -/
def NamesFramework (ps : Properties) (framework : String) : Prop :=
  (ps.get? "targetframeworks").getD "" = "" ∧ namedFramework ps = framework

namespace ProjectFile

variable {file : ProjectFile}

theorem get_targetFrameworks :
    file.get "TargetFrameworks" = (file.properties.get? "targetframeworks").getD "" :=
  get_eq (by decide)

theorem targetFramework_eq : file.targetFramework = namedFramework file.properties := by
  have hlower : Text.lower "TargetFramework" = "targetframework" := by decide
  rw [targetFramework, get_eq hlower, namedFramework]

theorem targetFrameworks_of_lists {frameworks : List String}
    (h : ListsFrameworks file.properties frameworks) (hne : frameworks ≠ [])
    (hknown : ∀ f ∈ frameworks, isKnownFramework f = true) : file.targetFrameworks = frameworks := by
  obtain ⟨entries, hget, hlists⟩ := h
  have hentries := hlists.listEntries_intercalate hne hknown
  have hwritten : file.get "TargetFrameworks" = ";".intercalate entries := by
    rw [get_targetFrameworks, hget, Option.getD_some]
  have hnonempty : ";".intercalate entries ≠ "" := by
    intro hempty
    rw [hempty] at hentries
    exact hne (hentries.symm.trans (by decide))
  rw [targetFrameworks, hwritten, if_pos hnonempty, hentries]

theorem targetFrameworks_of_names {framework : String}
    (h : NamesFramework file.properties framework) (hne : framework ≠ "") :
    file.targetFrameworks = [framework] := by
  have hnone : file.get "TargetFrameworks" = "" := get_targetFrameworks.trans h.1
  have hnamed : Text.trim (file.get "TargetFramework") = framework :=
    targetFramework_eq.trans h.2
  have hwritten : file.get "TargetFramework" ≠ "" := by
    intro hempty
    rw [hempty] at hnamed
    exact hne (hnamed.symm.trans (by decide))
  rw [targetFrameworks, if_neg (not_not_intro hnone), if_pos hwritten, hnamed]

end ProjectFile

/-! ### Plain project files -/

/-- The properties that say where a project compiles to. -/
def outputProperties : List String :=
  ["assemblyname", "outputpath", "baseoutputpath", "configuration",
    "appendtargetframeworktooutputpath"]

/-- A project file in the newer style that says nothing of its output, and whose stem is plain. -/
structure IsPlainProject (tree : FileTree) (path : String) (root : Xml.Element) : Prop where
  isRoot : projectRoot tree path = .ok root
  isKit : isSdkStyle root = true
  leavesOutput : ∀ name ∈ outputProperties, setsProperty root name = false
  isPlainStem : IsPlainStem (Path.stem path)

theorem get?_builtInProperties {name : String} (h : name ∈ outputProperties)
    (path configuration framework : String) :
    (builtInProperties path configuration framework).get? name =
      if name = "configuration" then some configuration else none := by
  rw [builtInProperties, Properties.get?, List.lookup_append]
  simp only [outputProperties, List.mem_cons, List.not_mem_nil, or_false] at h
  rcases h with rfl | rfl | rfl | rfl | rfl <;> split <;> rfl

namespace IsPlainProject

variable {tree : FileTree} {configuration framework path : String} {root : Xml.Element}
variable {file : ProjectFile}

/-- What an evaluation of the project file says. -/
theorem of_outcome (h : IsPlainProject tree path root) (hpath : IsNormal path)
    (hfile : (evaluateProject tree path configuration framework).outcome = .ok file) :
    file.path = path ∧
      file.properties = evaluatedProperties tree path configuration framework root ∧
      file.isSdkStyle = true := by
  rw [evaluateProject_eq, Path.normalize_of_isNormal hpath, h.isRoot] at hfile
  rw [← h.isKit]
  exact evaluateRoot_file tree hfile

/-- The file is evaluated unless this breaks off the loading of solutions. -/
theorem exists_outcome (h : IsPlainProject tree path root) (hpath : IsNormal path)
    (hclear : ¬Breaks tree path configuration framework) :
    ∃ file, (evaluateProject tree path configuration framework).outcome = .ok file := by
  have hfault := mt (fault_iff_breaks hpath).mp hclear
  rw [evaluateProject_eq, Path.normalize_of_isNormal hpath, h.isRoot] at hfault ⊢
  rcases evaluateRoot_cases tree path configuration framework root with
    ⟨fault, -, houtcome⟩ | ⟨lists, file, -, houtcome, -⟩
  · exact absurd ⟨_, houtcome⟩ hfault
  · exact ⟨file, houtcome⟩

/-- The properties of its output have the values that they had before the file was read. -/
theorem get?_of_mem (h : IsPlainProject tree path root) (hpath : IsNormal path)
    (hfile : (evaluateProject tree path configuration framework).outcome = .ok file)
    {name : String} (hname : name ∈ outputProperties) :
    file.properties.get? name = if name = "configuration" then some configuration else none := by
  rw [(h.of_outcome hpath hfile).2.1, get?_evaluatedProperties tree (h.leavesOutput name hname),
    get?_builtInProperties hname]

/-- The project does not set this property. -/
theorem get_of_unset (h : IsPlainProject tree path root) (hpath : IsNormal path)
    (hfile : (evaluateProject tree path configuration framework).outcome = .ok file)
    {name lowered : String} (hlower : Text.lower name = lowered)
    (hname : lowered ∈ outputProperties) (hne : lowered ≠ "configuration") :
    file.get name = "" := by
  rw [ProjectFile.get_eq hlower, h.get?_of_mem hpath hfile hname, if_neg hne, Option.getD_none]

/-- The project compiles into a directory named for its configuration and for the framework that it
names. -/
theorem outputDirectory_eq (h : IsPlainProject tree path root) (hpath : IsNormal path)
    (hfile : (evaluateProject tree path configuration framework).outcome = .ok file) :
    file.outputDirectory = Path.resolve ("bin/" ++ configuration ++ "/" ++
      if file.targetFramework ≠ "" then file.targetFramework ++ "/" else "") file.directory := by
  have hunset {name lowered : String} (hlower : Text.lower name = lowered) :=
    h.get_of_unset hpath hfile hlower
  have houtput : Text.lower "OutputPath" = "outputpath" := by decide
  have hbase : Text.lower "BaseOutputPath" = "baseoutputpath" := by decide
  have happend : Text.lower "AppendTargetFrameworkToOutputPath" =
      "appendtargetframeworktooutputpath" := by decide
  refine ProjectFile.outputDirectory_eq (hunset houtput (by decide) (by decide))
    (hunset hbase (by decide) (by decide)) ?_ (hunset happend (by decide) (by decide))
    (h.of_outcome hpath hfile).2.2
  rw [h.get?_of_mem hpath hfile (by decide), if_pos rfl]

/-- The label of the output path is that of the directory. -/
theorem frameworkOfOutput_eq (h : IsPlainProject tree path root) (hpath : IsNormal path)
    (hfile : (evaluateProject tree path configuration framework).outcome = .ok file) :
    frameworkOfOutput file.outputPath = nearestFramework file.outputDirectory := by
  have hname : Text.lower "AssemblyName" = "assemblyname" := by decide
  have hfilePath := (h.of_outcome hpath hfile).1
  exact ProjectFile.frameworkOfOutput_outputPath
    (h.get_of_unset hpath hfile hname (by decide) (by decide)) (hfilePath ▸ hpath.isAbsolute)
    (hfilePath ▸ h.isPlainStem)

/-- The label of the output path is the framework that the project names. -/
theorem frameworkOfOutput_of_named (h : IsPlainProject tree path root) (hpath : IsNormal path)
    (hfile : (evaluateProject tree path configuration framework).outcome = .ok file)
    (hknown : isKnownFramework file.targetFramework = true) :
    frameworkOfOutput file.outputPath = file.targetFramework := by
  have hdirectory : IsAbsolute file.directory := by
    rw [ProjectFile.directory, (h.of_outcome hpath hfile).1]
    exact Path.isAbsolute_directory hpath.isAbsolute
  rw [h.frameworkOfOutput_eq hpath hfile, h.outputDirectory_eq hpath hfile,
    if_pos (ne_empty_of_known hknown), nearestFramework_resolve hknown hdirectory]

/-- If it names none, the label is that of a directory around the project file, or of the
configuration. -/
theorem frameworkOfOutput_of_unnamed (h : IsPlainProject tree path root) (hpath : IsNormal path)
    (hfile : (evaluateProject tree path configuration framework).outcome = .ok file)
    (hnone : file.targetFramework = "") :
    frameworkOfOutput file.outputPath =
      nearestFramework (Path.resolve ("bin/" ++ configuration ++ "/") (Path.directory path)) := by
  rw [h.frameworkOfOutput_eq hpath hfile, h.outputDirectory_eq hpath hfile,
    if_neg (not_not_intro hnone), String.append_empty, ProjectFile.directory,
    (h.of_outcome hpath hfile).1]

/-! ### Flavours -/

/-- One of several flavours has the label of its framework. -/
theorem unit_ofFile_several (h : IsPlainProject tree path root) (hpath : file.path = path)
    (hknown : isKnownFramework framework = true) :
    (Project.ofFile file (some framework) true).unit = ⟨path, Path.stem path, framework⟩ := by
  subst hpath
  exact resolveUnit_suffixed h.isPlainStem hknown _ _

/-- An only flavour has the label of its output path. -/
theorem unit_ofFile_only (h : IsPlainProject tree path root) (hpath : file.path = path)
    (only : Option String) :
    (Project.ofFile file only false).unit =
      ⟨path, Path.stem path, frameworkOfOutput file.outputPath⟩ := by
  subst hpath
  simp only [Project.unit, Project.ofFile, Bool.false_eq_true, ↓reduceIte]
  exact resolveUnit_stem h.isPlainStem _ _

section

variable (h : IsPlainProject tree path root) (hpath : IsNormal path)
  (hclear : ¬BreaksProject tree configuration path)

include h hpath hclear

/-- Each of several frameworks has a unit with its label. -/
theorem units_of_several {frameworks : List String} (hseveral : 2 ≤ frameworks.length)
    (hknown : ∀ f ∈ frameworks, isKnownFramework f = true)
    (hlists : ListsFrameworks (evaluatedProperties tree path configuration "" root) frameworks) :
    (loadedFlavours tree configuration path).map Project.unit =
      frameworks.map fun f => ⟨path, Path.stem path, f⟩ := by
  obtain ⟨file, hfile⟩ := h.exists_outcome hpath fun hbreaks => hclear (.inl hbreaks)
  obtain ⟨hfilePath, hproperties, -⟩ := h.of_outcome hpath hfile
  obtain ⟨first, second, rest, rfl⟩ : ∃ first second rest, frameworks = first :: second :: rest := by
    rcases frameworks with _ | ⟨first, _ | ⟨second, rest⟩⟩
    · exact absurd hseveral (by decide)
    · exact absurd hseveral (Nat.not_le_of_lt Nat.one_lt_two)
    · exact ⟨first, second, rest, rfl⟩
  have hframeworks : file.targetFrameworks = first :: second :: rest :=
    ProjectFile.targetFrameworks_of_lists (hproperties ▸ hlists) (List.cons_ne_nil _ _) hknown
  have hflavour : ∀ f ∈ first :: second :: rest,
      (flavour? (evaluateProject tree · configuration ·) file f).map Project.unit =
        some ⟨path, Path.stem path, f⟩ := by
    intro f hf
    have hbuilt : f ∈ flavourFrameworks tree configuration path := by
      rw [flavourFrameworks, hfile]
      simp only [hframeworks, if_pos hseveral, hf]
    obtain ⟨flavour, hevaluated⟩ :=
      h.exists_outcome hpath fun hbreaks => hclear (.inr ⟨f, hbuilt, hbreaks⟩)
    rw [flavour?, hfilePath, hevaluated, Option.map_some,
      h.unit_ofFile_several (h.of_outcome hpath hevaluated).1 (hknown f hf)]
  rw [loadedFlavours, hfile]
  simp only [flavoursOf, hframeworks]
  rw [List.map_filterMap, List.filterMap_congr hflavour, ← List.filterMap_eq_map]
  rfl

/-- A framework that a project names is the label of its only unit. -/
theorem units_of_named {f : String} (hknown : isKnownFramework f = true)
    (hnames : NamesFramework (evaluatedProperties tree path configuration "" root) f) :
    (loadedFlavours tree configuration path).map Project.unit = [⟨path, Path.stem path, f⟩] := by
  obtain ⟨file, hfile⟩ := h.exists_outcome hpath fun hbreaks => hclear (.inl hbreaks)
  obtain ⟨hfilePath, hproperties, -⟩ := h.of_outcome hpath hfile
  rw [← hproperties] at hnames
  have hframework : file.targetFramework = f := ProjectFile.targetFramework_eq.trans hnames.2
  rw [loadedFlavours, hfile]
  simp only [flavoursOf,
    ProjectFile.targetFrameworks_of_names hnames (ne_empty_of_known hknown), List.map_singleton]
  rw [h.unit_ofFile_only hfilePath,
    h.frameworkOfOutput_of_named hpath hfile (hframework ▸ hknown), hframework]

/-- A project with a list of one framework, which it does not name, has one unit, with the label of
its directory. -/
theorem units_of_single {f : String} (hknown : isKnownFramework f = true)
    (hlists : ListsFrameworks (evaluatedProperties tree path configuration "" root) [f])
    (hunnamed : namedFramework (evaluatedProperties tree path configuration "" root) = "") :
    (loadedFlavours tree configuration path).map Project.unit =
      [⟨path, Path.stem path,
        nearestFramework (Path.resolve ("bin/" ++ configuration ++ "/") (Path.directory path))⟩] := by
  obtain ⟨file, hfile⟩ := h.exists_outcome hpath fun hbreaks => hclear (.inl hbreaks)
  obtain ⟨hfilePath, hproperties, -⟩ := h.of_outcome hpath hfile
  rw [← hproperties] at hlists hunnamed
  rw [loadedFlavours, hfile]
  simp only [flavoursOf, List.map_singleton, ProjectFile.targetFrameworks_of_lists hlists
    (List.cons_ne_nil _ _) (List.forall_mem_singleton.mpr hknown)]
  rw [h.unit_ofFile_only hfilePath,
    h.frameworkOfOutput_of_unnamed hpath hfile (ProjectFile.targetFramework_eq.trans hunnamed)]

end

end IsPlainProject

/-! ### Solutions -/

/-- What is listed under one key comes from that key alone. -/
theorem filter_flatMap_of_key {α β : Type} [DecidableEq β] {values : β → List α} {key : α → β}
    {keys : List β} (hkey : ∀ k ∈ keys, ∀ v ∈ values k, key v = k) (hnodup : keys.Nodup) {k : β}
    (hk : k ∈ keys) : (keys.flatMap values).filter (key · = k) = values k := by
  have hother {k' : β} (hk' : k' ∈ keys) (hne : k' ≠ k) :
      (values k').filter (key · = k) = [] :=
    List.filter_eq_nil_iff.mpr fun v hv => by simpa [hkey k' hk' v hv] using hne
  have hnone {rest : List β} (hrest : ∀ k' ∈ rest, k' ∈ keys) (hmem : k ∉ rest) :
      (rest.flatMap values).filter (key · = k) = [] := by
    rw [List.filter_flatMap, List.flatMap_eq_nil_iff]
    exact fun k' hk' => hother (hrest k' hk') fun he => hmem (he ▸ hk')
  obtain ⟨before, after, rfl⟩ := List.append_of_mem hk
  obtain ⟨-, hafter, hdisjoint⟩ := List.nodup_append.mp hnodup
  have hown : (values k).filter (key · = k) = values k :=
    List.filter_eq_self.mpr fun v hv => decide_eq_true (hkey k hk v hv)
  rw [List.flatMap_append, List.flatMap_cons, List.filter_append, List.filter_append, hown,
    hnone (fun k' hk' => List.mem_append_left _ hk')
      fun hmem => hdisjoint k hmem k List.mem_cons_self rfl,
    hnone (fun k' hk' => List.mem_append_right _ (List.mem_cons_of_mem _ hk'))
      (List.nodup_cons.mp hafter).1,
    List.nil_append, List.append_nil]

section

variable {tree : FileTree} {configuration written : String} {listed : List SolutionEntry}

/-- The units of a project file in a solution are those of its flavours. -/
theorem Opened.unitsOf_eq {entries : List String} {s : Solution}
    (h : Opened tree configuration entries s) (hentries : ∀ p ∈ entries, IsNormal p)
    (hclear : ∀ q, Reached (references tree configuration) entries q →
      ¬BreaksProject tree configuration q) {p : String}
    (hp : Reached (references tree configuration) entries p) :
    s.unitsOf p = (loadedFlavours tree configuration p).map Project.unit := by
  obtain ⟨order, horder, hprojects⟩ := h.projects
  have hkey : ∀ q ∈ order, ∀ x ∈ loadedFlavours tree configuration q, x.filePath = q := by
    intro q hq x hx
    have hreached := horder.mem_iff_reached.mp hq
    have hmem := List.mem_map_of_mem (f := fun x : Project => (x.filePath, x.projectReferences)) hx
    rw [map_loadedFlavours (isNormal_of_reached hentries hreached) (hclear q hreached)] at hmem
    obtain ⟨framework, -, hpair⟩ := List.mem_map.mp hmem
    exact (Prod.mk.inj hpair).1.symm
  rw [Solution.unitsOf, hprojects,
    filter_flatMap_of_key hkey horder.nodup (horder.mem_iff_reached.mpr hp)]

/-- **The units of a project file.**  A reached project file that says nothing of its output has one
unit for each of several frameworks that it lists, in order, and one unit with the framework that it
names.  A list with one framework is not read as the name of it: then the unit has the label that the
directory of the project file has, which may be none. -/
theorem openSolution_units (h : IsAbsolute written)
    (hread : readSolution tree (Path.normalize written) = .ok listed)
    (hclear : ∀ q, Reached (references tree configuration) (listed.map (·.path)) q →
      ¬BreaksProject tree configuration q)
    {p : String} (hp : Reached (references tree configuration) (listed.map (·.path)) p)
    {root : Xml.Element} (hplain : IsPlainProject tree p root) :
    ∃ s, (openSolution tree configuration written).outcome = .ok s ∧
      (∀ frameworks, (∀ f ∈ frameworks, isKnownFramework f = true) → 2 ≤ frameworks.length →
        ListsFrameworks (evaluatedProperties tree p configuration "" root) frameworks →
        s.unitsOf p = frameworks.map fun f => ⟨p, Path.stem p, f⟩) ∧
      (∀ f, isKnownFramework f = true →
        NamesFramework (evaluatedProperties tree p configuration "" root) f →
        s.unitsOf p = [⟨p, Path.stem p, f⟩]) ∧
      ∀ f, isKnownFramework f = true →
        ListsFrameworks (evaluatedProperties tree p configuration "" root) [f] →
        namedFramework (evaluatedProperties tree p configuration "" root) = "" →
        s.unitsOf p = [⟨p, Path.stem p,
          nearestFramework (Path.resolve ("bin/" ++ configuration ++ "/") (Path.directory p))⟩] := by
  have hentries := isNormal_entries h hread
  obtain ⟨s, hs⟩ := (opens_iff h hread).mpr hclear
  have hunits := (opened_of_ok h hread hs).1.unitsOf_eq hentries hclear hp
  have hnormal := isNormal_of_reached hentries hp
  refine ⟨s, hs, ?_⟩
  rw [hunits]
  exact ⟨fun frameworks hknown hseveral hlists =>
      hplain.units_of_several hnormal (hclear p hp) hseveral hknown hlists,
    fun f hknown hnames => hplain.units_of_named hnormal (hclear p hp) hknown hnames,
    fun f hknown hlists hunnamed =>
      hplain.units_of_single hnormal (hclear p hp) hknown hlists hunnamed⟩

end

/-! ### A list with one framework -/

/-- The project file at a path is plain but for its stem, and this is what it says of its
frameworks. -/
def saysFrameworks (tree : FileTree) (path : String) (lists? names? : Option String) : Bool :=
  match projectRoot tree path with
  | .error _ => false
  | .ok root =>
    let ps := evaluatedProperties tree path "Debug" "" root
    isSdkStyle root && outputProperties.all (fun name => !setsProperty root name) &&
      ps.get? "targetframeworks" = lists? && ps.get? "targetframework" = names?

theorem isPlainProject_of_says {tree : FileTree} {path : String} {lists? names? : Option String}
    (h : saysFrameworks tree path lists? names? = true) (hstem : IsPlainStem (Path.stem path)) :
    ∃ root, IsPlainProject tree path root ∧
      (evaluatedProperties tree path "Debug" "" root).get? "targetframeworks" = lists? ∧
      (evaluatedProperties tree path "Debug" "" root).get? "targetframework" = names? := by
  rw [saysFrameworks] at h
  split at h
  · cases h
  · next root hroot =>
    simp only [Bool.and_eq_true, decide_eq_true_eq, List.all_eq_true, Bool.not_eq_true'] at h
    obtain ⟨⟨⟨hkit, hleaves⟩, hlists⟩, hnames⟩ := h
    exact ⟨root, ⟨hroot, hkit, hleaves, hstem⟩, hlists, hnames⟩

/-- A solution with three projects: one lists two frameworks, one names a framework, and one lists a
single framework. -/
def labelled : FileTree :=
  .directory [.mk "w" (.directory
    [.mk "s.slnx" (textFile ("<S><Project Path='a.csproj'/><Project Path='b.csproj'/>" ++
        "<Project Path='c.csproj'/></S>")),
      .mk "a.csproj" (textFile ("<Project Sdk='K'><PropertyGroup>" ++
        "<TargetFrameworks>net6.0 ;; net8.0;</TargetFrameworks></PropertyGroup></Project>")),
      .mk "b.csproj" (textFile ("<Project Sdk='K'><PropertyGroup>" ++
        "<TargetFramework>net8.0</TargetFramework></PropertyGroup></Project>")),
      .mk "c.csproj" (textFile ("<Project Sdk='K'><PropertyGroup>" ++
        "<TargetFrameworks>net8.0</TargetFrameworks></PropertyGroup></Project>"))])]

theorem labelled_listed : readSolution labelled (Path.normalize "/w/s.slnx") =
    .ok [{ name := "a", path := "/w/a.csproj" }, { name := "b", path := "/w/b.csproj" },
      { name := "c", path := "/w/c.csproj" }] := by
  decide

theorem labelled_says : saysFrameworks labelled "/w/a.csproj" (some "net6.0 ;; net8.0;") none = true ∧
    saysFrameworks labelled "/w/b.csproj" none (some "net8.0") = true ∧
    saysFrameworks labelled "/w/c.csproj" (some "net8.0") none = true := by
  decide

theorem labelled_evaluated : ∀ p ∈ ["/w/a.csproj", "/w/b.csproj", "/w/c.csproj"],
    references labelled "Debug" p = [] ∧ namesNoSources labelled p = true := by
  decide

/-- No framework is read from the path of a directory without one, so a list with one framework leaves
its project without a label. -/
theorem labelled_units : ∃ s, (openSolution labelled "Debug" "/w/s.slnx").outcome = .ok s ∧
    s.unitsOf "/w/a.csproj" =
      [⟨"/w/a.csproj", "a", "net6.0"⟩, ⟨"/w/a.csproj", "a", "net8.0"⟩] ∧
    s.unitsOf "/w/b.csproj" = [⟨"/w/b.csproj", "b", "net8.0"⟩] ∧
    s.unitsOf "/w/c.csproj" = [⟨"/w/c.csproj", "c", ""⟩] := by
  have hreached {q : String}
      (hq : Reached (references labelled "Debug") ["/w/a.csproj", "/w/b.csproj", "/w/c.csproj"] q) :
      q ∈ ["/w/a.csproj", "/w/b.csproj", "/w/c.csproj"] := by
    induction hq with
    | start hq => exact hq
    | reference _ hrefers ih => exact absurd ((labelled_evaluated _ ih).1 ▸ hrefers) List.not_mem_nil
  have hclear (q : String)
      (hq : Reached (references labelled "Debug") ["/w/a.csproj", "/w/b.csproj", "/w/c.csproj"] q) :
      ¬BreaksProject labelled "Debug" q :=
    not_breaksProject_of_namesNoSources (labelled_evaluated q (hreached hq)).2
  obtain ⟨hsaysA, hsaysB, hsaysC⟩ := labelled_says
  obtain ⟨rootA, hplainA, hlistsA, -⟩ := isPlainProject_of_says hsaysA (by decide)
  obtain ⟨rootB, hplainB, hlistsB, hnamesB⟩ := isPlainProject_of_says hsaysB (by decide)
  obtain ⟨rootC, hplainC, hlistsC, hnamesC⟩ := isPlainProject_of_says hsaysC (by decide)
  obtain ⟨s, hs, hseveral, -⟩ :=
    openSolution_units (by decide) labelled_listed hclear (.start (by decide)) hplainA
  obtain ⟨s', hs', -, hnamed, -⟩ :=
    openSolution_units (by decide) labelled_listed hclear (.start (by decide)) hplainB
  obtain ⟨s'', hs'', -, -, hsingle⟩ :=
    openSolution_units (by decide) labelled_listed hclear (.start (by decide)) hplainC
  cases hs.symm.trans hs'
  cases hs.symm.trans hs''
  have hwritten : ";".intercalate ["net6.0 ", "", " net8.0", ""] = "net6.0 ;; net8.0;" := by decide
  have hentriesA : Enumerates ["net6.0 ", "", " net8.0", ""] ["net6.0", "net8.0"] :=
    @Enumerates.framework "" "net6.0" " " _ _ (by decide) (by decide)
      (.blank (by decide) (@Enumerates.framework " " "net8.0" "" _ _ (by decide) (by decide)
        (.blank (by decide) .done)))
  have hentriesC : Enumerates ["net8.0"] ["net8.0"] :=
    @Enumerates.framework "" "net8.0" "" _ _ (by decide) (by decide) .done
  refine ⟨s, hs, ?_, ?_, ?_⟩
  · exact hseveral _ (by decide) (by decide) ⟨_, hwritten ▸ hlistsA, hentriesA⟩
  · exact hnamed "net8.0" (by decide) ⟨by rw [hlistsB]; rfl, by rw [namedFramework, hnamesB]; decide⟩
  · exact (hsingle "net8.0" (by decide) ⟨["net8.0"], hlistsC, hentriesC⟩
      (by rw [namedFramework, hnamesC]; decide)).trans (by decide)

end ExtensionCensus
