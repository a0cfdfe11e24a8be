import ExtensionCensus.Proofs.Lists
import ExtensionCensus.Proofs.Project.DefaultSources
import ExtensionCensus.Proofs.Project.ItemOrder

/-!
# Distinct sources

However a source is named, it is compiled under one path, or under that path with one slash and with two
in front.

* `isAbsolute_of_mem_select` — a pattern selects absolute paths;
* `isNormal_of_mem_expandItems`, `isNormal_of_mem_defaultItems` — **items and the walk below the
  directory of a project name files by paths in normal form**;
* `Path.IsNormal.eq_or_slash_of_place` — such paths that lead through the same names differ at most in the
  slashes in front;
* `nodup_inOrder` — a list that items make holds no file twice;
* `evaluateProject_distinct` — **no path is compiled twice, no source under a third path, and none that is
  removed**.
-/

namespace ExtensionCensus

open ExtensionCensus.Path (IsAbsolute IsNormal)

/-! ### Places -/

theorem Path.normalize_eq_below_place {path : String} (h : IsAbsolute path) :
    Path.normalize path = Path.below (Path.rootOf path) (Entry.place path) := by
  rw [Path.normalize_of_isAbsolute h, Path.segments_of_isAbsolute h, Entry.place]
  rfl

/-- A path in normal form is its root and the names that it leads through. -/
theorem Path.IsNormal.eq_append_place {f : String} (hf : IsNormal f) :
    f = Path.rootOf f ++ "/".intercalate (Entry.place f) :=
  calc f = Path.normalize f := (Path.normalize_of_isNormal hf).symm
    _ = Path.rootOf f ++ "/".intercalate (Entry.place f) :=
      Path.normalize_eq_below_place hf.isAbsolute

/-- Paths in normal form that lead through the same names are equal, or one has a slash more in front. -/
theorem Path.IsNormal.eq_or_slash_of_place {f g : String} (hf : IsNormal f) (hg : IsNormal g)
    (hplace : Entry.place f = Entry.place g) : f = g ∨ f = "/" ++ g ∨ g = "/" ++ f := by
  have hslashes : "//" = "/" ++ "/" := rfl
  have hf' := hf.eq_append_place
  have hg' := hg.eq_append_place
  rw [hplace] at hf'
  rcases Path.rootOf_of_isAbsolute hf.isAbsolute with hfroot | hfroot <;>
    rcases Path.rootOf_of_isAbsolute hg.isAbsolute with hgroot | hgroot <;>
    rw [hfroot] at hf' <;> rw [hgroot] at hg'
  · exact .inl (hf'.trans hg'.symm)
  · rw [hslashes, String.append_assoc, ← hf'] at hg'
    exact .inr (.inr hg')
  · rw [hslashes, String.append_assoc, ← hg'] at hf'
    exact .inr (.inl hf')
  · exact .inl (hf'.trans hg'.symm)

/-! ### Selected paths -/

mutual

/-- The directories below an absolute path are absolute. -/
theorem isAbsolute_of_mem_directories {path f : String} (h : IsAbsolute path) :
    ∀ {e : Entry}, f ∈ e.directories path → IsAbsolute f
  | .file _, hf => by
    rw [Entry.directories] at hf
    exact absurd hf List.not_mem_nil
  | .directory cs, hf => by
    rw [Entry.directories] at hf
    rcases List.mem_cons.mp hf with rfl | hf
    · exact h
    · exact isAbsolute_of_mem_directoriesOf h hf

theorem isAbsolute_of_mem_directoriesOf {path f : String} (h : IsAbsolute path) :
    ∀ {cs : List Child}, f ∈ Entry.directoriesOf path cs → IsAbsolute f
  | [], hf => by
    rw [Entry.directoriesOf] at hf
    exact absurd hf List.not_mem_nil
  | .mk name e :: rest, hf => by
    rw [Entry.directoriesOf] at hf
    rcases List.mem_append.mp hf with hf | hf
    · exact isAbsolute_of_mem_directories (Path.isAbsolute_join h name) hf
    · exact isAbsolute_of_mem_directoriesOf h hf

end

variable {tree : FileTree} {directory : String}

theorem isAbsolute_of_mem_selectParts {directoriesOnly : Bool} {parts : List Glob.Part} {path f : String}
    (h : IsAbsolute path) (hf : f ∈ Glob.selectParts tree directoriesOnly parts path) :
    IsAbsolute f := by
  induction parts generalizing path with
  | nil =>
    rw [Glob.selectParts] at hf
    exact List.mem_singleton.mp hf ▸ h
  | cons part rest ih =>
    cases part with
    | name text =>
      rw [Glob.selectParts] at hf
      exact ih (Path.isAbsolute_join h text) (List.mem_ite_nil_right.mp hf).2
    | wildcard pattern =>
      rw [Glob.selectParts] at hf
      obtain ⟨c, -, hf⟩ := List.mem_flatMap.mp hf
      exact ih (Path.isAbsolute_join h c.name) hf
    | descend =>
      rw [Glob.selectParts, List.mem_eraseDups] at hf
      obtain ⟨outer, houter, hf⟩ := List.mem_flatMap.mp hf
      refine ih ?_ hf
      rw [Glob.directoriesFrom] at houter
      split at houter
      · exact isAbsolute_of_mem_directories h houter
      · exact absurd houter List.not_mem_nil

/-- A pattern selects absolute paths below an absolute one. -/
theorem isAbsolute_of_mem_select {g : Glob} {f : String} (h : IsAbsolute directory)
    (hf : f ∈ g.select tree directory) : IsAbsolute f := by
  rw [Glob.select] at hf
  exact isAbsolute_of_mem_selectParts (Path.isAbsolute_ofParts_parts h)
    (List.mem_ite_nil_right.mp hf).2

/-! ### Named files -/

/-- Neither a path nor a pattern names a file otherwise than in normal form. -/
theorem isNormal_of_mem_expandEntry {written : String} {files : List String}
    (hdirectory : IsAbsolute directory) (h : expandEntry tree directory written = .ok files) :
    ∀ f ∈ files, IsNormal f := by
  rw [expandEntry] at h
  generalize Text.replaceChar (Text.trim written) '\\' '/' = entry at h
  split at h
  · cases h
    exact fun f hf => absurd hf List.not_mem_nil
  · split at h
    · cases hglob : Glob.ofText entry with
      | error fault =>
        rw [hglob] at h
        cases h
      | ok g =>
        rw [hglob] at h
        cases h
        intro f hf
        obtain ⟨selected, hselected, rfl⟩ := List.mem_map.mp hf
        exact Path.normalize_isNormal (isAbsolute_of_mem_select hdirectory
          (List.mem_mergeSort.mp (List.mem_of_mem_filter hselected)))
    · cases h
      exact List.forall_mem_singleton.mpr (Path.resolve_isNormal hdirectory entry)

theorem isNormal_of_mem_expandEntries {entries files : List String}
    (hdirectory : IsAbsolute directory) (h : expandEntries tree directory entries = .ok files) :
    ∀ f ∈ files, IsNormal f := by
  induction entries generalizing files with
  | nil =>
    cases h
    exact fun f hf => absurd hf List.not_mem_nil
  | cons entry rest ih =>
    rw [expandEntries] at h
    cases hentry : expandEntry tree directory entry with
    | error fault =>
      rw [hentry] at h
      cases h
    | ok found =>
      rw [hentry] at h
      cases hrest : expandEntries tree directory rest with
      | error fault =>
        rw [hrest] at h
        cases h
      | ok more =>
        rw [hrest] at h
        cases h
        intro f hf
        rcases List.mem_append.mp hf with hf | hf
        · exact isNormal_of_mem_expandEntry hdirectory hentry f hf
        · exact ih hrest f hf

/-- The text of an item names files by paths in normal form, whatever its properties stand for. -/
theorem isNormal_of_mem_expandItems {ps : Properties} {value : String} {files : List String}
    (hdirectory : IsAbsolute directory) (h : expandItems tree directory ps value = .ok files) :
    ∀ f ∈ files, IsNormal f :=
  isNormal_of_mem_expandEntries hdirectory h

/-- So does the walk below the directory of a project. -/
theorem isNormal_of_mem_defaultItems {p : ProjectFile} (htree : tree.IsProper)
    (hdirectory : IsNormal p.directory) : ∀ f ∈ p.defaultItems tree, IsNormal f := by
  intro f hf
  rw [ProjectFile.defaultItems] at hf
  have hf := (List.mem_ite_nil_right.mp hf).2
  cases hat : tree.lookup p.directory with
  | error fault =>
    rw [ProjectFile.defaultSources, hat] at hf
    exact absurd hf List.not_mem_nil
  | ok e =>
    have hproper := htree.lookup hat
    obtain ⟨dirs, name, hsource, rfl, -⟩ := (ProjectFile.mem_defaultSources_iff hproper hat).mp hf
    exact Path.isNormal_descend hdirectory (hproper.isName_of_hasSource hsource)

/-! ### Lists of files -/

theorem nodup_addFiles {items : List String} (h : items.Nodup) (files : List String) :
    (addFiles items files).Nodup := by
  induction files generalizing items with
  | nil => exact h
  | cons f rest ih =>
    refine ih ?_
    rw [addFile]
    split
    · exact h
    · next hf =>
      rw [← List.concat_eq_append]
      exact h.concat hf

theorem SourceStep.nodup_apply {items : List String} (h : items.Nodup) (s : SourceStep) :
    (s.apply items).Nodup :=
  (nodup_addFiles h s.included).filter _

/-- A list that items make holds no file twice. -/
theorem nodup_inOrder (start : List String) (steps : List SourceStep) :
    (inOrder start steps).Nodup := by
  have hrun {items : List String} (h : items.Nodup) : (steps.foldl SourceStep.apply items).Nodup := by
    induction steps generalizing items with
    | nil => exact h
    | cons s rest ih => exact ih (s.nodup_apply h)
  exact hrun (nodup_addFiles List.nodup_nil start)

/-- It holds nothing but the files that it starts with and those that items include. -/
theorem mem_or_included_of_mem_inOrder {start : List String} {steps : List SourceStep} {f : String}
    (h : f ∈ inOrder start steps) : f ∈ start ∨ ∃ s ∈ steps, f ∈ s.included := by
  rw [inOrder, mem_foldl_apply, mem_addFiles] at h
  rcases h with ⟨hnil | hf, -⟩ | ⟨before, s, after, rfl, hf, -⟩
  · exact absurd hnil List.not_mem_nil
  · exact .inl hf
  · exact .inr ⟨s, List.mem_append_right _ List.mem_cons_self, hf⟩

/-! ### Steps of items -/

section

variable {ps : Properties}

theorem sourceStep_ok_iff {e : Xml.Element} {s : SourceStep} :
    sourceStep tree directory ps e = .ok s ↔
      expandItems tree directory ps (e.value "Include") = .ok s.included ∧
        expandItems tree directory ps (e.value "Remove") = .ok s.removed := by
  rw [sourceStep]
  cases expandItems tree directory ps (e.value "Include") with
  | error fault => simp
  | ok included =>
    cases expandItems tree directory ps (e.value "Remove") with
    | error fault => simp [Except.map]
    | ok removed =>
      obtain ⟨included', removed'⟩ := s
      simp [Except.map]

/-- Items are told one by one. -/
theorem forall₂_sourceSteps {items : List Xml.Element} {steps : List SourceStep}
    (h : sourceSteps tree directory ps items = .ok steps) :
    List.Forall₂ (fun e s => sourceStep tree directory ps e = .ok s) items steps := by
  induction items generalizing steps with
  | nil =>
    cases h
    exact .nil
  | cons e rest ih =>
    rw [sourceSteps] at h
    cases hstep : sourceStep tree directory ps e with
    | error fault =>
      rw [hstep] at h
      cases h
    | ok s =>
      rw [hstep] at h
      cases hrest : sourceSteps tree directory ps rest with
      | error fault =>
        rw [hrest] at h
        cases h
      | ok more =>
        rw [hrest] at h
        cases h
        exact .cons hstep (ih hrest)

end

/-! ### Compiled sources -/

theorem isNormal_directory_of_evaluateProject {written configuration framework : String}
    {file : ProjectFile} (hwritten : IsAbsolute written)
    (h : (evaluateProject tree written configuration framework).outcome = .ok file) :
    IsNormal file.directory := by
  have hnormal := Path.normalize_isNormal hwritten
  have hsame : (evaluateProject tree (Path.normalize written) configuration framework).outcome =
      .ok file := by
    rw [evaluateProject_eq] at h ⊢
    rwa [Path.normalize_of_isNormal hnormal]
  rw [ProjectFile.directory, (evaluateProject_ok tree hnormal hsame).1]
  exact Path.isNormal_directory hnormal

/-- **No path is compiled twice.**  In a proper tree the files that a project compiles have absolute paths
in normal form, which are different; two of them that lead through the same names differ in one slash in
front. None of them is among the paths that an item removes. -/
theorem evaluateProject_distinct {written configuration framework : String} {file : ProjectFile}
    (htree : tree.IsProper) (hwritten : IsAbsolute written)
    (h : (evaluateProject tree written configuration framework).outcome = .ok file) :
    (∀ f ∈ file.compileItems, IsAbsolute f ∧ Path.normalize f = f) ∧
      file.compileItems.Nodup ∧
      (∀ f ∈ file.compileItems, ∀ g ∈ file.compileItems, Entry.place f = Entry.place g →
        f = g ∨ f = "/" ++ g ∨ g = "/" ++ f) ∧
      ∃ root, projectRoot tree (Path.normalize written) = .ok root ∧
        ∀ e ∈ sourceItems tree file.directory file.properties root,
          ∃ removed, expandItems tree file.directory file.properties (e.value "Remove") = .ok removed ∧
            ∀ f ∈ file.compileItems, f ∉ removed := by
  obtain ⟨root, steps, hroot, hsteps, hitems, -⟩ := evaluateProject_compileItems h
  have hdirectory := isNormal_directory_of_evaluateProject hwritten h
  have hmatched := forall₂_sourceSteps hsteps
  have hnormal : ∀ f ∈ file.compileItems, IsNormal f := by
    intro f hf
    rw [hitems] at hf
    rcases mem_or_included_of_mem_inOrder (List.mem_of_mem_filter hf) with hf | ⟨s, hs, hf⟩
    · exact isNormal_of_mem_defaultItems htree hdirectory f hf
    · obtain ⟨e, -, hstep⟩ := exists_of_mem_right hmatched hs
      exact isNormal_of_mem_expandItems hdirectory.isAbsolute (sourceStep_ok_iff.mp hstep).1 f hf
  refine ⟨?_, ?_, ?_, root, hroot, ?_⟩
  · exact fun f hf => ⟨(hnormal f hf).isAbsolute, Path.normalize_of_isNormal (hnormal f hf)⟩
  · rw [hitems]
    exact (nodup_inOrder _ _).filter _
  · exact fun f hf g hg => (hnormal f hf).eq_or_slash_of_place (hnormal g hg)
  · intro e he
    obtain ⟨s, hs, hstep⟩ := exists_of_mem_left hmatched he
    refine ⟨s.removed, (sourceStep_ok_iff.mp hstep).2, fun f hf hremoved => ?_⟩
    rw [hitems, List.mem_filter] at hf
    have hkept := hf.2
    rw [List.contains_iff_mem.mpr (List.mem_flatMap.mpr ⟨s, hs, hremoved⟩)] at hkept
    cases hkept

/-! ### Sources of many spellings -/

/-- A project that names a source by a pattern and by paths of several spellings, beside the walk, and removes
another one. -/
def respelling : FileTree :=
  .directory [.mk "w" (.directory [
    .mk "p.csproj" (.file ("<Project Sdk='K'><PropertyGroup><Sub>sub</Sub></PropertyGroup><ItemGroup>" ++
      "<Compile Include='**/c.cs;sub\\c.cs;./sub/c.cs;$(Sub)/../$(Sub)/c.cs'/>" ++
      "<Compile Remove='sub/old/*.cs'/></ItemGroup></Project>").toUTF8.data),
    .mk "a.cs" (.file #[]),
    .mk "sub" (.directory [.mk "c.cs" (.file #[]),
      .mk "old" (.directory [.mk "b.cs" (.file #[])])])])]

theorem respelling_compileItems :
    (evaluateProject respelling "/w/p.csproj" "Debug" "").outcome.toOption.map (·.compileItems) =
      some ["/w/a.cs", "/w/sub/c.cs"] := by
  decide +kernel

/-- The source is compiled once, and the removed one is not. -/
theorem respelling_distinct : ∃ file,
    (evaluateProject respelling "/w/p.csproj" "Debug" "").outcome = .ok file ∧
      file.compileItems = ["/w/a.cs", "/w/sub/c.cs"] ∧ file.compileItems.Nodup ∧
      (∀ f ∈ file.compileItems, IsAbsolute f ∧ Path.normalize f = f) ∧
      (∀ f ∈ file.compileItems, ∀ g ∈ file.compileItems, Entry.place f = Entry.place g →
        f = g ∨ f = "/" ++ g ∨ g = "/" ++ f) ∧
      ∃ root, projectRoot respelling (Path.normalize "/w/p.csproj") = .ok root ∧
        ∀ e ∈ sourceItems respelling file.directory file.properties root,
          ∃ removed, expandItems respelling file.directory file.properties (e.value "Remove") =
            .ok removed ∧ ∀ f ∈ file.compileItems, f ∉ removed := by
  have hitems := respelling_compileItems
  cases hfile : (evaluateProject respelling "/w/p.csproj" "Debug" "").outcome with
  | error e =>
    rw [hfile] at hitems
    cases hitems
  | ok file =>
    rw [hfile] at hitems
    obtain ⟨hnormal, hnodup, hplace, hremoved⟩ :=
      evaluateProject_distinct (by decide) (by decide) hfile
    exact ⟨file, rfl, Option.some.inj hitems, hnodup, hnormal, hplace, hremoved⟩

/-- A project that names a source with a slash in front of the absolute path of its directory, beside the
walk. -/
def slashedSource : FileTree :=
  .directory [.mk "w" (.directory [
    .mk "p.csproj" (.file ("<Project Sdk='K'><ItemGroup>" ++
      "<Compile Include='/$(MSBuildProjectDirectory)/a.cs'/></ItemGroup></Project>").toUTF8.data),
    .mk "a.cs" (.file "class A{}".toUTF8.data)])]

/-- Both slashes stay in the normal form of the path, so the source is compiled twice. -/
theorem slashedSource_twice :
    (evaluateProject slashedSource "/w/p.csproj" "Debug" "").outcome.toOption.map (·.compileItems) =
        some ["/w/a.cs", "//w/a.cs"] ∧
      Entry.place "/w/a.cs" = Entry.place "//w/a.cs" ∧
      slashedSource.read "/w/a.cs" = .ok "class A{}".toUTF8.data ∧
      slashedSource.read "//w/a.cs" = .ok "class A{}".toUTF8.data := by
  decide +kernel

end ExtensionCensus
