import ExtensionCensus.Proofs.File.Writing
import ExtensionCensus.Proofs.Project.Refusal
import ExtensionCensus.Proofs.Report.Rows
import ExtensionCensus.Run.Publication

/-!
# What a run leaves behind

A run returns with both reports written, unless the pattern for solution files is refused or a
directory stands where a report goes.

* `writeTexts_ok_iff`, `lookup_writeTexts` — when some texts can be written, and what is in the
  directory afterwards;
* `RefusesSearch`, `takeCensus_ok_iff` — the patterns for solution files that end a run;
* `Published` — both reports are in their files, each behind its header;
* `publishCensus_publishes` — **a run that returns has published its reports, and it returns unless
  its pattern is refused or a report cannot be written**.
-/

namespace ExtensionCensus

open ExtensionCensus.Path (IsAbsolute IsName)
open Source (Parser)

/-! ### Writing texts -/

section

variable {tree written : FileTree} {path : String} {cs : List Child}

/-- Texts can be written into a directory, unless a directory has the name of one of them. -/
theorem writeTexts_ok_iff (h : tree.lookup path = .ok (.directory cs))
    (texts : List (String × String)) :
    (∃ written, writeTexts path tree texts = .ok written) ↔
      ∀ t ∈ texts, ∀ ds, (Entry.directory cs).child? t.1 ≠ some (.directory ds) := by
  induction texts generalizing tree cs with
  | nil => simp [writeTexts]
  | cons t rest ih =>
    obtain ⟨name, text⟩ := t
    have hfirst := Entry.write_ok_iff h name text.toUTF8.data
    rw [List.forall_mem_cons, writeTexts]
    cases hwrite : tree.write path name text.toUTF8.data with
    | error cause =>
      have hnot : ¬∀ ds, (Entry.directory cs).child? name ≠ some (.directory ds) := by
        intro hfree
        obtain ⟨written, hwritten⟩ := hfirst.mpr hfree
        rw [hwrite] at hwritten
        cases hwritten
      exact ⟨fun ⟨_, h⟩ => (nomatch h), fun h => absurd h.1 hnot⟩
    | ok next =>
      have hfree := hfirst.mp ⟨next, hwrite⟩
      rw [and_iff_right hfree]
      refine (ih (Entry.lookup_write h hwrite)).trans (forall₂_congr fun t _ => ?_)
      by_cases hname : t.1 = name
      · rw [hname, Entry.child?_setChild]
        exact ⟨fun _ => hfree, fun _ ds h => (nomatch h)⟩
      · rw [Entry.child?_setChild_of_ne hname]

/-- Texts are written to the children of their names, and no other child changes. -/
theorem lookup_writeTexts (h : tree.lookup path = .ok (.directory cs))
    {texts : List (String × String)} (hwrite : writeTexts path tree texts = .ok written) :
    ∃ cs', written.lookup path = .ok (.directory cs') ∧
      (∀ name, name ∉ texts.map (·.1) →
        (Entry.directory cs').child? name = (Entry.directory cs).child? name) ∧
      ((texts.map (·.1)).Nodup → ∀ t ∈ texts,
        (Entry.directory cs').child? t.1 = some (.file t.2.toUTF8.data)) := by
  induction texts generalizing tree cs with
  | nil =>
    rw [writeTexts] at hwrite
    cases hwrite
    exact ⟨cs, h, fun _ _ => rfl, fun _ t ht => absurd ht List.not_mem_nil⟩
  | cons t rest ih =>
    obtain ⟨name, text⟩ := t
    rw [writeTexts] at hwrite
    cases hfirst : tree.write path name text.toUTF8.data with
    | error cause =>
      rw [hfirst] at hwrite
      cases hwrite
    | ok next =>
      rw [hfirst] at hwrite
      obtain ⟨cs', hlookup, hothers, htexts⟩ := ih (Entry.lookup_write h hfirst) hwrite
      refine ⟨cs', hlookup, ?_, ?_⟩
      · intro other hother
        rw [List.map_cons, List.mem_cons, not_or] at hother
        rw [hothers other hother.2, Entry.child?_setChild_of_ne hother.1]
      · intro hnodup u hu
        rw [List.map_cons, List.nodup_cons] at hnodup
        rcases List.mem_cons.mp hu with rfl | hu
        · rw [hothers _ hnodup.1, Entry.child?_setChild]
        · exact htexts hnodup.2 u hu

end

/-! ### Patterns for solution files -/

/-- The text names nothing, or is refused as a pattern. -/
def RefusesSearch (pattern : String) : Prop :=
  Path.parts pattern = [] ∨ RefusesPattern pattern

/-- Only a pattern that is refused ends a search, and only where there is a directory. -/
theorem discoverSolutions_ok_iff (tree : FileTree) (directory pattern : String) :
    (∃ solutions, discoverSolutions tree directory pattern = .ok solutions) ↔
      (tree.hasDirectory directory = true → ¬RefusesSearch pattern) := by
  rw [discoverSolutions, RefusesSearch, ← Glob.ofText_refused_iff]
  split
  · next hdir =>
    rw [forall_prop_of_true hdir]
    cases Glob.ofText pattern with
    | error fault => simp [Except.map]
    | ok g => simp [Except.map]
  · next hdir => exact ⟨fun _ h => absurd h hdir, fun _ => ⟨[], rfl⟩⟩

/-- A run takes its census once it has found its solution files. -/
theorem takeCensus_ok_iff (tree : FileTree) (parse : Parser) (settings : Settings)
    (search output : String) :
    (∃ c, takeCensus tree parse settings search output = .ok c) ↔
      (tree.hasDirectory (Path.normalize search) = true →
        ¬RefusesSearch settings.solutionPattern) := by
  rw [← discoverSolutions_ok_iff]
  unfold takeCensus survey
  cases hfound : discoverSolutions tree (Path.normalize search) settings.solutionPattern with
  | error fault => simp only [hfound, Except.map, reduceCtorEq, exists_false]
  | ok solutions =>
    simp only [hfound]
    exact ⟨fun _ => ⟨solutions, rfl⟩, fun _ => ⟨_, rfl⟩⟩

/-! ### Reports -/

variable {tree : FileTree} {parse : Parser} {settings : Settings} {search output : String}

/-- A run returns its census once the reports are written. -/
theorem publishCensus_ok_iff {c : Census} {written : FileTree} :
    publishCensus tree parse settings search output = .ok (c, written) ↔
      takeCensus tree parse settings search output = .ok c ∧
        writeTexts output tree c.reports = .ok written := by
  unfold publishCensus takeCensus
  cases survey tree parse settings search with
  | error fault => simp [Except.map]
  | ok found =>
    have hreports : (found.close output).reports = found.reports := rfl
    constructor
    · intro h
      simp only at h
      split at h
      · cases h
      · next next hwrite =>
        cases h
        exact ⟨rfl, hwrite⟩
    · rintro ⟨htaken, hwrite⟩
      cases htaken
      rw [hreports] at hwrite
      simp only [hwrite]

/-- Both reports are in their files, each behind its header. -/
structure Published (written : FileTree) (output : String) (c : Census) : Prop where
  types : written.read (Census.reportPath output typeReportName) = .ok c.typeReport.toUTF8.data
  methods :
    written.read (Census.reportPath output methodReportName) = .ok c.methodReport.toUTF8.data
  typeHeader : ∃ rows, c.typeReport = Csv.writeRow (typeHeaders.map .text) ++ rows
  methodHeader : ∃ rows, c.methodReport = Csv.writeRow (methodHeaders.map .text) ++ rows

theorem isName_typeReportName : IsName typeReportName :=
  ⟨by decide, by decide, by decide, by decide⟩

theorem isName_methodReportName : IsName methodReportName :=
  ⟨by decide, by decide, by decide, by decide⟩

/-- A directory has the name of a report exactly if it is at the path of the report. -/
theorem hasDirectory_reportPath_iff {cs : List Child} {name : String} (habsolute : IsAbsolute output)
    (hname : IsName name) (h : tree.lookup output = .ok (.directory cs)) :
    tree.hasDirectory (Census.reportPath output name) = false ↔
      ∀ ds, (Entry.directory cs).child? name ≠ some (.directory ds) := by
  rw [Entry.hasDirectory, Census.reportPath, Entry.lookup_join habsolute hname h]
  cases (Entry.directory cs).child? name with
  | none => simp
  | some inner =>
    cases inner with
    | file content => simp [Entry.isDirectory]
    | directory ds => simp [Entry.isDirectory]

/-- What was written under a name is what is read at the path of the report. -/
theorem read_reportPath {cs : List Child} {name : String} {content : Text.Bytes}
    (habsolute : IsAbsolute output) (hname : IsName name)
    (h : tree.lookup output = .ok (.directory cs))
    (hchild : (Entry.directory cs).child? name = some (.file content)) :
    tree.read (Census.reportPath output name) = .ok content := by
  rw [Entry.read, Census.reportPath, Entry.lookup_join habsolute hname h, hchild]

theorem published_of_writeTexts {c : Census} {written : FileTree} {cs : List Child}
    (habsolute : IsAbsolute output) (h : tree.lookup output = .ok (.directory cs))
    (hwrite : writeTexts output tree c.reports = .ok written) :
    Published written output c := by
  obtain ⟨cs', hlookup, -, htexts⟩ := lookup_writeTexts h hwrite
  have hnodup : (c.reports.map (·.1)).Nodup := by
    show [typeReportName, methodReportName].Nodup
    decide
  have hchildren := htexts hnodup
  rw [Census.reports, List.forall_mem_cons, List.forall_mem_singleton] at hchildren
  refine ⟨read_reportPath habsolute isName_typeReportName hlookup hchildren.1,
    read_reportPath habsolute isName_methodReportName hlookup hchildren.2, ?_, ?_⟩
  · rw [Census.typeReport, renderTables, Rendering.foldl_add]
    exact ⟨_, rfl⟩
  · rw [Census.methodReport, renderTables, Rendering.foldl_add]
    exact ⟨_, rfl⟩

/-- **A run publishes its reports.**  Wherever the path to search leads from the current directory, a run
returns unless the pattern for solution files is refused or a directory stands where a report goes,
whatever the solutions, projects and sources hold; and whenever it returns, both reports are in their
files, each behind its header. -/
theorem publishCensus_publishes (tree : FileTree) (parse : Parser) (settings : Settings)
    {current : String} (hcurrent : IsAbsolute current) (search : String) {output : String}
    (habsolute : IsAbsolute output) (houtput : tree.hasDirectory output = true) :
    ((∃ c written, publishCensus tree parse settings (Path.normalize (Path.join current search)) output =
        .ok (c, written)) ↔
      (tree.hasDirectory (Path.normalize (Path.join current search)) = true →
        ¬RefusesSearch settings.solutionPattern) ∧
      tree.hasDirectory (Census.reportPath output typeReportName) = false ∧
      tree.hasDirectory (Census.reportPath output methodReportName) = false) ∧
    ∀ c written, publishCensus tree parse settings (Path.normalize (Path.join current search)) output =
        .ok (c, written) →
      Published written output c := by
  have hnormal : Path.normalize (Path.normalize (Path.join current search)) =
      Path.normalize (Path.join current search) :=
    Path.normalize_of_isNormal (Path.normalize_isNormal (Path.isAbsolute_join hcurrent search))
  obtain ⟨cs, hcs⟩ : ∃ cs, tree.lookup output = .ok (.directory cs) := by
    rw [Entry.hasDirectory] at houtput
    split at houtput
    · next e he =>
      cases e with
      | file content => cases houtput
      | directory cs => exact ⟨cs, he⟩
    · cases houtput
  constructor
  · rw [← hnormal, ← takeCensus_ok_iff tree parse settings _ output, hnormal,
      hasDirectory_reportPath_iff habsolute isName_typeReportName hcs,
      hasDirectory_reportPath_iff habsolute isName_methodReportName hcs]
    simp only [publishCensus_ok_iff]
    constructor
    · rintro ⟨c, written, htaken, hwrite⟩
      have hfree := (writeTexts_ok_iff hcs c.reports).mp ⟨written, hwrite⟩
      rw [Census.reports, List.forall_mem_cons, List.forall_mem_singleton] at hfree
      exact ⟨⟨c, htaken⟩, hfree⟩
    · rintro ⟨⟨c, htaken⟩, hfree⟩
      have hwrites : ∃ written, writeTexts output tree c.reports = .ok written := by
        rw [writeTexts_ok_iff hcs, Census.reports, List.forall_mem_cons, List.forall_mem_singleton]
        exact hfree
      obtain ⟨written, hwrite⟩ := hwrites
      exact ⟨c, written, htaken, hwrite⟩
  · intro c written hpublish
    obtain ⟨-, hwrite⟩ := publishCensus_ok_iff.mp hpublish
    exact published_of_writeTexts habsolute hcs hwrite

/-! ### A pattern that is refused -/

/-- A directory without solution files, and one for the reports in it. -/
def workshop : FileTree :=
  .directory [.mk "w" (.directory [.mk "out" (.directory [])])]

/-- Two stars beside other characters. -/
def faultyPattern : Settings :=
  { solutionPattern := "**.sln" }

theorem workshop_publishes :
    (¬∃ c written, publishCensus workshop default faultyPattern
        (Path.normalize (Path.join "/w/out" "..")) "/w/out" = .ok (c, written)) ∧
    ∃ c written, publishCensus workshop default {}
        (Path.normalize (Path.join "/w/out" "..")) "/w/out" = .ok (c, written) ∧
      Published written "/w/out" c := by
  have habsolute : IsAbsolute "/w/out" := by decide
  have houtput : workshop.hasDirectory "/w/out" = true := by decide
  constructor
  · intro hreturns
    have hallowed := (publishCensus_publishes workshop default faultyPattern habsolute ".." habsolute
      houtput).1.mp hreturns
    refine hallowed.1 (by decide) (Or.inr (Or.inr ⟨"**.sln", by decide, ?_⟩))
    exact ⟨by decide, by decide⟩
  · obtain ⟨hreturns, hpublished⟩ :=
      publishCensus_publishes workshop default {} habsolute ".." habsolute houtput
    have hpattern : ¬RefusesSearch "*.sln" := by
      unfold RefusesSearch RefusesPattern HasPartialDescent
      decide
    obtain ⟨c, written, hrun⟩ :=
      hreturns.mpr ⟨fun _ => hpattern, by decide, by decide⟩
    exact ⟨c, written, hrun, hpublished c written hrun⟩

end ExtensionCensus
