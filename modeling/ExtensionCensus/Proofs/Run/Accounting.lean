import ExtensionCensus.Proofs.Extension.Record
import ExtensionCensus.Proofs.Report.Rows
import ExtensionCensus.Run.Publication
import Mathlib.Data.Finset.Card

/-!
# The accounts of a run

A run meets the projects of its solutions one by one, and what it has come to depends only on which
it has met: the first project of each unit is compiled and classified, and has one of four ends; the
others are duplicates.

* `censusProjects` — the projects that a run meets; `firstOccurrences` — the first of each unit;
* `UnitEnd`, `Project.ending` — what becomes of a unit;
* `Census.Tallied` — what a run has come to after some projects, kept by each of its steps;
* `Census.Accounts` — the accounts of a run: numbers, rows and exit code;
* `publishCensus_accounts` — **the accounts of every run balance**.
-/

namespace ExtensionCensus

open Source (Parser)

/-! ### Projects -/

/-- The projects of a solution in the order in which they are loaded; none if it does not open. -/
def solutionProjects (tree : FileTree) (configuration path : String) : List Project :=
  match (openSolution tree configuration path).outcome with
  | .ok s => s.projects
  | .error _ => []

/-- The projects that do not only build reference assemblies. -/
def declaringProjects (projects : List Project) : List Project :=
  projects.filter fun p => !isReferenceAssembly p.filePath

/-- The projects that a run over some solutions meets. -/
def censusProjects (tree : FileTree) (configuration : String) (solutions : List String) :
    List Project :=
  declaringProjects (solutions.flatMap (solutionProjects tree configuration))

/-- The unit of a project. -/
def Project.unit (p : Project) : ProjectUnit :=
  resolveUnit p.name p.filePath p.outputPath

/-- The first project of each unit. -/
def firstOccurrences (projects : List Project) : List Project :=
  projects.eraseDupsBy fun p q => p.unit.same q.unit

theorem eraseDupsBy_loop_append {α : Type} (r : α → α → Bool) (as : List α) (a : α) (bs : List α) :
    List.eraseDupsBy.loop r (as ++ [a]) bs =
      if (List.eraseDupsBy.loop r as bs).any (r a) then List.eraseDupsBy.loop r as bs
      else List.eraseDupsBy.loop r as bs ++ [a] := by
  induction as generalizing bs with
  | nil =>
    cases hb : bs.any (r a) <;>
      simp [List.eraseDupsBy.loop, hb]
  | cons b rest ih =>
    rw [List.cons_append, List.eraseDupsBy.loop, List.eraseDupsBy.loop]
    split
    · exact ih bs
    · exact ih (b :: bs)

/-- The last project counts only if its unit was not seen before. -/
theorem firstOccurrences_append (projects : List Project) (p : Project) :
    firstOccurrences (projects ++ [p]) =
      if ((firstOccurrences projects).map Project.unit).any p.unit.same then
        firstOccurrences projects
      else firstOccurrences projects ++ [p] := by
  have happend := eraseDupsBy_loop_append (fun p q : Project => p.unit.same q.unit) projects p []
  rw [List.any_map, Function.comp_def]
  exact happend

theorem any_same_iff {projects : List Project} {p : Project} :
    (projects.map Project.unit).any p.unit.same = true ↔
      p.unit.key ∈ projects.map fun q => q.unit.key := by
  simp only [List.any_map, List.any_eq_true, Function.comp_apply, ProjectUnit.same,
    decide_eq_true_iff, List.mem_map]
  constructor
  · rintro ⟨q, hq, hkey⟩
    exact ⟨q, hq, hkey.symm⟩
  · rintro ⟨q, hq, hkey⟩
    exact ⟨q, hq, hkey.symm⟩

theorem mem_keys_firstOccurrences (projects : List Project) (key : String × String × String) :
    key ∈ (firstOccurrences projects).map (fun p => p.unit.key) ↔
      key ∈ projects.map fun p => p.unit.key := by
  induction projects using List.reverseRecOn with
  | nil => rfl
  | append_singleton projects p ih =>
    rw [firstOccurrences_append]
    split
    · next hseen =>
      rw [ih, List.map_append, List.mem_append, List.map_singleton, List.mem_singleton]
      constructor
      · exact Or.inl
      · rintro (hkey | rfl)
        · exact hkey
        · exact ih.mp (any_same_iff.mp hseen)
    · rw [List.map_append, List.map_append, List.mem_append, List.mem_append, ih]

theorem nodup_keys_firstOccurrences (projects : List Project) :
    ((firstOccurrences projects).map fun p => p.unit.key).Nodup := by
  induction projects using List.reverseRecOn with
  | nil => exact List.nodup_nil
  | append_singleton projects p ih =>
    rw [firstOccurrences_append]
    split
    · exact ih
    · next hnew =>
      rw [any_same_iff] at hnew
      rw [List.map_append, List.map_singleton, List.nodup_append]
      refine ⟨ih, List.nodup_singleton _, ?_⟩
      intro key hkey key' hkey' heq
      rw [List.mem_singleton] at hkey'
      rw [heq, hkey'] at hkey
      exact hnew hkey

/-- There are as many first projects as keys. -/
theorem length_firstOccurrences (projects : List Project) :
    (firstOccurrences projects).length = (projects.map fun p => p.unit.key).toFinset.card := by
  have hkeys : (projects.map fun p => p.unit.key).toFinset =
      ((firstOccurrences projects).map fun p => p.unit.key).toFinset := by
    ext key
    rw [List.mem_toFinset, List.mem_toFinset, mem_keys_firstOccurrences]
  rw [hkeys, List.toFinset_card_of_nodup (nodup_keys_firstOccurrences projects), List.length_map]

/-! ### Ends of units -/

/-- What becomes of a unit: it has no assembly, cannot be classified, has no containers, or is
reported. -/
inductive UnitEnd where
  | unavailable
  | defect (cause : ClassifyError)
  | bare
  | reported (result : UnitResult)

namespace UnitEnd

/-- The unit has no assembly. -/
def isUnavailable : UnitEnd → Bool
  | .unavailable => true
  | _ => false

/-- The unit cannot be classified. -/
def isDefect : UnitEnd → Bool
  | .defect _ => true
  | _ => false

/-- The unit has no containers. -/
def isBare : UnitEnd → Bool
  | .bare => true
  | _ => false

/-- What is reported of the unit. -/
def result? : UnitEnd → Option UnitResult
  | .reported result => some result
  | _ => none

/-- Some units have one of the four ends each. -/
theorem length_eq (ends : List UnitEnd) :
    ends.length = (ends.filter isUnavailable).length + (ends.filter isDefect).length +
      (ends.filter isBare).length + (ends.filterMap result?).length := by
  induction ends with
  | nil => rfl
  | cons e rest ih =>
    cases e
    all_goals
      simp only [List.filter_cons, List.filterMap_cons, isUnavailable, isDefect, isBare, result?,
        List.length_cons, if_true, Bool.false_eq_true, if_false]
      omega

end UnitEnd

/-- What becomes of the unit of a project. It depends on the compilation of this project only. -/
def Project.ending (tree : FileTree) (parse : Parser) (p : Project) : UnitEnd :=
  match (p.compile tree parse).2 with
  | .error _ => .unavailable
  | .ok none => .unavailable
  | .ok (some a) =>
    match a.classify with
    | .error cause => .defect cause
    | .ok containers =>
      if containers.isEmpty then .bare
      else .reported { unit := p.unit, assembly := a.identity, containers }

namespace SymbolTable

variable (table : SymbolTable)

/-- Only a receiver that the walk refuses leaves a container without a record. -/
theorem receiver_of_containerRecords {ids : List TypeId} {cause : ClassifyError}
    (h : table.containerRecords ids = .error cause) : ∃ refused, cause = .receiver refused := by
  induction ids with
  | nil => cases h
  | cons id rest ih =>
    rw [containerRecords] at h
    rcases table.containerRecord_cases id with ⟨record, hrecord, -⟩ | ⟨_, _, _, _, refused, hrefused⟩
    · rw [hrecord] at h
      cases hrest : table.containerRecords rest with
      | ok records =>
        rw [hrest] at h
        cases h
      | error cause' =>
        rw [hrest] at h
        cases h
        exact ih hrest
    · rw [hrefused.record] at h
      cases h
      exact ⟨refused, rfl⟩

end SymbolTable

/-- A unit cannot be classified only because of a receiver that the walk refuses. -/
theorem Project.receiver_of_defect {tree : FileTree} {parse : Parser} {p : Project}
    {cause : ClassifyError} (h : p.ending tree parse = .defect cause) :
    ∃ refused, cause = .receiver refused := by
  rw [ending] at h
  split at h
  · cases h
  · cases h
  · next a _ =>
    split at h
    · next cause' hcause =>
      cases h
      exact a.table.receiver_of_containerRecords hcause
    · split at h <;> cases h

/-! ### Steps -/

namespace Census

variable {tree : FileTree} {parse : Parser} {configuration : String}
variable {solutions : List String} {projects : List Project} {c : Census}

variable (tree parse solutions projects c) in
/-- What a run over some solutions has come to after it has met some projects. -/
structure Tallied : Prop where
  solutions : c.solutions = solutions
  processed : c.processed = (firstOccurrences projects).map Project.unit
  duplicates : c.processed.length + c.duplicates = projects.length
  unavailable : c.unavailable =
    ((firstOccurrences projects).filter fun p => (p.ending tree parse).isUnavailable).map (·.name)
  defects : c.defects =
    ((firstOccurrences projects).filter fun p => (p.ending tree parse).isDefect).map (·.name)
  results : c.results = (firstOccurrences projects).filterMap fun p => (p.ending tree parse).result?

theorem tallied_start (messages : List RunMessage) :
    Tallied tree parse solutions [] { solutions, messages } :=
  ⟨rfl, rfl, rfl, rfl, rfl, rfl⟩

theorem Tallied.tell (h : Tallied tree parse solutions projects c) (messages : List RunMessage) :
    Tallied tree parse solutions projects (c.tell messages) :=
  ⟨h.solutions, h.processed, h.duplicates, h.unavailable, h.defects, h.results⟩

theorem Tallied.addLoadFailures (h : Tallied tree parse solutions projects c) (paths : List String) :
    Tallied tree parse solutions projects { c with loadFailures := c.loadFailures ++ paths } :=
  ⟨h.solutions, h.processed, h.duplicates, h.unavailable, h.defects, h.results⟩

/-- The census with the end of a unit noted. -/
def note (c : Census) (name : String) : UnitEnd → Census
  | .unavailable => { c with unavailable := c.unavailable ++ [name] }
  | .defect _ => { c with defects := c.defects ++ [name] }
  | .bare => c
  | .reported result => { c with results := c.results ++ [result] }

variable (tree parse) in
/-- A unit that was not seen before is noted by its end, and nothing else but the messages
changes. -/
theorem process_eq (c : Census) (p : Project) :
    ∃ messages, c.process tree parse p.unit p =
      { note { c with processed := c.processed ++ [p.unit] } p.name (p.ending tree parse) with
        messages } := by
  rw [process, Project.ending]
  rcases p.compile tree parse with ⟨messages, fault | _ | a⟩
  · cases fault with
    | unreadable project document cause => exact ⟨_, rfl⟩
    | binding cause => exact ⟨_, rfl⟩
  · exact ⟨_, rfl⟩
  · simp only [classify]
    cases a.classify with
    | error cause => exact ⟨_, rfl⟩
    | ok containers =>
      cases containers with
      | nil => exact ⟨_, rfl⟩
      | cons record rest => exact ⟨_, rfl⟩

/-- A project whose unit was not seen before is accounted for by its end. -/
theorem Tallied.process (h : Tallied tree parse solutions projects c) {p : Project}
    (hnew : ¬c.processed.any p.unit.same = true) :
    Tallied tree parse solutions (projects ++ [p]) (c.process tree parse p.unit p) := by
  obtain ⟨messages, hprocess⟩ := process_eq tree parse c p
  have hfirst : firstOccurrences (projects ++ [p]) = firstOccurrences projects ++ [p] := by
    rw [firstOccurrences_append, if_neg (by rwa [← h.processed])]
  have hlength := h.duplicates
  rw [hprocess]
  cases hending : p.ending tree parse
  all_goals
    constructor
    · exact h.solutions
    · simp [note, hfirst, h.processed]
    · simp only [note, List.length_append, List.length_singleton]
      omega
    · simp [note, hfirst, hending, h.unavailable, UnitEnd.isUnavailable]
    · simp [note, hfirst, hending, h.defects, UnitEnd.isDefect]
    · simp [note, hfirst, hending, h.results, UnitEnd.result?]

/-- Each project that a run meets is accounted for. -/
theorem Tallied.addProject (h : Tallied tree parse solutions projects c) (p : Project) :
    Tallied tree parse solutions (projects ++ declaringProjects [p])
      (c.addProject tree parse p) := by
  rw [Census.addProject]
  split
  · next href =>
    have hnone : declaringProjects [p] = [] := by simp [declaringProjects, href]
    rw [hnone, List.append_nil]
    exact h.tell _
  · next href =>
    have hsome : declaringProjects [p] = [p] := by simp [declaringProjects, href]
    rw [hsome]
    show Tallied tree parse solutions (projects ++ [p])
      (if c.processed.any p.unit.same then { c with duplicates := c.duplicates + 1 }
        else c.process tree parse p.unit p)
    split
    · next hseen =>
      have hfirst : firstOccurrences (projects ++ [p]) = firstOccurrences projects := by
        rw [firstOccurrences_append, if_pos (by rwa [← h.processed])]
      have hlength := h.duplicates
      constructor
      · exact h.solutions
      · rw [hfirst]
        exact h.processed
      · rw [List.length_append, List.length_singleton]
        show c.processed.length + (c.duplicates + 1) = projects.length + 1
        omega
      · rw [hfirst]
        exact h.unavailable
      · rw [hfirst]
        exact h.defects
      · rw [hfirst]
        exact h.results
    · next hnew => exact h.process hnew

/-! ### Runs -/

theorem declaringProjects_append (ps qs : List Project) :
    declaringProjects (ps ++ qs) = declaringProjects ps ++ declaringProjects qs :=
  List.filter_append ps qs

theorem Tallied.addProjects (h : Tallied tree parse solutions projects c) (ps : List Project) :
    Tallied tree parse solutions (projects ++ declaringProjects ps)
      (ps.foldl (Census.addProject tree parse) c) := by
  induction ps generalizing projects c with
  | nil =>
    have hnone : declaringProjects [] = [] := rfl
    rw [hnone, List.append_nil]
    exact h
  | cons p rest ih =>
    have hcons : declaringProjects (p :: rest) = declaringProjects [p] ++ declaringProjects rest :=
      declaringProjects_append [p] rest
    rw [List.foldl_cons, hcons, ← List.append_assoc]
    exact ih (h.addProject p)

theorem Tallied.addLoaded (h : Tallied tree parse solutions projects c)
    (events : List ProgressEvent) (s : Solution) :
    Tallied tree parse solutions (projects ++ declaringProjects s.projects)
      (c.addLoaded tree parse events s) := by
  rw [Census.addLoaded]
  apply Tallied.addProjects
  apply Tallied.addLoadFailures
  exact h.tell _

theorem Tallied.addSolution (h : Tallied tree parse solutions projects c) (path : String) :
    Tallied tree parse solutions
      (projects ++ declaringProjects (solutionProjects tree configuration path))
      (c.addSolution tree parse configuration path) := by
  have hnone : declaringProjects [] = [] := rfl
  unfold solutionProjects Census.addSolution
  -- only the messages and the outcome matter, not how they come about
  obtain ⟨messages, outcome⟩ := openSolution tree configuration path
  cases outcome with
  | error e =>
    rw [hnone, List.append_nil]
    cases e with
    | load e =>
      apply Tallied.tell
      apply Tallied.addLoadFailures
      exact h.tell _
    | fault f =>
      apply Tallied.tell
      apply Tallied.addLoadFailures
      exact h.tell _
  | ok s =>
    apply Tallied.addLoaded
    exact h.tell _

theorem Tallied.addSolutions (h : Tallied tree parse solutions projects c) (paths : List String) :
    Tallied tree parse solutions (projects ++ censusProjects tree configuration paths)
      (paths.foldl (Census.addSolution tree parse configuration) c) := by
  induction paths generalizing projects c with
  | nil =>
    have hnone : censusProjects tree configuration [] = [] := rfl
    rw [hnone, List.append_nil]
    exact h
  | cons path rest ih =>
    have hcons : censusProjects tree configuration (path :: rest) =
        declaringProjects (solutionProjects tree configuration path) ++
          censusProjects tree configuration rest := by
      rw [censusProjects, List.flatMap_cons, declaringProjects_append]
      rfl
    rw [List.foldl_cons, hcons, ← List.append_assoc]
    exact ih (h.addSolution path)

theorem exitCode_eq_partial_iff (c : Census) : c.exitCode = exitPartial ↔ c.defects ≠ [] := by
  rw [exitCode]
  cases c.defects with
  | nil => decide
  | cons name rest => exact ⟨fun _ => List.cons_ne_nil name rest, fun _ => rfl⟩

variable (tree parse projects c) in
/-- The accounts of a run that has met some projects. -/
structure Accounts : Prop where
  /-- One unit is processed for each key. -/
  processed : c.processed.length = (projects.map fun p => p.unit.key).toFinset.card
  duplicates : c.processed.length + c.duplicates = projects.length
  unavailable : c.unavailable =
    ((firstOccurrences projects).filter fun p => (p.ending tree parse).isUnavailable).map (·.name)
  defects : c.defects =
    ((firstOccurrences projects).filter fun p => (p.ending tree parse).isDefect).map (·.name)
  /-- Nothing but a receiver that the walk refuses is a defect. -/
  refused : ∀ p ∈ firstOccurrences projects, ∀ cause, p.ending tree parse = .defect cause →
    ∃ refused, cause = .receiver refused
  results : c.results = (firstOccurrences projects).filterMap fun p => (p.ending tree parse).result?
  /-- Each unit that is processed has one end. -/
  ends : c.processed.length = c.unavailable.length + c.defects.length +
    ((firstOccurrences projects).filter fun p => (p.ending tree parse).isBare).length +
    c.results.length
  /-- The report on containers has the rows of the units that are reported. -/
  types : ∃ rows : List TypeRow,
    rows.Perm (c.results.flatMap fun r => r.containers.map (typeRow r)) ∧
    c.typeReport = Csv.writeRows (typeHeaders.map .text :: rows.map TypeRow.cells) ∧
    c.typeRowCount = rows.length
  /-- The report on methods has the rows of the units that are reported. -/
  methods : ∃ rows : List MethodRow,
    rows.Perm
      (c.results.flatMap fun r => r.containers.flatMap fun k => k.methods.map (methodRow r k)) ∧
    c.methodReport = Csv.writeRows (methodHeaders.map .text :: rows.map MethodRow.cells) ∧
    c.methodRowCount = rows.length
  exit : c.exitCode = exitPartial ↔ c.defects ≠ []

end Census

/-- The rows about containers are those of each result. -/
theorem perm_typeRows (results : List UnitResult) :
    (typeRows results).Perm (results.flatMap fun r => r.containers.map (typeRow r)) := by
  rw [typeRows, reportRows, List.map_flatMap]
  apply List.Perm.flatMap (perm_sortByText _ results)
  intro r _
  rw [List.map_map]
  exact (perm_sortByText _ r.containers).map _

/-- The rows about methods are those of each container of each result. -/
theorem perm_methodRows (results : List UnitResult) :
    (methodRows results).Perm
      (results.flatMap fun r => r.containers.flatMap fun c => c.methods.map (methodRow r c)) := by
  rw [methodRows, reportRows, List.flatMap_assoc]
  apply List.Perm.flatMap (perm_sortByText _ results)
  intro r _
  rw [List.flatMap_map]
  apply List.Perm.flatMap (perm_sortByText _ r.containers)
  intro c _
  exact (perm_sortByText _ c.methods).map _

namespace Census

variable {tree : FileTree} {parse : Parser} {solutions : List String} {projects : List Project}
variable {c : Census}

theorem Tallied.accounts (h : Tallied tree parse solutions projects c) :
    Accounts tree parse projects c where
  processed := by
    rw [h.processed, List.length_map, length_firstOccurrences]
  duplicates := h.duplicates
  unavailable := h.unavailable
  defects := h.defects
  refused p _ cause hcause := p.receiver_of_defect hcause
  results := h.results
  ends := by
    have hends := UnitEnd.length_eq ((firstOccurrences projects).map fun p => p.ending tree parse)
    simp only [List.filter_map, List.filterMap_map, List.length_map, Function.comp_def] at hends
    rw [h.processed, h.unavailable, h.defects, h.results, List.length_map, List.length_map,
      List.length_map]
    exact hends
  types := by
    refine ⟨typeRows c.results, perm_typeRows c.results, ?_, rfl⟩
    rw [typeReport, renderTables_eq, renderTypes]
  methods := by
    refine ⟨methodRows c.results, perm_methodRows c.results, ?_, rfl⟩
    rw [methodReport, renderTables_eq, renderMethods]
  exit := c.exitCode_eq_partial_iff

end Census

/-- A run that finds its solution files accounts for each project that it meets. -/
theorem survey_tallied (tree : FileTree) (parse : Parser) (settings : Settings) (search : String)
    {solutions : List String}
    (hfound :
      discoverSolutions tree (Path.normalize search) settings.solutionPattern = .ok solutions) :
    ∃ c, survey tree parse settings search = .ok c ∧
      c.Tallied tree parse solutions (censusProjects tree settings.configuration solutions) := by
  unfold survey
  simp only [hfound]
  exact ⟨_, rfl, (Census.tallied_start _).addSolutions solutions⟩

/-- **The accounts of every run balance.**  A run ends before it looks at any project if the pattern
for solution files is refused.  Otherwise it accounts for each project of each solution that opens:
by its unit if that is new, else as a duplicate; and it ends with these accounts unless a report
cannot be written. -/
theorem publishCensus_accounts (tree : FileTree) (parse : Parser) (settings : Settings)
    (search output : String) :
    (∃ cause,
      discoverSolutions tree (Path.normalize search) settings.solutionPattern = .error cause ∧
      publishCensus tree parse settings search output = .error (.pattern cause)) ∨
    ∃ solutions c,
      discoverSolutions tree (Path.normalize search) settings.solutionPattern = .ok solutions ∧
      c.solutions = solutions ∧
      Census.Accounts tree parse (censusProjects tree settings.configuration solutions) c ∧
      ((∃ written, writeTexts output tree c.reports = .ok written ∧
          publishCensus tree parse settings search output = .ok (c, written)) ∨
        ∃ told name cause, writeTexts output tree c.reports = .error (name, cause) ∧
          publishCensus tree parse settings search output =
            .error (.report told (Census.reportPath output name) cause)) := by
  cases hfound : discoverSolutions tree (Path.normalize search) settings.solutionPattern with
  | error cause =>
    refine Or.inl ⟨cause, rfl, ?_⟩
    unfold publishCensus survey
    simp only [hfound]
  | ok solutions =>
    obtain ⟨c, hsurvey, htallied⟩ := survey_tallied tree parse settings search hfound
    have hclosed := htallied.tell (c.writeMessages output)
    have hreports : (c.close output).reports = c.reports := rfl
    refine Or.inr ⟨solutions, c.close output, rfl, hclosed.solutions, hclosed.accounts, ?_⟩
    unfold publishCensus
    simp only [hsurvey, hreports]
    cases writeTexts output tree c.reports with
    | ok written => exact Or.inl ⟨written, rfl, rfl⟩
    | error failure =>
      obtain ⟨name, cause⟩ := failure
      exact Or.inr ⟨c.messages, name, cause, rfl, rfl⟩

end ExtensionCensus
