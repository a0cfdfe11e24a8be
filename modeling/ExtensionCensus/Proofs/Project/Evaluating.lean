import ExtensionCensus.Project.Evaluation
import ExtensionCensus.Project.Solution
import ExtensionCensus.Proofs.Project.Refusal

/-!
# Evaluations

What can come of evaluating a project.

* `projectRoot` — the root element of a project file, or why there is none; it depends on the tree and
  the path alone;
* `get?_evaluatedProperties` — what no element of a property group sets stays as it was;
* `evaluateRoot_fault_iff` — the evaluation of a root stops exactly at an item that names a refused
  pattern;
* `Breaks`, `evaluateProject_fault_iff` — **the contents at which the loading of a solution breaks
  off**;
* `evaluateProject_load` — an error of loading is the same for every framework;
* `evaluateProject_ok` — the path and the references of a project that is evaluated.
-/

namespace ExtensionCensus

open ExtensionCensus.Path (IsAbsolute IsNormal)

variable (tree : FileTree)

/-! ### Roots -/

/-- The root element of the project file at a path in normal form. -/
def projectRoot (path : String) : Except EvaluationError Xml.Element :=
  if path.toList.contains (Char.ofNat 0) then .error (.fault .nulInPath)
  else
    match tree.read path with
    | .error fault => .error (.load ⟨path, .unreadable fault⟩)
    | .ok content =>
      match Xml.readBytes content with
      | .error (.uselessEncoding cause) => .error (.fault (.encoding cause))
      | .error fault => .error (.load ⟨path, .malformedProject fault⟩)
      | .ok root =>
        if root.name = "Project" then .ok root
        else .error (.load ⟨path, .wrongRoot root.name⟩)

/-- Only the evaluation of its root depends on the configuration and the framework. -/
theorem evaluateProject_eq (written configuration framework : String) :
    evaluateProject tree written configuration framework =
      match projectRoot tree (Path.normalize written) with
      | .error e => ⟨[], .error e⟩
      | .ok root => evaluateRoot tree (Path.normalize written) configuration framework root := by
  simp only [evaluateProject, projectRoot]
  split
  · rfl
  · cases tree.read (Path.normalize written) with
    | error fault => rfl
    | ok content =>
      simp only
      cases Xml.readBytes content with
      | error fault => cases fault <;> rfl
      | ok root =>
        simp only
        split
        · rfl
        · rfl

/-! ### Items -/

section

variable (directory : String) (ps : Properties)

/-- The item names a refused pattern. -/
def RefusesItem (e : Xml.Element) : Prop :=
  e.name = "Compile" ∧ (RefusesItems ps (e.value "Include") ∨ RefusesItems ps (e.value "Remove"))

theorem add_error_iff (lists : ItemLists) (e : Xml.Element) :
    (∃ fault, lists.add tree directory ps e = .error fault) ↔ RefusesItem ps e := by
  rw [ItemLists.add, RefusesItem, ← expandItems_error_iff tree directory,
    ← expandItems_error_iff tree directory]
  split
  · next hcompile =>
    rw [and_iff_right hcompile]
    cases expandItems tree directory ps (e.value "Include") with
    | error fault => simp
    | ok included =>
      cases expandItems tree directory ps (e.value "Remove") with
      | error fault => simp
      | ok removed => simp
  · next hcompile =>
    refine ⟨fun ⟨fault, h⟩ => ?_, fun h => absurd h.1 hcompile⟩
    split at h <;> cases h

theorem run_error_iff (lists : ItemLists) (steps : List ItemStep) :
    (∃ fault, (ItemLists.run tree directory ps lists steps).2 = .error fault) ↔
      ∃ step ∈ steps, ∃ e ∈ step.item, RefusesItem ps e := by
  induction steps generalizing lists with
  | nil => simp [ItemLists.run]
  | cons step rest ih =>
    rw [List.exists_mem_cons_iff, ItemLists.run]
    cases hitem : step.item with
    | none =>
      simpa using ih lists
    | some e =>
      have hadd := add_error_iff tree directory ps lists e
      simp only [Option.map_some, Option.getD_some]
      cases hlists : lists.add tree directory ps e with
      | error fault =>
        rw [hlists] at hadd
        exact ⟨fun _ => .inl ⟨e, rfl, hadd.mp ⟨fault, rfl⟩⟩, fun _ => ⟨fault, rfl⟩⟩
      | ok lists' =>
        rw [hlists] at hadd
        have hnot : ¬RefusesItem ps e := fun h => nomatch hadd.mpr h
        simpa [hnot] using ih lists'

/-- The items of a project that count. -/
def countedItems (root : Xml.Element) : List Xml.Element :=
  ((root.children.filter (·.name = "ItemGroup")).filter (counts tree directory ps)).flatMap
    fun group => group.children.filter (counts tree directory ps)

theorem mem_countedItems {root e : Xml.Element} :
    e ∈ countedItems tree directory ps root ↔
      ∃ step ∈ itemSteps tree directory ps root, e ∈ step.item := by
  rw [countedItems, itemSteps]
  generalize root.children.filter (·.name = "ItemGroup") = groups
  simp only [List.mem_flatMap, List.mem_filter, List.mem_cons]
  constructor
  · rintro ⟨group, ⟨hgroup, hcounts⟩, he, hecounts⟩
    refine ⟨⟨remarksOn ps e, some e⟩, ⟨group, hgroup, .inr ?_⟩, rfl⟩
    rw [if_pos hcounts]
    exact List.mem_map.mpr ⟨e, he, by rw [if_pos hecounts]⟩
  · rintro ⟨step, ⟨group, hgroup, rfl | hstep⟩, he⟩
    · cases he
    · split at hstep
      · next hcounts =>
        obtain ⟨item, hitem, rfl⟩ := List.mem_map.mp hstep
        split at he
        · next hecounts =>
          cases he
          exact ⟨group, ⟨hgroup, hcounts⟩, hitem, hecounts⟩
        · cases he
      · cases hstep

/-! ### References -/

variable {directory ps}

theorem isNormal_of_mem_referencesIn {value r : String} (hdirectory : IsAbsolute directory)
    (h : r ∈ referencesIn directory ps value) : IsNormal r := by
  obtain ⟨entry, -, rfl⟩ := List.mem_map.mp h
  exact Path.resolve_isNormal hdirectory entry

/-- Items name references in normal form. -/
theorem isNormal_add {lists lists' : ItemLists} {e : Xml.Element}
    (hdirectory : IsAbsolute directory) (hlists : ∀ r ∈ lists.references, IsNormal r)
    (h : lists.add tree directory ps e = .ok lists') : ∀ r ∈ lists'.references, IsNormal r := by
  rw [ItemLists.add] at h
  split at h
  · split at h
    · cases h
    · split at h
      · cases h
      · cases h
        exact hlists
  · split at h
    · cases h
      intro r hr
      rcases List.mem_append.mp hr with hr | hr
      · exact hlists r hr
      · exact isNormal_of_mem_referencesIn hdirectory hr
    · cases h
      exact hlists

theorem isNormal_run {lists lists' : ItemLists} {steps : List ItemStep}
    (hdirectory : IsAbsolute directory) (hlists : ∀ r ∈ lists.references, IsNormal r)
    (h : (ItemLists.run tree directory ps lists steps).2 = .ok lists') :
    ∀ r ∈ lists'.references, IsNormal r := by
  induction steps generalizing lists with
  | nil =>
    cases h
    exact hlists
  | cons step rest ih =>
    rw [ItemLists.run] at h
    cases hitem : step.item with
    | none =>
      rw [hitem] at h
      exact ih hlists h
    | some e =>
      rw [hitem] at h
      simp only [Option.map_some, Option.getD_some] at h
      cases hadd : lists.add tree directory ps e with
      | error fault =>
        rw [hadd] at h
        cases h
      | ok added =>
        rw [hadd] at h
        exact ih (isNormal_add tree hdirectory hlists hadd) h

end

/-- The properties of a project once its file is read. -/
def evaluatedProperties (path configuration framework : String) (root : Xml.Element) : Properties :=
  (root.children.foldl (PropertyState.apply tree (Path.directory path) framework)
    { properties := builtInProperties path configuration framework }).properties

/-- An item of the project that counts names a refused pattern. -/
def BreaksItems (path configuration framework : String) (root : Xml.Element) : Prop :=
  let ps := evaluatedProperties tree path configuration framework root
  ∃ e ∈ countedItems tree (Path.directory path) ps root, RefusesItem ps e

/-! ### Properties -/

theorem get?_set (ps : Properties) (name value other : String) :
    (ps.set name value).get? other = if other = name then some value else ps.get? other := by
  have hcons (n v : String) (rest : Properties) : Properties.get? ((n, v) :: rest) other =
      if other = n then some v else Properties.get? rest other := by
    rw [Properties.get?, List.lookup_cons]
    by_cases h : other = n
    · rw [if_pos h, beq_iff_eq.mpr h]
    · rw [if_neg h, beq_eq_false_iff_ne.mpr h]
      rfl
  induction ps with
  | nil => rw [Properties.set, hcons]
  | cons first rest ih =>
    obtain ⟨n, v⟩ := first
    rw [Properties.set, hcons]
    split
    · next hn =>
      rw [hcons, hn]
      split
      · rfl
      · rfl
    · next hn =>
      rw [hcons, ih]
      by_cases h : other = n
      · rw [if_pos h, if_neg (h ▸ hn), if_pos h]
      · rw [if_neg h, if_neg h]

/-- Some element of a property group gives the property a value, if its condition holds. -/
def setsProperty (root : Xml.Element) (name : String) : Bool :=
  root.children.any fun group =>
    group.name = "PropertyGroup" && group.children.any fun e => Text.lower e.name = name

section

variable {directory framework name : String}

/-- An element leaves a property as it was. -/
def Leaves (directory framework name : String) (e : Xml.Element) : Prop :=
  ∀ st : PropertyState,
    (st.set tree directory framework e).properties.get? name = st.properties.get? name

theorem leaves_of_ne {e : Xml.Element} (h : Text.lower e.name ≠ name) :
    Leaves tree directory framework name e := by
  intro st
  rw [PropertyState.set]
  split
  · exact (get?_set _ _ _ _).trans (if_neg (Ne.symm h))
  · rfl

theorem get?_foldl_set {elements : List Xml.Element}
    (h : ∀ e ∈ elements, Leaves tree directory framework name e) (st : PropertyState) :
    (elements.foldl (PropertyState.set tree directory framework) st).properties.get? name =
      st.properties.get? name := by
  induction elements generalizing st with
  | nil => rfl
  | cons e rest ih =>
    rw [List.foldl_cons, ih fun d hd => h d (List.mem_cons_of_mem _ hd), h e List.mem_cons_self]

theorem get?_foldl_apply {groups : List Xml.Element}
    (h : ∀ group ∈ groups, group.name = "PropertyGroup" →
      ∀ e ∈ group.children, Leaves tree directory framework name e) (st : PropertyState) :
    (groups.foldl (PropertyState.apply tree directory framework) st).properties.get? name =
      st.properties.get? name := by
  induction groups generalizing st with
  | nil => rfl
  | cons group rest ih =>
    rw [List.foldl_cons, ih fun g hg => h g (List.mem_cons_of_mem _ hg), PropertyState.apply]
    split
    · next hgroup =>
      split
      · rw [get?_foldl_set tree (h group List.mem_cons_self hgroup)]
      · rfl
    · rfl

end

/-- A property that no element sets keeps the value that it has before the file is read. -/
theorem get?_evaluatedProperties {root : Xml.Element} {name : String}
    (h : setsProperty root name = false) (path configuration framework : String) :
    (evaluatedProperties tree path configuration framework root).get? name =
      (builtInProperties path configuration framework).get? name := by
  refine get?_foldl_apply tree (fun group hgroup hkind e he => leaves_of_ne tree fun hname => ?_) _
  rw [setsProperty, List.any_eq_false] at h
  refine h group hgroup ?_
  simp only [Bool.and_eq_true, decide_eq_true_eq, List.any_eq_true]
  exact ⟨hkind, e, he, hname⟩

/-! ### Outcomes -/

section

variable {path configuration framework : String} {root : Xml.Element}

/-- The lists that the items of a project make. -/
def evaluatedItems (path configuration framework : String) (root : Xml.Element) :
    Except GlobFault ItemLists :=
  let ps := evaluatedProperties tree path configuration framework root
  (ItemLists.run tree (Path.directory path) ps {} (itemSteps tree (Path.directory path) ps root)).2

/-- Reading the properties of a project always succeeds; its items may be refused. -/
theorem evaluateRoot_cases (path configuration framework : String) (root : Xml.Element) :
    (∃ fault, evaluatedItems tree path configuration framework root = .error fault ∧
        (evaluateRoot tree path configuration framework root).outcome =
          .error (.fault (.pattern fault))) ∨
      ∃ lists file, evaluatedItems tree path configuration framework root = .ok lists ∧
        (evaluateRoot tree path configuration framework root).outcome = .ok file ∧
        file.path = path ∧ file.projectReferences = lists.references := by
  rcases hrun : ItemLists.run tree (Path.directory path)
      (evaluatedProperties tree path configuration framework root) {}
      (itemSteps tree (Path.directory path)
        (evaluatedProperties tree path configuration framework root) root) with ⟨remarks, lists⟩
  have hlists : evaluatedItems tree path configuration framework root = lists :=
    congrArg Prod.snd hrun
  rw [hlists]
  rw [evaluatedProperties] at hrun
  simp only [evaluateRoot, hrun]
  cases lists with
  | error fault => exact .inl ⟨fault, rfl, rfl⟩
  | ok lists => exact .inr ⟨lists, _, rfl, rfl, rfl, rfl⟩

/-- What a project file says is what its root does. -/
theorem evaluateRoot_file {file : ProjectFile}
    (h : (evaluateRoot tree path configuration framework root).outcome = .ok file) :
    file.path = path ∧
      file.properties = evaluatedProperties tree path configuration framework root ∧
      file.isSdkStyle = isSdkStyle root := by
  rcases hrun : ItemLists.run tree (Path.directory path)
      (evaluatedProperties tree path configuration framework root) {}
      (itemSteps tree (Path.directory path)
        (evaluatedProperties tree path configuration framework root) root) with ⟨remarks, lists⟩
  rw [evaluatedProperties] at hrun
  simp only [evaluateRoot, hrun] at h
  cases lists with
  | error fault => cases h
  | ok lists =>
    cases h
    exact ⟨rfl, rfl, rfl⟩

theorem evaluateRoot_fault_iff :
    (∃ fault, (evaluateRoot tree path configuration framework root).outcome =
        .error (.fault fault)) ↔ BreaksItems tree path configuration framework root := by
  have hitems : (∃ fault, evaluatedItems tree path configuration framework root = .error fault) ↔
      BreaksItems tree path configuration framework root := by
    rw [evaluatedItems, BreaksItems, run_error_iff]
    simp only [mem_countedItems]
    constructor
    · rintro ⟨step, hstep, e, he, hrefused⟩
      exact ⟨e, ⟨step, hstep, he⟩, hrefused⟩
    · rintro ⟨e, ⟨step, hstep, he⟩, hrefused⟩
      exact ⟨step, hstep, e, he, hrefused⟩
  rw [← hitems]
  rcases evaluateRoot_cases tree path configuration framework root with
    ⟨fault, hlists, houtcome⟩ | ⟨lists, file, hlists, houtcome, -⟩
  · exact ⟨fun _ => ⟨fault, hlists⟩, fun _ => ⟨_, houtcome⟩⟩
  · rw [hlists, houtcome]
    exact ⟨fun ⟨_, h⟩ => (nomatch h), fun ⟨_, h⟩ => (nomatch h)⟩

theorem evaluateRoot_not_load (e : LoadError) :
    (evaluateRoot tree path configuration framework root).outcome ≠ .error (.load e) := by
  intro h
  rcases evaluateRoot_cases tree path configuration framework root with
    ⟨fault, -, houtcome⟩ | ⟨lists, file, -, houtcome, -⟩
  · rw [houtcome] at h
    cases h
  · rw [houtcome] at h
    cases h

theorem evaluateRoot_ok {file : ProjectFile} (hpath : IsAbsolute path)
    (h : (evaluateRoot tree path configuration framework root).outcome = .ok file) :
    file.path = path ∧ ∀ r ∈ file.projectReferences, IsNormal r := by
  rcases evaluateRoot_cases tree path configuration framework root with
    ⟨fault, -, houtcome⟩ | ⟨lists, file', hlists, houtcome, hfile, hreferences⟩
  · rw [houtcome] at h
    cases h
  · rw [houtcome] at h
    cases h
    rw [hreferences]
    exact ⟨hfile, isNormal_run tree (Path.isAbsolute_directory hpath)
      (fun _ hr => absurd hr List.not_mem_nil) hlists⟩

end

/-! ### Projects -/

section

variable {path configuration framework : String}

/-- The project file at a path in normal form is not evaluated, and this is no error of loading: the
path holds a NUL, the file names an encoding that is of no use, or one of its items that count names
a refused pattern. -/
inductive Breaks (path configuration framework : String) : Prop where
  | nul (hasNul : path.toList.contains (Char.ofNat 0))
  | encoding {content : Text.Bytes} {cause : Xml.EncodingFault}
      (isRead : tree.read path = .ok content)
      (isUseless : Xml.readBytes content = .error (.uselessEncoding cause))
  | items {root : Xml.Element} (isRoot : projectRoot tree path = .ok root)
      (isRefused : BreaksItems tree path configuration framework root)

theorem projectRoot_fault_iff (path : String) :
    (∃ fault, projectRoot tree path = .error (.fault fault)) ↔
      path.toList.contains (Char.ofNat 0) = true ∨ ∃ content cause, tree.read path = .ok content ∧
        Xml.readBytes content = .error (.uselessEncoding cause) := by
  rw [projectRoot]
  split
  · next hnul => exact ⟨fun _ => .inl hnul, fun _ => ⟨_, rfl⟩⟩
  · next hnul =>
    rw [or_iff_right hnul]
    constructor
    · rintro ⟨fault, h⟩
      split at h
      · cases h
      · next content hread =>
        split at h
        · next cause huseless => exact ⟨content, cause, hread, huseless⟩
        · cases h
        · split at h <;> cases h
    · rintro ⟨content, cause, hread, huseless⟩
      simp only [hread, huseless]
      exact ⟨_, rfl⟩

/-- **The loading of a solution breaks off at exactly these contents.** -/
theorem evaluateProject_fault_iff (hpath : IsNormal path) :
    (∃ fault, (evaluateProject tree path configuration framework).outcome =
        .error (.fault fault)) ↔ Breaks tree path configuration framework := by
  rw [evaluateProject_eq, Path.normalize_of_isNormal hpath]
  have hfault := projectRoot_fault_iff tree path
  cases hroot : projectRoot tree path with
  | error e =>
    rw [hroot] at hfault
    constructor
    · rintro ⟨fault, h⟩
      cases h
      rcases hfault.mp ⟨fault, rfl⟩ with hnul | ⟨content, cause, hread, huseless⟩
      · exact .nul hnul
      · exact .encoding hread huseless
    · intro h
      have hbroken : ∃ fault, Except.error (α := Xml.Element) e = .error (.fault fault) := by
        cases h with
        | nul hnul => exact hfault.mpr (.inl hnul)
        | encoding hread huseless => exact hfault.mpr (.inr ⟨_, _, hread, huseless⟩)
        | items hitems => rw [hroot] at hitems; cases hitems
      obtain ⟨fault, he⟩ := hbroken
      cases he
      exact ⟨fault, rfl⟩
  | ok root =>
    rw [hroot] at hfault
    simp only
    rw [evaluateRoot_fault_iff]
    constructor
    · exact fun h => .items hroot h
    · intro h
      cases h with
      | nul hnul => exact nomatch hfault.mpr (.inl hnul)
      | encoding hread huseless => exact nomatch hfault.mpr (.inr ⟨_, _, hread, huseless⟩)
      | items hitems hrefused =>
        rw [hroot] at hitems
        cases hitems
        exact hrefused

/-- The project file at a path cannot be loaded, or none of its items names a source. -/
def namesNoSources (path : String) : Bool :=
  match projectRoot tree path with
  | .error (.load _) => true
  | .error (.fault _) => false
  | .ok root => root.children.all fun group => group.children.all (·.name ≠ "Compile")

/-- Only sources break off the loading at a project whose file can be read. -/
theorem not_breaks_of_namesNoSources (h : namesNoSources tree path = true) :
    ¬Breaks tree path configuration framework := by
  rw [namesNoSources] at h
  have hfault := projectRoot_fault_iff tree path
  intro hbreaks
  cases hbreaks with
  | nul hnul =>
    obtain ⟨fault, hroot⟩ := hfault.mpr (.inl hnul)
    rw [hroot] at h
    cases h
  | encoding hread huseless =>
    obtain ⟨fault, hroot⟩ := hfault.mpr (.inr ⟨_, _, hread, huseless⟩)
    rw [hroot] at h
    cases h
  | items hroot hrefused =>
    rw [hroot] at h
    obtain ⟨e, he, hcompile, -⟩ := hrefused
    simp only [countedItems, List.mem_flatMap, List.mem_filter] at he
    obtain ⟨group, ⟨⟨hgroup, -⟩, -⟩, he, -⟩ := he
    simp only [List.all_eq_true, decide_eq_true_eq] at h
    exact h group hgroup e he hcompile

/-- An error of loading is the same for every configuration and framework. -/
theorem evaluateProject_load {e : LoadError}
    (h : (evaluateProject tree path configuration framework).outcome = .error (.load e))
    (configuration' framework' : String) :
    (evaluateProject tree path configuration' framework').outcome = .error (.load e) := by
  rw [evaluateProject_eq] at h ⊢
  cases hroot : projectRoot tree (Path.normalize path) with
  | error e' =>
    rw [hroot] at h
    exact h
  | ok root =>
    rw [hroot] at h
    exact absurd h (evaluateRoot_not_load tree e)

/-- A project that is evaluated is a file at that path, and its references are in normal form. -/
theorem evaluateProject_ok {file : ProjectFile} (hpath : IsNormal path)
    (h : (evaluateProject tree path configuration framework).outcome = .ok file) :
    file.path = path ∧ (∀ r ∈ file.projectReferences, IsNormal r) ∧
      ∃ content, tree.read path = .ok content := by
  rw [evaluateProject_eq, Path.normalize_of_isNormal hpath] at h
  cases hroot : projectRoot tree path with
  | error e =>
    rw [hroot] at h
    cases h
  | ok root =>
    rw [hroot] at h
    obtain ⟨hfile, hreferences⟩ := evaluateRoot_ok tree hpath.isAbsolute h
    refine ⟨hfile, hreferences, ?_⟩
    rw [projectRoot] at hroot
    split at hroot
    · cases hroot
    · split at hroot
      · cases hroot
      · next content hread => exact ⟨content, hread⟩

end

/-! ### Solutions -/

theorem isNormal_of_mem_lineEntries {base : String} {text : List Char} {entry : SolutionEntry}
    (hbase : IsAbsolute base) (h : entry ∈ lineEntries base text) : IsNormal entry.path := by
  have hpaths : (lineEntries base text).map SolutionEntry.path =
      (writtenEntries true 0 text).map fun e => Path.resolve (String.ofList e.path) base := by
    simp only [lineEntries, List.map_map, Function.comp_def]
  have hpath := hpaths ▸ List.mem_map_of_mem h
  obtain ⟨written, -, hwritten⟩ := List.mem_map.mp hpath
  exact hwritten ▸ Path.resolve_isNormal hbase _

theorem isNormal_of_mem_elementEntries {base : String} {root : Xml.Element}
    {entry : SolutionEntry} (hbase : IsAbsolute base) (h : entry ∈ elementEntries base root) :
    IsNormal entry.path := by
  have hpaths : (elementEntries base root).map SolutionEntry.path =
      (root.descendants.filter fun e => e.name = "Project" && e.value "Path" ≠ "").map fun e =>
        Path.resolve (e.value "Path") base := by
    simp only [elementEntries, List.map_map, Function.comp_def]
  have hpath := hpaths ▸ List.mem_map_of_mem h
  obtain ⟨element, -, helement⟩ := List.mem_map.mp hpath
  exact helement ▸ Path.resolve_isNormal hbase _

/-- The entries of a solution are in normal form. -/
theorem isNormal_of_readSolution {written : String} {entries : List SolutionEntry}
    (hwritten : IsAbsolute written) (h : readSolution tree written = .ok entries) :
    ∀ e ∈ entries, IsNormal e.path := by
  have hbase : IsAbsolute (Path.parent (Path.ofParts (Path.parts written))) :=
    Path.isAbsolute_parent (Path.isAbsolute_ofParts_parts hwritten)
  unfold readSolution at h
  dsimp only at h
  split at h
  · cases h
  · split at h
    · cases h
    · split at h
      · split at h
        · cases h
        · cases h
          exact fun e he => isNormal_of_mem_elementEntries hbase (List.mem_filter.mp he).1
      · cases h
        exact fun e he => isNormal_of_mem_lineEntries hbase (List.mem_filter.mp he).1

end ExtensionCensus
