import ExtensionCensus.Proofs.Project.Evaluating
import Mathlib.Data.List.Induction

/-!
# The order of items

Which files a project compiles, against what its items say one after the other.

* `SourceStep`, `inOrder` — an item includes files that are not yet in the list and then removes files from
  it; all items in order, from the default sources;
* `filter_foldl_apply` — what no item removes stays in the order of its first mention;
* `mem_foldl_apply` — a file is in the list exactly if it is included behind the last item that removes
  it;
* `Returns` — a file is included again behind an item that removes it;
* `evaluateProject_compileItems` — **the compiled files are those of the list that no item removes,
  wherever it stands; so they are the whole list exactly if no file returns**.
-/

namespace ExtensionCensus

/-! ### Items in order -/

/-- The list with a file at its end, unless it is in it. -/
def addFile (items : List String) (f : String) : List String :=
  if f ∈ items then items else items ++ [f]

/-- The list with some files at its end that are not yet in it. -/
def addFiles (items files : List String) : List String :=
  files.foldl addFile items

/-- What an item says of the sources: it includes files, and it removes files. -/
structure SourceStep where
  included : List String
  removed : List String
  deriving DecidableEq

/-- The list behind an item. -/
def SourceStep.apply (items : List String) (s : SourceStep) : List String :=
  (addFiles items s.included).filter fun f => f ∉ s.removed

/-- The list behind some items in order, each on the list as it stands there, from some files. -/
def inOrder (start : List String) (steps : List SourceStep) : List String :=
  steps.foldl SourceStep.apply (addFiles [] start)

/-- A file is included behind an item that removes it, and neither there nor behind it removed again. -/
def Returns (steps : List SourceStep) (f : String) : Prop :=
  ∃ before s between s' after, steps = before ++ s :: (between ++ s' :: after) ∧ f ∈ s.removed ∧
    f ∈ s'.included ∧ ∀ later ∈ s' :: after, f ∉ later.removed

theorem mem_addFile {items : List String} {f g : String} :
    g ∈ addFile items f ↔ g ∈ items ∨ g = f := by
  rw [addFile]
  split
  · next hmem =>
    constructor
    · exact .inl
    · rintro (h | rfl)
      · exact h
      · exact hmem
  · rw [List.mem_append, List.mem_singleton]

theorem mem_addFiles {items files : List String} {g : String} :
    g ∈ addFiles items files ↔ g ∈ items ∨ g ∈ files := by
  induction files generalizing items with
  | nil => simp [addFiles]
  | cons f rest ih =>
    rw [addFiles, List.foldl_cons, ← addFiles, ih, mem_addFile, List.mem_cons, or_assoc]

theorem addFiles_append (items files more : List String) :
    addFiles items (files ++ more) = addFiles (addFiles items files) more := by
  rw [addFiles, List.foldl_append]
  rfl

/-- Adding files to the empty list keeps the first mention of each. -/
theorem addFiles_nil (files : List String) : addFiles [] files = files.eraseDups := by
  induction files using List.reverseRecOn with
  | nil => rfl
  | append_singleton files f ih =>
    rw [addFiles_append, ih, addFiles, List.foldl_cons, List.foldl_nil, addFile,
      List.eraseDups_append]
    by_cases hf : f ∈ files
    · rw [if_pos (List.mem_eraseDups.mpr hf)]
      simp [List.removeAll, hf]
    · rw [if_neg fun h => hf (List.mem_eraseDups.mp h)]
      simp [List.removeAll, hf, List.eraseDups_cons]

section

variable {keep : String → Bool}

theorem filter_addFile (items : List String) (f : String) : (addFile items f).filter keep =
    if keep f then addFile (items.filter keep) f else items.filter keep := by
  rw [addFile]
  by_cases hmem : f ∈ items
  · rw [if_pos hmem]
    split
    · next hkeep => rw [addFile, if_pos (List.mem_filter.mpr ⟨hmem, hkeep⟩)]
    · rfl
  · rw [if_neg hmem, List.filter_append]
    split
    · next hkeep =>
      rw [addFile, if_neg fun h => hmem (List.mem_filter.mp h).1, List.filter_singleton, hkeep]
      rfl
    · next hkeep =>
      rw [List.filter_singleton, Bool.not_eq_true _ |>.mp hkeep]
      exact List.append_nil _

theorem filter_addFiles (items files : List String) :
    (addFiles items files).filter keep = addFiles (items.filter keep) (files.filter keep) := by
  induction files generalizing items with
  | nil => rfl
  | cons f rest ih =>
    rw [addFiles, List.foldl_cons, ← addFiles, ih, filter_addFile]
    by_cases hkeep : keep f = true
    · rw [if_pos hkeep, List.filter_cons_of_pos hkeep]
      rfl
    · rw [if_neg hkeep, List.filter_cons_of_neg hkeep]

/-- **What no item removes stays in the order of its first mention.** -/
theorem filter_foldl_apply {steps : List SourceStep}
    (h : ∀ s ∈ steps, ∀ f ∈ s.removed, keep f = false) (items : List String) :
    (steps.foldl SourceStep.apply items).filter keep =
      addFiles (items.filter keep) ((steps.flatMap (·.included)).filter keep) := by
  induction steps generalizing items with
  | nil => rfl
  | cons s rest ih =>
    have hkept (g : String) : (keep g && decide (g ∉ s.removed)) = keep g := by
      by_cases hg : g ∈ s.removed
      · rw [h s List.mem_cons_self g hg]
        rfl
      · simp [hg]
    have hstep : (s.apply items).filter keep =
        addFiles (items.filter keep) (s.included.filter keep) := by
      rw [SourceStep.apply, List.filter_filter]
      simp only [hkept]
      exact filter_addFiles items s.included
    rw [List.foldl_cons, ih fun s' hs' => h s' (List.mem_cons_of_mem _ hs'), hstep, List.flatMap_cons,
      List.filter_append, addFiles_append]

end

/-- **A file is in the list** behind some items exactly if it was in it and none of them removes it, or it
is included at one of them and removed neither there nor behind it. -/
theorem mem_foldl_apply {steps : List SourceStep} {items : List String} {f : String} :
    f ∈ steps.foldl SourceStep.apply items ↔ (f ∈ items ∧ ∀ s ∈ steps, f ∉ s.removed) ∨
      ∃ before s after, steps = before ++ s :: after ∧ f ∈ s.included ∧
        ∀ later ∈ s :: after, f ∉ later.removed := by
  induction steps generalizing items with
  | nil => simp
  | cons s rest ih =>
    have hstep : f ∈ s.apply items ↔ (f ∈ items ∨ f ∈ s.included) ∧ f ∉ s.removed := by
      rw [SourceStep.apply, List.mem_filter, mem_addFiles, decide_eq_true_eq]
    rw [List.foldl_cons, ih, hstep, List.forall_mem_cons]
    constructor
    · rintro (⟨⟨hf | hf, hnot⟩, hrest⟩ | ⟨before, s', after, rfl, hf, hafter⟩)
      · exact .inl ⟨hf, hnot, hrest⟩
      · exact .inr ⟨[], s, rest, rfl, hf, List.forall_mem_cons.mpr ⟨hnot, hrest⟩⟩
      · exact .inr ⟨s :: before, s', after, rfl, hf, hafter⟩
    · rintro (⟨hf, hnot, hrest⟩ | ⟨before, s', after, hsplit, hf, hafter⟩)
      · exact .inl ⟨⟨.inl hf, hnot⟩, hrest⟩
      · cases before with
        | nil =>
          obtain ⟨rfl, rfl⟩ := List.cons.inj hsplit
          rw [List.forall_mem_cons] at hafter
          exact .inl ⟨⟨.inr hf, hafter.1⟩, hafter.2⟩
        | cons first before =>
          obtain ⟨-, rfl⟩ := List.cons.inj hsplit
          exact .inr ⟨before, s', after, rfl, hf, hafter⟩

/-- The files of the list that some item removes are those that return. -/
theorem mem_inOrder_and_removed_iff {start : List String} {steps : List SourceStep} {f : String} :
    (f ∈ inOrder start steps ∧ ∃ s ∈ steps, f ∈ s.removed) ↔ Returns steps f := by
  rw [inOrder, mem_foldl_apply]
  constructor
  · rintro ⟨⟨-, hnone⟩ | ⟨before, s', after, rfl, hf, hafter⟩, s, hs, hremoved⟩
    · exact absurd hremoved (hnone s hs)
    · rcases List.mem_append.mp hs with hs | hs
      · obtain ⟨front, back, rfl⟩ := List.append_of_mem hs
        exact ⟨front, s, back, s', after, by simp, hremoved, hf, hafter⟩
      · exact absurd hremoved (hafter s hs)
  · rintro ⟨before, s, between, s', after, rfl, hremoved, hf, hafter⟩
    exact ⟨.inr ⟨before ++ s :: between, s', after, by simp, hf, hafter⟩, s, by simp, hremoved⟩

/-- The compiled files are those of the list that no item removes. -/
theorem compiledFiles_eq (start : List String) (steps : List SourceStep) :
    compiledFiles (start ++ steps.flatMap (·.included)) (steps.flatMap (·.removed)) =
      (inOrder start steps).filter fun f => !(steps.flatMap (·.removed)).contains f := by
  have hremoved : ∀ s ∈ steps, ∀ f ∈ s.removed,
      (!(steps.flatMap (·.removed)).contains f) = false := by
    intro s hs f hf
    rw [List.contains_iff_mem.mpr (List.mem_flatMap.mpr ⟨s, hs, hf⟩)]
    rfl
  rw [inOrder, filter_foldl_apply hremoved, filter_addFiles, List.filter_nil, ← addFiles_append,
    ← List.filter_append, addFiles_nil, compiledFiles]

/-! ### Items of a project -/

section

variable (tree : FileTree) (directory : String) (ps : Properties)

/-- What an item says of the sources, unless it names a refused pattern. -/
def sourceStep (e : Xml.Element) : Except GlobFault SourceStep :=
  match expandItems tree directory ps (e.value "Include") with
  | .error fault => .error fault
  | .ok included => (expandItems tree directory ps (e.value "Remove")).map (SourceStep.mk included)

/-- What some items say of the sources, in order. -/
def sourceSteps : List Xml.Element → Except GlobFault (List SourceStep)
  | [] => .ok []
  | e :: rest =>
    match sourceStep tree directory ps e with
    | .error fault => .error fault
    | .ok s => (sourceSteps rest).map (s :: ·)

/-- The items of a project that name sources and count, in order. -/
def sourceItems (root : Xml.Element) : List Xml.Element :=
  (countedItems tree directory ps root).filter (·.name = "Compile")

theorem filterMap_itemSteps (root : Xml.Element) :
    (itemSteps tree directory ps root).filterMap (·.item) = countedItems tree directory ps root := by
  rw [itemSteps, countedItems, List.filterMap_flatMap]
  induction root.children.filter (·.name = "ItemGroup") with
  | nil => rw [List.flatMap_nil, List.filter_nil, List.flatMap_nil]
  | cons group rest ih =>
    rw [List.flatMap_cons, ih, List.filterMap_cons_none rfl]
    split
    · next hcounts =>
      have hguard : (fun step : ItemStep => step.item) ∘ (fun e => (⟨remarksOn ps e,
          if counts tree directory ps e then some e else none⟩ : ItemStep)) =
            Option.guard (counts tree directory ps) := by
        funext e
        simp only [Function.comp_apply, Option.guard]
      rw [List.filter_cons_of_pos hcounts, List.flatMap_cons, List.filterMap_map, hguard,
        List.filterMap_eq_filter]
    · next hcounts => rw [List.filter_cons_of_neg hcounts, List.filterMap_nil, List.nil_append]

variable {tree directory ps}

/-- An item changes the lists of files as it says, if it names sources, and else not at all. -/
theorem sourceStep_of_add {lists lists' : ItemLists} {e : Xml.Element}
    (h : lists.add tree directory ps e = .ok lists') :
    (e.name = "Compile" ∧ ∃ s, sourceStep tree directory ps e = .ok s ∧
        lists'.includes = lists.includes ++ s.included ∧ lists'.removes = lists.removes ++ s.removed) ∨
      e.name ≠ "Compile" ∧ lists'.includes = lists.includes ∧ lists'.removes = lists.removes := by
  rw [ItemLists.add] at h
  split at h
  · next hname =>
    split at h
    · cases h
    · next included hincluded =>
      split at h
      · cases h
      · next removed hremoved =>
        cases h
        refine .inl ⟨hname, ⟨included, removed⟩, ?_, rfl, rfl⟩
        rw [sourceStep, hincluded, hremoved]
        rfl
  · next hname =>
    split at h
    · cases h
      exact .inr ⟨hname, rfl, rfl⟩
    · cases h
      exact .inr ⟨hname, rfl, rfl⟩

/-- The items of a project collect all files that they include, and all that they remove. -/
theorem sourceSteps_of_run {lists lists' : ItemLists} {steps : List ItemStep}
    (h : (ItemLists.run tree directory ps lists steps).2 = .ok lists') :
    ∃ said, sourceSteps tree directory ps
        ((steps.filterMap (·.item)).filter (·.name = "Compile")) = .ok said ∧
      lists'.includes = lists.includes ++ said.flatMap (·.included) ∧
      lists'.removes = lists.removes ++ said.flatMap (·.removed) := by
  induction steps generalizing lists with
  | nil =>
    cases h
    exact ⟨[], rfl, by simp, by simp⟩
  | cons step rest ih =>
    rw [ItemLists.run] at h
    cases hitem : step.item with
    | none =>
      rw [hitem] at h
      obtain ⟨said, hsaid, hlists⟩ := ih h
      exact ⟨said, by rwa [List.filterMap_cons_none hitem], hlists⟩
    | some e =>
      rw [hitem] at h
      simp only [Option.map_some, Option.getD_some] at h
      cases hadd : lists.add tree directory ps e with
      | error fault =>
        rw [hadd] at h
        cases h
      | ok added =>
        rw [hadd] at h
        obtain ⟨said, hsaid, hincludes, hremoves⟩ := ih h
        rw [List.filterMap_cons_some hitem]
        rcases sourceStep_of_add hadd with
          ⟨hname, s, hs, hincluded, hremoved⟩ | ⟨hname, hincluded, hremoved⟩
        · refine ⟨s :: said, ?_, ?_, ?_⟩
          · rw [List.filter_cons_of_pos (by simpa using hname), sourceSteps, hs, hsaid]
            rfl
          · rw [hincludes, hincluded, List.flatMap_cons, List.append_assoc]
          · rw [hremoves, hremoved, List.flatMap_cons, List.append_assoc]
        · refine ⟨said, ?_, ?_, ?_⟩
          · rwa [List.filter_cons_of_neg (by simpa using hname)]
          · rw [hincludes, hincluded]
          · rw [hremoves, hremoved]

end

/-- The sources that a project compiles without naming them, unless it says that it does not. -/
def ProjectFile.defaultItems (tree : FileTree) (p : ProjectFile) : List String :=
  if p.isSdkStyle && p.isTrue "EnableDefaultCompileItems" true then p.defaultSources tree else []

/-- They depend on the path, the properties and the style of the project alone. -/
theorem defaultItems_congr (tree : FileTree) {p q : ProjectFile} (hpath : p.path = q.path)
    (hproperties : p.properties = q.properties) (hstyle : p.isSdkStyle = q.isSdkStyle) :
    p.defaultItems tree = q.defaultItems tree := by
  have hget (name : String) : p.get name = q.get name := by
    rw [ProjectFile.get, ProjectFile.get, hproperties]
  have hswitch : p.isTrue "EnableDefaultCompileItems" true = q.isTrue "EnableDefaultCompileItems" true := by
    rw [ProjectFile.isTrue, ProjectFile.isTrue, hget]
  have houtputs : p.outputNames = q.outputNames := by
    simp only [ProjectFile.outputNames, hget]
  have hsources : p.defaultSources tree = q.defaultSources tree := by
    rw [ProjectFile.defaultSources, ProjectFile.defaultSources, ProjectFile.directory,
      ProjectFile.directory, hpath, houtputs]
  rw [ProjectFile.defaultItems, ProjectFile.defaultItems, hstyle, hswitch, hsources]

theorem compileItems_of_evaluateRoot {tree : FileTree} {path configuration framework : String}
    {root : Xml.Element} {file : ProjectFile}
    (h : (evaluateRoot tree path configuration framework root).outcome = .ok file) :
    ∃ lists, evaluatedItems tree path configuration framework root = .ok lists ∧
      file.compileItems = compiledFiles (file.defaultItems tree ++ lists.includes) lists.removes := by
  rcases hrun : ItemLists.run tree (Path.directory path)
      (evaluatedProperties tree path configuration framework root) {}
      (itemSteps tree (Path.directory path)
        (evaluatedProperties tree path configuration framework root) root) with ⟨remarks, lists⟩
  have hlists : evaluatedItems tree path configuration framework root = lists :=
    congrArg Prod.snd hrun
  obtain ⟨hpath, hproperties, hstyle⟩ := evaluateRoot_file tree h
  rw [hlists]
  rw [evaluatedProperties] at hrun
  simp only [evaluateRoot, hrun] at h
  cases lists with
  | error fault => cases h
  | ok lists =>
    have hitems := congrArg ProjectFile.compileItems (Except.ok.inj h)
    refine ⟨lists, rfl, hitems.symm.trans ?_⟩
    rw [defaultItems_congr tree (q := ⟨path, (languageOf? path).getD "Unknown",
      evaluatedProperties tree path configuration framework root, [], lists.references, isSdkStyle root⟩)
      hpath hproperties hstyle, ProjectFile.defaultItems]
    rfl

/-- **Removals count wherever they stand.**  The compiled files of a project are those of the list that its
items make in order, from its default sources, without the files that any item removes. They are the whole
list exactly if no file is included again behind an item that removes it. -/
theorem evaluateProject_compileItems {tree : FileTree} {written configuration framework : String}
    {file : ProjectFile}
    (h : (evaluateProject tree written configuration framework).outcome = .ok file) :
    ∃ root steps, projectRoot tree (Path.normalize written) = .ok root ∧
      sourceSteps tree file.directory file.properties
        (sourceItems tree file.directory file.properties root) = .ok steps ∧
      (file.compileItems = (inOrder (file.defaultItems tree) steps).filter
        fun f => !(steps.flatMap (·.removed)).contains f) ∧
      (file.compileItems = inOrder (file.defaultItems tree) steps ↔ ∀ f, ¬Returns steps f) := by
  rw [evaluateProject_eq] at h
  cases hroot : projectRoot tree (Path.normalize written) with
  | error e =>
    rw [hroot] at h
    cases h
  | ok root =>
    rw [hroot] at h
    obtain ⟨hpath, hproperties, -⟩ := evaluateRoot_file tree h
    obtain ⟨lists, hlists, hitems⟩ := compileItems_of_evaluateRoot h
    rw [evaluatedItems] at hlists
    obtain ⟨steps, hsaid, hincludes, hremoves⟩ := sourceSteps_of_run hlists
    rw [filterMap_itemSteps] at hsaid
    have hkept : file.compileItems = (inOrder (file.defaultItems tree) steps).filter
        fun f => !(steps.flatMap (·.removed)).contains f := by
      rw [hitems, hincludes, hremoves, List.nil_append, List.nil_append, compiledFiles_eq]
    refine ⟨root, steps, rfl, ?_, hkept, ?_⟩
    · rw [ProjectFile.directory, hpath, hproperties]
      exact hsaid
    · rw [hkept, List.filter_eq_self]
      constructor
      · intro hall f hreturns
        obtain ⟨hf, s, hs, hremoved⟩ := mem_inOrder_and_removed_iff.mpr hreturns
        have hcontains := hall f hf
        rw [List.contains_iff_mem.mpr (List.mem_flatMap.mpr ⟨s, hs, hremoved⟩)] at hcontains
        cases hcontains
      · intro hnone f hf
        rw [Bool.not_eq_true', ← Bool.not_eq_true, List.contains_iff_mem, List.mem_flatMap]
        rintro ⟨s, hs, hremoved⟩
        exact hnone f (mem_inOrder_and_removed_iff.mp ⟨hf, s, hs, hremoved⟩)

/-! A source that is removed and included again. -/

/-- A project that removes a source and then includes it. -/
def recalling : FileTree :=
  .directory [.mk "w" (.directory [.mk "p.csproj" (.file ("<Project><ItemGroup>" ++
    "<Compile Remove='a.cs'/><Compile Include='a.cs'/></ItemGroup></Project>").toUTF8.data)])]

/-- What the evaluation of this project comes to: the compiled files, the default sources, and what its
items say. -/
def recallingSummary : Option (List String × List String × Option (List SourceStep)) :=
  match (evaluateProject recalling "/w/p.csproj" "Debug" "").outcome,
    projectRoot recalling (Path.normalize "/w/p.csproj") with
  | .ok file, .ok root =>
    some (file.compileItems, file.defaultItems recalling,
      (sourceSteps recalling file.directory file.properties
        (sourceItems recalling file.directory file.properties root)).toOption)
  | _, _ => none

theorem recallingSummary_eq : recallingSummary = some ([], [],
    some [⟨[], ["/w/a.cs"]⟩, ⟨["/w/a.cs"], []⟩]) := by
  decide

/-- The project compiles nothing, though one file stands in the list that its items make. -/
theorem recalling_loses : ∃ file steps,
    (evaluateProject recalling "/w/p.csproj" "Debug" "").outcome = .ok file ∧
      file.compileItems = [] ∧ inOrder (file.defaultItems recalling) steps = ["/w/a.cs"] ∧
      ∃ f, Returns steps f := by
  have hsummary := recallingSummary_eq
  rw [recallingSummary] at hsummary
  cases hfile : (evaluateProject recalling "/w/p.csproj" "Debug" "").outcome with
  | error e =>
    rw [hfile] at hsummary
    cases hsummary
  | ok file =>
    obtain ⟨root, steps, hroot, hsteps, -, hordered⟩ := evaluateProject_compileItems hfile
    simp only [hfile, hroot, hsteps, Except.toOption, Option.some.injEq, Prod.mk.injEq] at hsummary
    obtain ⟨hitems, hdefaults, hsaid⟩ := hsummary
    have hlist : inOrder (file.defaultItems recalling) steps = ["/w/a.cs"] := by
      rw [hdefaults, hsaid]
      decide
    rw [hitems, hlist] at hordered
    refine ⟨file, steps, rfl, hitems, hlist, ?_⟩
    by_contra hnone
    exact absurd (hordered.mpr (not_exists.mp hnone)) (by decide)

end ExtensionCensus
