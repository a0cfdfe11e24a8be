import ExtensionCensus.Project.Source
import ExtensionCensus.Proofs.File.Beneath
import ExtensionCensus.Proofs.File.Proper

/-!
# Default sources and output directories

Which files a project compiles without naming them, told by the names that lead to them.

* `Entry.HasSource` — names lead through directories to a source;
* `mem_sourcesFrom_iff`, `nodup_sourcesFrom` — **the walk lists every such source, each once**;
* `ProjectFile.IsOwnSource` — a source that lies beneath no output directory;
* `ProjectFile.defaultSources_exact` — **the default sources are those of them whose outermost directory
  does not have the first segment of an output path for its name; they are the own sources exactly if
  this tells the same directories as the whole paths do**.
-/

namespace ExtensionCensus

open ExtensionCensus.Path (IsBeneath IsName IsNormal NamesInside descend writtenNames)

/-! ### Sources below a directory -/

/-- Names lead from an entry through directories, none of which is hidden, to a source. -/
structure Entry.HasSource (e : Entry) (dirs : List String) (name : String) : Prop where
  isFile : ∃ content, e.at? (dirs ++ [name]) = some (.file content)
  isSource : isSourceName name = true
  shown : ∀ d ∈ dirs, Text.startsWith d "." = false

namespace Entry

variable {e : Entry} {cs : List Child} {dirs : List String} {name : String}

theorem HasSource.isDirectory (h : e.HasSource dirs name) : e.isDirectory = true := by
  obtain ⟨_, hat⟩ := h.isFile
  cases dirs with
  | nil => exact isDirectory_of_child? (at?_cons_iff.mp hat).choose_spec.1
  | cons d rest => exact isDirectory_of_child? (at?_cons_iff.mp hat).choose_spec.1

theorem hasSource_nil_iff (hdiffer : (cs.map (·.name)).Nodup) :
    (directory cs).HasSource [] name ↔
      (∃ content, Child.mk name (.file content) ∈ cs) ∧ isSourceName name = true := by
  have hat (found : Entry) :
      (directory cs).at? ([] ++ [name]) = some found ↔ Child.mk name found ∈ cs := by
    rw [List.nil_append, at?_cons_iff]
    simp only [at?, Option.some.injEq, exists_eq_right, child?_eq_some_iff hdiffer]
  constructor
  · rintro ⟨⟨content, hfile⟩, hsource, -⟩
    exact ⟨⟨content, (hat _).mp hfile⟩, hsource⟩
  · rintro ⟨⟨content, hmem⟩, hsource⟩
    exact ⟨⟨content, (hat _).mpr hmem⟩, hsource, fun d hd => absurd hd List.not_mem_nil⟩

theorem hasSource_cons_iff (hdiffer : (cs.map (·.name)).Nodup) {d : String} :
    (directory cs).HasSource (d :: dirs) name ↔
      ∃ inner, Child.mk d inner ∈ cs ∧ Text.startsWith d "." = false ∧ inner.HasSource dirs name := by
  constructor
  · rintro ⟨⟨content, hfile⟩, hsource, hshown⟩
    obtain ⟨inner, hchild, hinner⟩ := at?_cons_iff.mp hfile
    obtain ⟨hd, hrest⟩ := List.forall_mem_cons.mp hshown
    exact ⟨inner, (child?_eq_some_iff hdiffer).mp hchild, hd, ⟨content, hinner⟩, hsource, hrest⟩
  · rintro ⟨inner, hmem, hd, ⟨content, hinner⟩, hsource, hrest⟩
    exact ⟨⟨content, at?_cons_iff.mpr ⟨inner, (child?_eq_some_iff hdiffer).mpr hmem, hinner⟩⟩,
      hsource, List.forall_mem_cons.mpr ⟨hd, hrest⟩⟩

/-- Directories left out at the top take away what lies behind their names, and nothing else. -/
theorem hasSource_filter_iff (keep : String → Bool) (hdiffer : (cs.map (·.name)).Nodup) :
    (directory (cs.filter fun c => !c.entry.isDirectory || keep c.name)).HasSource dirs name ↔
      (directory cs).HasSource dirs name ∧ ∀ d ∈ dirs.head?, keep d = true := by
  have hdiffer' := hdiffer.sublist ((List.filter_sublist
    (p := fun c : Child => !c.entry.isDirectory || keep c.name) (l := cs)).map (·.name))
  cases dirs with
  | nil =>
    rw [hasSource_nil_iff hdiffer', hasSource_nil_iff hdiffer]
    simp [Child.entry, isDirectory]
  | cons d rest =>
    rw [hasSource_cons_iff hdiffer', hasSource_cons_iff hdiffer]
    have hhead : (∀ t ∈ (d :: rest).head?, keep t = true) ↔ keep d = true := by simp
    rw [hhead]
    constructor
    · rintro ⟨inner, hmem, hd, hsource⟩
      obtain ⟨hmem, hkept⟩ := List.mem_filter.mp hmem
      refine ⟨⟨inner, hmem, hd, hsource⟩, ?_⟩
      simpa [Child.entry, Child.name, hsource.isDirectory] using hkept
    · rintro ⟨⟨inner, hmem, hd, hsource⟩, hkept⟩
      exact ⟨inner, List.mem_filter.mpr ⟨hmem, Bool.or_eq_true_iff.mpr (.inr hkept)⟩, hd, hsource⟩

theorem IsProper.isName_of_hasSource (h : e.IsProper) (hsource : e.HasSource dirs name) :
    ∀ s ∈ dirs ++ [name], IsName s := by
  obtain ⟨_, hat⟩ := hsource.isFile
  exact h.isName_of_at? hat

end Entry

/-! ### The walk -/

/-- The entry is a source. -/
def Child.isSource (c : Child) : Bool :=
  !c.entry.isDirectory && isSourceName c.name

/-- The entry is a directory that is not hidden. -/
def Child.isShown (c : Child) : Bool :=
  c.entry.isDirectory && !Text.startsWith c.name "."

theorem sourcesBelow_eq (path : String) (cs : List Child) :
    sourcesBelow path cs = (cs.filter (·.isShown)).map fun c =>
      (c.name, sourcesFrom (Path.join path c.name) c.entry) := by
  induction cs with
  | nil => rfl
  | cons c rest ih =>
    obtain ⟨name, entry⟩ := c
    rw [sourcesBelow, ih, List.filter_cons]
    show _ = List.map _ (if (entry.isDirectory && !Text.startsWith name ".") = true then _ else _)
    split
    · rfl
    · rfl

/-- But for their order, the sources of a directory are those among its entries and those of its
directories. -/
theorem perm_sourcesFrom (path : String) (cs : List Child) :
    (sourcesFrom path (.directory cs)).Perm
      ((cs.filter (·.isSource)).map (fun c => Path.join path c.name) ++
        (cs.filter (·.isShown)).flatMap fun c =>
          sourcesFrom (Path.join path c.name) c.entry) := by
  rw [sourcesFrom, sourceNames, sourcesBelow_eq]
  refine List.Perm.append ?_ ?_
  · have hnames := List.mergeSort_perm ((cs.filter (·.isSource)).map (·.name)) (· ≤ ·)
    have hpaths := hnames.map (Path.join path)
    rwa [List.map_map] at hpaths
  · have hbelow := List.mergeSort_perm ((cs.filter (·.isShown)).map fun c =>
      (c.name, sourcesFrom (Path.join path c.name) c.entry)) fun a b => decide (a.1 ≤ b.1)
    have hsources := hbelow.flatMap_right (·.2)
    rwa [List.flatMap_map] at hsources

/-- **The walk lists exactly the sources that names lead to.** -/
theorem mem_sourcesFrom_iff {e : Entry} (h : e.IsProper) {path f : String} :
    f ∈ sourcesFrom path e ↔
      ∃ dirs name, e.HasSource dirs name ∧ f = descend path (dirs ++ [name]) := by
  induction h generalizing path with
  | file content =>
    rw [sourcesFrom]
    exact ⟨fun hmem => absurd hmem List.not_mem_nil,
      fun ⟨_, _, hsource, _⟩ => absurd hsource.isDirectory Bool.false_ne_true⟩
  | @directory cs hnames hdiffer hinside ih =>
    rw [(perm_sourcesFrom path cs).mem_iff, List.mem_append, List.mem_map, List.mem_flatMap]
    simp only [List.mem_filter, Child.isSource, Child.isShown, Bool.and_eq_true,
      Bool.not_eq_true']
    constructor
    · rintro (⟨⟨name, entry⟩, ⟨hmem, hfile, hsource⟩, rfl⟩ | ⟨⟨d, inner⟩, ⟨hmem, hdir, hd⟩, hf⟩)
      · cases entry with
        | file content =>
          exact ⟨[], name, (Entry.hasSource_nil_iff hdiffer).mpr ⟨⟨content, hmem⟩, hsource⟩, rfl⟩
        | directory ds => cases hfile
      · obtain ⟨dirs, name, hsource, rfl⟩ := (ih _ hmem).mp hf
        exact ⟨d :: dirs, name,
          (Entry.hasSource_cons_iff hdiffer).mpr ⟨inner, hmem, hd, hsource⟩, rfl⟩
    · rintro ⟨_ | ⟨d, dirs⟩, name, hsource, rfl⟩
      · obtain ⟨⟨content, hmem⟩, hsource⟩ := (Entry.hasSource_nil_iff hdiffer).mp hsource
        exact .inl ⟨_, ⟨hmem, rfl, hsource⟩, rfl⟩
      · obtain ⟨inner, hmem, hd, hsource⟩ := (Entry.hasSource_cons_iff hdiffer).mp hsource
        exact .inr ⟨_, ⟨hmem, hsource.isDirectory, hd⟩, (ih _ hmem).mpr ⟨dirs, name, hsource, rfl⟩⟩

/-- A source below a directory lies behind a name. -/
theorem exists_names_of_mem_sourcesFrom {e : Entry} (h : e.IsProper) {path f : String}
    (hf : f ∈ sourcesFrom path e) :
    ∃ s rest, (∀ t ∈ s :: rest, IsName t) ∧ f = descend path (s :: rest) := by
  obtain ⟨dirs, name, hsource, rfl⟩ := (mem_sourcesFrom_iff h).mp hf
  have hnames := h.isName_of_hasSource hsource
  cases dirs with
  | nil => exact ⟨name, [], hnames, rfl⟩
  | cons d dirs => exact ⟨d, dirs ++ [name], hnames, rfl⟩

/-- **The walk lists no source twice.** -/
theorem nodup_sourcesFrom {e : Entry} (h : e.IsProper) {path : String} (hpath : IsNormal path) :
    (sourcesFrom path e).Nodup := by
  induction h generalizing path with
  | file content =>
    rw [sourcesFrom]
    exact List.nodup_nil
  | @directory cs hnames hdiffer hinside ih =>
    have hbelow {c : Child} (hc : c ∈ cs.filter (·.isShown)) {f : String}
        (hf : f ∈ sourcesFrom (Path.join path c.name) c.entry) :
        ∃ s rest, (∀ t ∈ c.name :: s :: rest, IsName t) ∧ f = descend path (c.name :: s :: rest) := by
      have hmem := List.mem_of_mem_filter hc
      obtain ⟨s, rest, hrest, rfl⟩ := exists_names_of_mem_sourcesFrom (hinside c hmem) hf
      exact ⟨s, rest, List.forall_mem_cons.mpr ⟨hnames c hmem, hrest⟩, rfl⟩
    rw [(perm_sourcesFrom path cs).nodup_iff, List.nodup_append', List.nodup_flatMap]
    refine ⟨?_, ⟨?_, ?_⟩, ?_⟩
    · have hsources : ((cs.filter (·.isSource)).map (·.name)).Nodup :=
        hdiffer.sublist (List.filter_sublist.map _)
      have hname : ∀ s ∈ (cs.filter (·.isSource)).map (·.name), IsName s := fun s hs => by
        obtain ⟨c, hc, rfl⟩ := List.mem_map.mp hs
        exact hnames c (List.mem_of_mem_filter hc)
      have hpaths := hsources.map_on (f := Path.join path) fun s hs t ht hequal =>
        (List.cons.inj (Path.descend_inj hpath (List.forall_mem_singleton.mpr (hname s hs))
          (List.forall_mem_singleton.mpr (hname t ht)) hequal)).1
      rwa [List.map_map] at hpaths
    · intro c hc
      have hmem := List.mem_of_mem_filter hc
      exact ih c hmem (@Path.isNormal_descend [c.name] path hpath
        (List.forall_mem_singleton.mpr (hnames c hmem)))
    · refine ((List.pairwise_map.mp hdiffer).filter _).imp_of_mem fun {c c'} hc hc' hne => ?_
      intro f hf hf'
      obtain ⟨s, rest, hall, rfl⟩ := hbelow hc hf
      obtain ⟨s', rest', hall', hequal⟩ := hbelow hc' hf'
      exact hne (List.cons.inj (Path.descend_inj hpath hall hall' hequal)).1
    · intro f hf hf'
      obtain ⟨c, hc, rfl⟩ := List.mem_map.mp hf
      obtain ⟨c', hc', hmem⟩ := List.mem_flatMap.mp hf'
      obtain ⟨s, rest, hall, hequal⟩ := hbelow hc' hmem
      have hsingle := List.forall_mem_singleton.mpr (hnames c (List.mem_of_mem_filter hc))
      exact absurd (Path.descend_inj hpath hsingle hall hequal) (by simp)

/-! ### The sources of a project -/

namespace ProjectFile

/-- The directories for what the project compiles to, as it writes them. -/
def outputValues (p : ProjectFile) : List String :=
  (["BaseOutputPath", "BaseIntermediateOutputPath"].map p.get).filter (· ≠ "")

/-- A path leads to a source below the directory of the project, which holds `e`, that lies beneath no
output directory: neither one of the usual names nor one that the project writes. -/
def IsOwnSource (p : ProjectFile) (e : Entry) (f : String) : Prop :=
  ∃ dirs name, e.HasSource dirs name ∧ f = descend p.directory (dirs ++ [name]) ∧
    (∀ d ∈ dirs.head?, Text.lower d ∉ ["bin", "obj"]) ∧
    ∀ v ∈ p.outputValues, ¬IsBeneath (Path.resolve v p.directory) f

variable {tree : FileTree} {p : ProjectFile} {e : Entry}

/-- The default sources are those whose outermost directory is not left out. -/
theorem mem_defaultSources_iff (hproper : e.IsProper) (hat : tree.lookup p.directory = .ok e)
    {f : String} : f ∈ p.defaultSources tree ↔
      ∃ dirs name, e.HasSource dirs name ∧ f = descend p.directory (dirs ++ [name]) ∧
        ∀ d ∈ dirs.head?, Text.lower d ∉ p.outputNames := by
  rw [defaultSources, hat]
  cases e with
  | file content =>
    exact ⟨fun hmem => absurd hmem List.not_mem_nil,
      fun ⟨_, _, hsource, _⟩ => absurd hsource.isDirectory Bool.false_ne_true⟩
  | directory cs =>
    rw [mem_sourcesFrom_iff (hproper.filter _)]
    refine exists_congr fun dirs => exists_congr fun name => ?_
    rw [Entry.hasSource_filter_iff (fun d => !p.outputNames.contains (Text.lower d))
      hproper.nodup_names, and_assoc, and_comm (a := _ = _)]
    simp only [Bool.not_eq_true', ← Bool.not_eq_true, List.contains_iff_mem]

variable {dirs : List String} {name : String}

/-- A source lies beneath no output directory exactly if its directories do not go through one. -/
theorem isOwnSource_descend_iff (hproper : e.IsProper) (hnormal : IsNormal p.directory)
    (hinside : ∀ v ∈ p.outputValues, NamesInside v) (hsource : e.HasSource dirs name) :
    p.IsOwnSource e (descend p.directory (dirs ++ [name])) ↔
      (∀ d ∈ dirs.head?, Text.lower d ∉ ["bin", "obj"]) ∧
        ∀ v ∈ p.outputValues, ¬writtenNames v <+: dirs := by
  have hnames := hproper.isName_of_hasSource hsource
  have hbeneath : ∀ v ∈ p.outputValues,
      (IsBeneath (Path.resolve v p.directory) (descend p.directory (dirs ++ [name])) ↔
        writtenNames v <+: dirs) := fun v hv => by
    rw [Path.resolve_eq_descend hnormal (hinside v hv)]
    exact Path.isBeneath_descend_iff hnormal
      (Path.isName_of_mem_writtenNames (hinside v hv).leadsDown) hnames
  constructor
  · rintro ⟨dirs', name', hsource', hequal, htop, hfree⟩
    obtain ⟨rfl, -⟩ := List.append_inj'
      (Path.descend_inj hnormal hnames (hproper.isName_of_hasSource hsource') hequal) rfl
    exact ⟨htop, fun v hv hprefix => hfree v hv ((hbeneath v hv).mpr hprefix)⟩
  · rintro ⟨htop, hfree⟩
    exact ⟨dirs, name, hsource, rfl, htop, fun v hv h => hfree v hv ((hbeneath v hv).mp h)⟩

/-- A source is a default source exactly if its outermost directory is not left out. -/
theorem descend_mem_defaultSources_iff (hproper : e.IsProper) (hnormal : IsNormal p.directory)
    (hat : tree.lookup p.directory = .ok e) (hsource : e.HasSource dirs name) :
    descend p.directory (dirs ++ [name]) ∈ p.defaultSources tree ↔
      ∀ d ∈ dirs.head?, Text.lower d ∉ p.outputNames := by
  rw [mem_defaultSources_iff hproper hat]
  constructor
  · rintro ⟨dirs', name', hsource', hequal, htop⟩
    obtain ⟨rfl, -⟩ := List.append_inj' (Path.descend_inj hnormal
      (hproper.isName_of_hasSource hsource) (hproper.isName_of_hasSource hsource') hequal) rfl
    exact htop
  · exact fun htop => ⟨dirs, name, hsource, rfl, htop⟩

theorem nodup_defaultSources (hproper : e.IsProper) (hnormal : IsNormal p.directory)
    (hat : tree.lookup p.directory = .ok e) : (p.defaultSources tree).Nodup := by
  rw [defaultSources, hat]
  cases e with
  | file content => exact List.nodup_nil
  | directory cs => exact nodup_sourcesFrom (hproper.filter _) hnormal

/-- A source is told alike by the outermost directory and by the whole output paths, unless it stands in
`bin` or `obj`, exactly if both leave it out or neither does. -/
theorem descend_mem_iff_isOwnSource_iff (hproper : e.IsProper) (hnormal : IsNormal p.directory)
    (hat : tree.lookup p.directory = .ok e) (hinside : ∀ v ∈ p.outputValues, NamesInside v)
    (hsource : e.HasSource dirs name) :
    (descend p.directory (dirs ++ [name]) ∈ p.defaultSources tree ↔
        p.IsOwnSource e (descend p.directory (dirs ++ [name]))) ↔
      ((∀ d ∈ dirs.head?, Text.lower d ∉ ["bin", "obj"]) →
        ((∃ d ∈ dirs.head?, Text.lower d ∈ p.outputNames) ↔
          ∃ v ∈ p.outputValues, writtenNames v <+: dirs)) := by
  have houter : (∀ d ∈ dirs.head?, Text.lower d ∉ p.outputNames) →
      ∀ d ∈ dirs.head?, Text.lower d ∉ ["bin", "obj"] := by
    intro hnone d hd hmem
    exact hnone d hd (List.mem_append_left _ hmem)
  have hnames : (∀ d ∈ dirs.head?, Text.lower d ∉ p.outputNames) ↔
      ¬∃ d ∈ dirs.head?, Text.lower d ∈ p.outputNames := by
    simp only [not_exists, not_and]
  have hvalues : (∀ v ∈ p.outputValues, ¬writtenNames v <+: dirs) ↔
      ¬∃ v ∈ p.outputValues, writtenNames v <+: dirs := by
    simp only [not_exists, not_and]
  rw [descend_mem_defaultSources_iff hproper hnormal hat hsource,
    isOwnSource_descend_iff hproper hnormal hinside hsource, hnames, hvalues]
  constructor
  · intro hagree htop
    exact not_iff_not.mp (hagree.trans (and_iff_right htop))
  · intro hagree
    constructor
    · intro hkept
      have htop := houter (hnames.mpr hkept)
      exact ⟨htop, fun hthrough => hkept ((hagree htop).mpr hthrough)⟩
    · rintro ⟨htop, hfree⟩ hleft
      exact hfree ((hagree htop).mp hleft)

/-- **What the default sources leave out.**  For output paths that name directories inside the directory of
the project: no default source is listed twice; they are the sources whose outermost directory does not have
one of the names to leave out; and they are the sources beneath no output directory exactly if, among the
sources outside of `bin` and `obj`, those whose outermost directory has such a name are those whose
directories go through an output directory. -/
theorem defaultSources_exact (hproper : e.IsProper) (hnormal : IsNormal p.directory)
    (hat : tree.lookup p.directory = .ok e) (hinside : ∀ v ∈ p.outputValues, NamesInside v) :
    (p.defaultSources tree).Nodup ∧
      (∀ f, f ∈ p.defaultSources tree ↔
        ∃ dirs name, e.HasSource dirs name ∧ f = descend p.directory (dirs ++ [name]) ∧
          ∀ d ∈ dirs.head?, Text.lower d ∉ p.outputNames) ∧
      ((∀ f, f ∈ p.defaultSources tree ↔ p.IsOwnSource e f) ↔
        ∀ dirs name, e.HasSource dirs name → (∀ d ∈ dirs.head?, Text.lower d ∉ ["bin", "obj"]) →
          ((∃ d ∈ dirs.head?, Text.lower d ∈ p.outputNames) ↔
            ∃ v ∈ p.outputValues, writtenNames v <+: dirs)) := by
  have hmem := fun f => mem_defaultSources_iff hproper hat (f := f)
  refine ⟨nodup_defaultSources hproper hnormal hat, hmem, ?_⟩
  have hagree {dirs : List String} {name : String} (hsource : e.HasSource dirs name) :=
    descend_mem_iff_isOwnSource_iff hproper hnormal hat hinside hsource
  constructor
  · intro hexact dirs name hsource
    exact (hagree hsource).mp (hexact _)
  · intro hsame f
    constructor
    · intro hf
      obtain ⟨dirs, name, hsource, rfl, -⟩ := (hmem f).mp hf
      exact ((hagree hsource).mpr (hsame dirs name hsource)).mp hf
    · intro hf
      obtain ⟨dirs, name, hsource, rfl, -⟩ := id hf
      exact ((hagree hsource).mpr (hsame dirs name hsource)).mpr hf

end ProjectFile

/-! Output paths that are not written as one name. -/

/-- A project that writes its output directories with a segment for its own one and with two names. -/
def outwardProject : ProjectFile where
  path := "/w/p.csproj"
  language := "C#"
  properties := [("baseoutputpath", "./out"), ("baseintermediateoutputpath", "build/tmp/")]

/-- What lies beside this project. -/
def outwardEntries : Entry :=
  .directory [.mk "a.cs" (.file #[]), .mk "out" (.directory [.mk "g.cs" (.file #[])]),
    .mk "build" (.directory [.mk "b.cs" (.file #[]),
      .mk "tmp" (.directory [.mk "h.cs" (.file #[])])])]

/-- It compiles what it compiles to, and does not compile a source of its own. -/
theorem outward_exchanges :
    outwardProject.defaultSources (.directory [.mk "w" outwardEntries]) =
        ["/w/a.cs", "/w/out/g.cs"] ∧
      ¬∀ f, f ∈ outwardProject.defaultSources (.directory [.mk "w" outwardEntries]) ↔
        outwardProject.IsOwnSource outwardEntries f := by
  have hnormal : IsNormal outwardProject.directory := by
    rw [show outwardProject.directory = Path.below "/" ["w"] by decide]
    exact .mk (.inl rfl) (by decide)
  obtain ⟨-, -, hexact⟩ := @ProjectFile.defaultSources_exact (.directory [.mk "w" outwardEntries])
    outwardProject outwardEntries (by decide) hnormal rfl (by decide +kernel)
  refine ⟨by decide +kernel, fun hown => ?_⟩
  have hout := hexact.mp hown ["out"] "g.cs" ⟨⟨#[], rfl⟩, by decide, by decide⟩ (by decide)
  exact absurd hout (by decide +kernel)

end ExtensionCensus
