import ExtensionCensus.Proofs.Project.Evaluating

/-!
# Global properties

What becomes of the properties that an evaluation is asked for while a project file is read.

* `Visit`, `visits` — the places where the reading asks a condition, with the properties that it has
  there and the setting that is made there;
* `Chained` — each visit has the properties that the settings before it left;
* `chained_visits` — so it is of the visits to the elements of a project file;
* `Chained.keeps_iff` — a property keeps its value throughout exactly if no setting gives it another one;
* `evaluateProject_keeps` — **the framework stays throughout an evaluation; the configuration does exactly
  if no element that counts sets it to something else**.
-/

namespace ExtensionCensus

/-! ### Visits -/

/-- A place where the reading of a project file asks the condition of an element, and sets a property if
the element does so. -/
structure Visit where
  properties : Properties
  element : Xml.Element
  setting : Option (String × String)

namespace Visit

/-- The properties behind a visit. -/
def next (v : Visit) : Properties :=
  match v.setting with
  | some (name, value) => v.properties.set name value
  | none => v.properties

/-- A visit sets a property to a value. -/
def Sets (v : Visit) (name value : String) : Prop :=
  v.setting = some (name, value)

theorem get?_next {v : Visit} {name value : String}
    (h : v.properties.get? name = some value) :
    v.next.get? name = some value ↔ ∀ other, v.Sets name other → other = value := by
  rw [next]
  cases hsetting : v.setting with
  | none =>
    simp only [Sets, hsetting, h, reduceCtorEq, false_implies, implies_true]
  | some setting =>
    obtain ⟨n, x⟩ := setting
    simp only [Sets, hsetting, Option.some.injEq, Prod.mk.injEq]
    rw [get?_set]
    by_cases hname : name = n
    · rw [if_pos hname, Option.some.injEq]
      constructor
      · rintro rfl other ⟨-, rfl⟩
        rfl
      · intro hall
        exact hall x ⟨hname.symm, rfl⟩
    · rw [if_neg hname]
      exact ⟨fun _ other hother => absurd hother.1.symm hname, fun _ => h⟩

end Visit

/-- Some visits follow each other: the first one has the properties `ps`, each further one those that the
one before it leaves, and the last one leaves `last`. -/
inductive Chained : Properties → List Visit → Properties → Prop where
  | nil (ps : Properties) : Chained ps [] ps
  | cons {v : Visit} {rest : List Visit} {last : Properties} (h : Chained v.next rest last) :
      Chained v.properties (v :: rest) last

namespace Chained

variable {ps last : Properties} {vs : List Visit}

theorem append {middle : Properties} {more : List Visit} (h : Chained ps vs middle)
    (hmore : Chained middle more last) : Chained ps (vs ++ more) last := by
  induction h with
  | nil => exact hmore
  | cons _ ih => exact .cons (ih hmore)

/-- What holds at all visits and behind them holds in front of them. -/
theorem first {P : Properties → Prop} (h : Chained ps vs last) (hvs : ∀ v ∈ vs, P v.properties)
    (hlast : P last) : P ps := by
  cases h with
  | nil => exact hlast
  | cons _ => exact hvs _ List.mem_cons_self

/-- **A property keeps its value throughout** exactly if every setting gives it this value. -/
theorem keeps_iff {name value : String} (h : Chained ps vs last) (hps : ps.get? name = some value) :
    ((∀ v ∈ vs, v.properties.get? name = some value) ∧ last.get? name = some value) ↔
      ∀ v ∈ vs, ∀ other, v.Sets name other → other = value := by
  induction h with
  | nil => simpa using hps
  | @cons v rest last h ih =>
    rw [List.forall_mem_cons, List.forall_mem_cons, ← Visit.get?_next hps]
    constructor
    · rintro ⟨⟨-, hrest⟩, hlast⟩
      have hnext := h.first (P := fun ps => ps.get? name = some value) hrest hlast
      exact ⟨hnext, (ih hnext).mp ⟨hrest, hlast⟩⟩
    · rintro ⟨hnext, hrest⟩
      obtain ⟨hkept, hlast⟩ := (ih hnext).mpr hrest
      exact ⟨⟨hps, hkept⟩, hlast⟩

end Chained

/-! ### Visits to a project file -/

section

variable (tree : FileTree) (directory framework : String)

/-- The property that an element of a property group sets, if it counts and is not the framework that the
evaluation was asked for. -/
def settingOf (ps : Properties) (e : Xml.Element) : Option (String × String) :=
  if counts tree directory ps e && !(Text.lower e.name = "targetframework" && framework ≠ "") then
    some (Text.lower e.name, Text.trim (ps.expand e.text))
  else none

/-- The visit to an element of a property group. -/
def visitOf (ps : Properties) (e : Xml.Element) : Visit :=
  ⟨ps, e, settingOf tree directory framework ps e⟩

/-- The visits to the elements of a property group. -/
def visitsInside : Properties → List Xml.Element → List Visit
  | _, [] => []
  | ps, e :: rest =>
    let v := visitOf tree directory framework ps e
    v :: visitsInside v.next rest

/-- The visits to a property group: its own condition is asked first, and if it does not hold the elements
in it are passed over. -/
def visitsTo (ps : Properties) (group : Xml.Element) : List Visit :=
  if group.name = "PropertyGroup" then
    ⟨ps, group, none⟩ :: if counts tree directory ps group then
      visitsInside tree directory framework ps group.children else []
  else []

/-- The visits to the property groups of a project file, read from a state. -/
def visits : PropertyState → List Xml.Element → List Visit
  | _, [] => []
  | st, group :: rest =>
    visitsTo tree directory framework st.properties group ++
      visits (st.apply tree directory framework group) rest

/-- An element is read as its visit says. -/
theorem properties_set (st : PropertyState) (e : Xml.Element) :
    (st.set tree directory framework e).properties =
      (visitOf tree directory framework st.properties e).next := by
  rw [PropertyState.set, visitOf, Visit.next, settingOf]
  split
  · rfl
  · rfl

theorem chained_visitsInside (st : PropertyState) (elements : List Xml.Element) :
    Chained st.properties (visitsInside tree directory framework st.properties elements)
      (elements.foldl (PropertyState.set tree directory framework) st).properties := by
  induction elements generalizing st with
  | nil => exact .nil _
  | cons e rest ih =>
    have hrest := ih (st.set tree directory framework e)
    rw [properties_set] at hrest
    rw [List.foldl_cons, visitsInside]
    exact .cons hrest

theorem chained_visitsTo (st : PropertyState) (group : Xml.Element) :
    Chained st.properties (visitsTo tree directory framework st.properties group)
      (st.apply tree directory framework group).properties := by
  rw [visitsTo, PropertyState.apply]
  split
  · apply Chained.cons (v := ⟨st.properties, group, none⟩)
    split
    · exact chained_visitsInside tree directory framework
        { st with remarks := st.remarks ++ remarksOn st.properties group } group.children
    · exact .nil _
  · exact .nil _

/-- **The visits to a project file follow each other**, from the properties at its start to those at its
end. -/
theorem chained_visits (st : PropertyState) (groups : List Xml.Element) :
    Chained st.properties (visits tree directory framework st groups)
      (groups.foldl (PropertyState.apply tree directory framework) st).properties := by
  induction groups generalizing st with
  | nil => exact .nil _
  | cons group rest ih =>
    rw [List.foldl_cons, visits]
    exact (chained_visitsTo tree directory framework st group).append (ih _)

variable {tree directory framework}

/-- Every setting is made at an element that counts, in a group that counts. -/
theorem setting_of_mem_visits {st : PropertyState} {groups : List Xml.Element} {v : Visit}
    (h : v ∈ visits tree directory framework st groups) :
    v.setting = none ∨ v.setting = settingOf tree directory framework v.properties v.element := by
  have hinside (ps : Properties) (elements : List Xml.Element)
      (hv : v ∈ visitsInside tree directory framework ps elements) :
      v.setting = settingOf tree directory framework v.properties v.element := by
    induction elements generalizing ps with
    | nil => cases hv
    | cons e rest ih =>
      rw [visitsInside, List.mem_cons] at hv
      rcases hv with rfl | hv
      · rw [visitOf]
      · exact ih _ hv
  induction groups generalizing st with
  | nil => cases h
  | cons group rest ih =>
    rw [visits, List.mem_append] at h
    rcases h with h | h
    · rw [visitsTo] at h
      split at h
      · rcases List.mem_cons.mp h with rfl | h
        · exact .inl rfl
        · split at h
          · exact .inr (hinside _ _ h)
          · cases h
      · cases h
    · exact ih h

/-- No element sets the framework that the evaluation was asked for. -/
theorem not_sets_targetFramework {st : PropertyState} {groups : List Xml.Element} {v : Visit}
    (hframework : framework ≠ "") (h : v ∈ visits tree directory framework st groups)
    (value : String) : ¬v.Sets "targetframework" value := by
  rw [Visit.Sets]
  rcases setting_of_mem_visits h with hsetting | hsetting
  · rw [hsetting]
    exact nofun
  · rw [hsetting, settingOf]
    split
    · next hsets =>
      intro heq
      obtain ⟨hname, -⟩ := Prod.mk.inj (Option.some.inj heq)
      simp [hname, hframework] at hsets
    · exact nofun

end

/-! ### Evaluations -/

section

variable (tree : FileTree) (path configuration framework : String)

/-- The visits to the property groups of a project file. -/
def evaluationVisits (root : Xml.Element) : List Visit :=
  visits tree (Path.directory path) framework
    { properties := builtInProperties path configuration framework } root.children

theorem chained_evaluationVisits {tree : FileTree} {path configuration framework : String}
    {root : Xml.Element} {file : ProjectFile}
    (h : (evaluateRoot tree path configuration framework root).outcome = .ok file) :
    Chained (builtInProperties path configuration framework)
      (evaluationVisits tree path configuration framework root) file.properties := by
  rw [(evaluateRoot_file tree h).2.1]
  exact chained_visits tree (Path.directory path) framework
    { properties := builtInProperties path configuration framework } root.children

/-- A property has a value at every place where the evaluation of a project file asks a condition or
expands a text, in property groups and behind them. -/
def HasThroughout (root : Xml.Element) (file : ProjectFile) (name value : String) : Prop :=
  (∀ v ∈ evaluationVisits tree path configuration framework root,
      v.properties.get? name = some value) ∧ file.properties.get? name = some value

end

/-- **The framework of an evaluation stays**, whatever elements of its name the project file has: every
condition and every expansion sees it. The configuration stays exactly if every element that counts and
that sets it, in any letter case, gives it the value that it had. -/
theorem evaluateProject_keeps {tree : FileTree} {written configuration framework : String}
    {file : ProjectFile}
    (h : (evaluateProject tree written configuration framework).outcome = .ok file) :
    ∃ root, projectRoot tree (Path.normalize written) = .ok root ∧
      (framework ≠ "" → HasThroughout tree (Path.normalize written) configuration framework root file
        "targetframework" framework) ∧
      (HasThroughout tree (Path.normalize written) configuration framework root file
          "configuration" configuration ↔
        ∀ v ∈ evaluationVisits tree (Path.normalize written) configuration framework root,
          ∀ value, v.Sets "configuration" value → value = configuration) := by
  rw [evaluateProject_eq] at h
  cases hroot : projectRoot tree (Path.normalize written) with
  | error e =>
    rw [hroot] at h
    cases h
  | ok root =>
    rw [hroot] at h
    have hchained := chained_evaluationVisits h
    refine ⟨root, rfl, fun hframework => ?_, ?_⟩
    · have hbuiltIn : (builtInProperties (Path.normalize written) configuration framework).get?
          "targetframework" = some framework := by
        rw [builtInProperties, if_neg hframework]
        rfl
      apply (hchained.keeps_iff hbuiltIn).mpr
      intro v hv value hsets
      exact absurd hsets (not_sets_targetFramework hframework hv value)
    · have hbuiltIn : (builtInProperties (Path.normalize written) configuration framework).get?
          "configuration" = some configuration := rfl
      exact hchained.keeps_iff hbuiltIn

/-! A project file that sets both. -/

/-- A project that sets its framework and its configuration, in unusual letter case. -/
def insistent : FileTree :=
  .directory [.mk "w" (.directory [.mk "a.csproj" (.file ("<Project><PropertyGroup>" ++
    "<TARGETFRAMEWORK>net6.0</TARGETFRAMEWORK><configuration>Release</configuration>" ++
    "</PropertyGroup></Project>").toUTF8.data)])]

/-- The framework that was asked for stays, the configuration does not. -/
theorem insistent_keeps : ∃ file root,
    (evaluateProject insistent "/w/a.csproj" "Debug" "net8.0").outcome = .ok file ∧
      file.properties.get? "configuration" = some "Release" ∧
      HasThroughout insistent (Path.normalize "/w/a.csproj") "Debug" "net8.0" root file
        "targetframework" "net8.0" ∧
      ∃ v ∈ evaluationVisits insistent (Path.normalize "/w/a.csproj") "Debug" "net8.0" root,
        ∃ value, v.Sets "configuration" value ∧ value ≠ "Debug" := by
  have hread : ((evaluateProject insistent "/w/a.csproj" "Debug" "net8.0").outcome.toOption.map
      fun file => file.properties.get? "configuration") = some (some "Release") := by
    decide +kernel
  cases hfile : (evaluateProject insistent "/w/a.csproj" "Debug" "net8.0").outcome with
  | error e =>
    rw [hfile] at hread
    cases hread
  | ok file =>
    rw [hfile] at hread
    have hrelease : file.properties.get? "configuration" = some "Release" := Option.some.inj hread
    obtain ⟨root, -, hframework, hconfiguration⟩ := evaluateProject_keeps hfile
    have hchanged : ¬HasThroughout insistent (Path.normalize "/w/a.csproj") "Debug" "net8.0" root file
        "configuration" "Debug" := by
      rintro ⟨-, hdebug⟩
      rw [hrelease] at hdebug
      exact absurd hdebug (by decide)
    rw [hconfiguration] at hchanged
    push Not at hchanged
    exact ⟨file, root, rfl, hrelease, hframework (by decide), hchanged⟩

end ExtensionCensus
