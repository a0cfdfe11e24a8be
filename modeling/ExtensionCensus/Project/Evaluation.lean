import ExtensionCensus.Project.Condition
import ExtensionCensus.Project.Item
import ExtensionCensus.Project.LoadError
import ExtensionCensus.Project.Source

/-!
# Evaluating projects

What a project file says for one configuration and one target framework: first all properties,
group by group, then all items.

* `Evaluation` — the outcome, and the terms of conditions that were not understood on the way.
* `PropertyState.apply` — the effect of an element of a property group.
* `ItemLists.add` — the effect of an element of an item group.
* `evaluateProject` — the evaluation of a file.
-/

namespace ExtensionCensus

/-- What came of evaluating a project. -/
structure Evaluation where
  remarks : List String
  outcome : Except EvaluationError ProjectFile

/-! ### Conditions of elements -/

/-- The condition of an element with its properties expanded; an element without one, or with a
blank one, has none. -/
def conditionOf? (ps : Properties) (e : Xml.Element) : Option String :=
  if Text.trim (e.value "Condition") = "" then none else some (ps.expand (e.value "Condition"))

/-- An element counts. -/
def counts (tree : FileTree) (directory : String) (ps : Properties) (e : Xml.Element) : Bool :=
  match conditionOf? ps e with
  | some condition => Condition.holds tree directory condition
  | none => true

/-- The terms of an element's condition that are not understood. -/
def remarksOn (ps : Properties) (e : Xml.Element) : List String :=
  match conditionOf? ps e with
  | some condition => Condition.unclearTerms condition
  | none => []

/-! ### Properties -/

/-- The properties that a project has before its file is read. -/
def builtInProperties (path configuration framework : String) : Properties :=
  [("configuration", configuration), ("platform", "AnyCPU"),
    ("msbuildprojectdirectory", Path.directory path), ("msbuildprojectfile", Path.fileName path),
    ("msbuildprojectname", Path.stem path), ("msbuildprojectextension", Path.suffix path)] ++
    if framework = "" then [] else [("targetframework", framework)]

/-- The properties as far as the file was read. -/
structure PropertyState where
  properties : Properties
  remarks : List String := []

/-- The effect of an element of a property group. A framework that the evaluation was asked for
stays. -/
def PropertyState.set (tree : FileTree) (directory framework : String) (st : PropertyState)
    (e : Xml.Element) : PropertyState :=
  let remarks := st.remarks ++ remarksOn st.properties e
  let name := Text.lower e.name
  if counts tree directory st.properties e && !(name = "targetframework" && framework ≠ "") then
    { properties := st.properties.set name (Text.trim (st.properties.expand e.text)), remarks }
  else { st with remarks }

/-- The effect of an element directly in the project. -/
def PropertyState.apply (tree : FileTree) (directory framework : String) (st : PropertyState)
    (group : Xml.Element) : PropertyState :=
  if group.name = "PropertyGroup" then
    let inside := { st with remarks := st.remarks ++ remarksOn st.properties group }
    if counts tree directory st.properties group then
      group.children.foldl (PropertyState.set tree directory framework) inside
    else inside
  else st

/-! ### Items -/

/-- What the items of a project name. -/
structure ItemLists where
  includes : List String := []
  removes : List String := []
  references : List String := []
  deriving DecidableEq, Repr

/-- The projects that the text of a reference names. -/
def referencesIn (directory : String) (ps : Properties) (value : String) : List String :=
  ((Text.segments ';' (ps.expand value)).filter fun entry => Text.trim entry ≠ "").map
    (Path.resolve · directory)

/-- The effect of an item. -/
def ItemLists.add (tree : FileTree) (directory : String) (ps : Properties) (lists : ItemLists)
    (e : Xml.Element) : Except GlobFault ItemLists :=
  if e.name = "Compile" then
    match expandItems tree directory ps (e.value "Include") with
    | .error fault => .error fault
    | .ok included =>
      match expandItems tree directory ps (e.value "Remove") with
      | .error fault => .error fault
      | .ok removed =>
        .ok { lists with includes := lists.includes ++ included, removes := lists.removes ++ removed }
  else if e.name = "ProjectReference" then
    .ok { lists with
          references := lists.references ++ referencesIn directory ps (e.value "Include") }
  else .ok lists

/-- A place where a condition was asked, with the item that counts by it if there is one. -/
structure ItemStep where
  remarks : List String
  item : Option Xml.Element

/-- The steps through the item groups of a project. -/
def itemSteps (tree : FileTree) (directory : String) (ps : Properties) (root : Xml.Element) :
    List ItemStep :=
  (root.children.filter (·.name = "ItemGroup")).flatMap fun group =>
    ⟨remarksOn ps group, none⟩ ::
      if counts tree directory ps group then
        group.children.map fun e =>
          ⟨remarksOn ps e, if counts tree directory ps e then some e else none⟩
      else []

/-- The effect of some steps, up to the first item that is refused, with the remarks on the
way. -/
def ItemLists.run (tree : FileTree) (directory : String) (ps : Properties) :
    ItemLists → List ItemStep → List String × Except GlobFault ItemLists
  | lists, [] => ([], .ok lists)
  | lists, step :: rest =>
    match (step.item.map (lists.add tree directory ps)).getD (.ok lists) with
    | .error fault => (step.remarks, .error fault)
    | .ok lists =>
      let (remarks, result) := run tree directory ps lists rest
      (step.remarks ++ remarks, result)

/-! ### Projects -/

/-- The files that a project compiles: each once, without those that are removed anywhere. -/
def compiledFiles (files removes : List String) : List String :=
  (files.filter fun f => !removes.contains f).eraseDups

/-- A project is written in the newer style, which names its kit. -/
def isSdkStyle (root : Xml.Element) : Bool :=
  root.value "Sdk" ≠ "" || root.children.any (·.name = "Sdk")

/-- Evaluates the root element of a project file. -/
def evaluateRoot (tree : FileTree) (path configuration framework : String) (root : Xml.Element) :
    Evaluation :=
  let directory := Path.directory path
  let st := root.children.foldl (PropertyState.apply tree directory framework)
    { properties := builtInProperties path configuration framework }
  let (remarks, lists) :=
    ItemLists.run tree directory st.properties {} (itemSteps tree directory st.properties root)
  { remarks := st.remarks ++ remarks
    outcome :=
      match lists with
      | .error fault => .error (.fault (.pattern fault))
      | .ok lists =>
        let project : ProjectFile :=
          { path
            language := (languageOf? path).getD "Unknown"
            properties := st.properties
            projectReferences := lists.references
            isSdkStyle := isSdkStyle root }
        let defaults :=
          if project.isSdkStyle && project.isTrue "EnableDefaultCompileItems" true then
            project.defaultSources tree
          else []
        .ok { project with compileItems := compiledFiles (defaults ++ lists.includes) lists.removes } }

/-- Evaluates the project file at an absolute path for a configuration and, unless it is empty, a
target framework. -/
def evaluateProject (tree : FileTree) (written configuration framework : String) : Evaluation :=
  let path := Path.normalize written
  let refuse (fault : LoadFault) : Evaluation := ⟨[], .error (.load ⟨path, fault⟩)⟩
  if path.toList.contains (Char.ofNat 0) then ⟨[], .error (.fault .nulInPath)⟩
  else
    match tree.read path with
    | .error fault => refuse (.unreadable fault)
    | .ok content =>
      match Xml.readBytes content with
      | .error (.uselessEncoding cause) => ⟨[], .error (.fault (.encoding cause))⟩
      | .error fault => refuse (.malformedProject fault)
      | .ok root =>
        if root.name = "Project" then evaluateRoot tree path configuration framework root
        else refuse (.wrongRoot root.name)

end ExtensionCensus
