import ExtensionCensus.Project.Solution
import ExtensionCensus.Workspace.Graph
import ExtensionCensus.Workspace.Progress
import ExtensionCensus.Workspace.Project

/-!
# Loading solutions

A solution is loaded in two passes. The first evaluates every project that can be reached from the
entries and draws the graph of references; the second builds each of them for its target
frameworks, in the order of depth-first searches from the entries.

* `LoadMessage` — what is told on the way.
* `Exploration.run` — the first pass.
* `Flavours.build` — the projects of one project file.
* `openSolution` — both passes. A project that cannot be loaded becomes a failure of the solution;
  a faulty pattern ends the loading.
-/

namespace ExtensionCensus

/-! ### What is told -/

/-- What is told while a solution is loaded. -/
inductive LoadMessage where
  | unclear (term : String)
  | evaluated (path framework : String) (items references : Nat)
  | progress (event : ProgressEvent)
  | opened (path : String) (projects failures : Nat)
  deriving DecidableEq, Repr

/-- What is told of an evaluation. -/
def Evaluation.messages (e : Evaluation) (framework : String) : List LoadMessage :=
  e.remarks.map .unclear ++
    match e.outcome with
    | .ok p =>
      [.evaluated p.path framework p.compileItems.length p.projectReferences.length]
    | .error _ => []

/-- A project that could not be loaded, and why. -/
structure LoadFailure where
  path : String
  message : String
  deriving DecidableEq, Repr

/-! ### First pass -/

/-- What the first pass has found so far. -/
structure Exploration where
  graph : ReferenceGraph := {}
  loaded : List (String × ProjectFile) := []
  failures : List LoadFailure := []
  messages : List LoadMessage := []

namespace Exploration

/-- A path needs no further look: its file is loaded already, or cannot be. -/
def isSettled (x : Exploration) (path : String) : Bool :=
  (x.loaded.lookup path).isSome || x.graph.isFailed path

/-- The exploration after an evaluation that has no result. -/
def reject (x : Exploration) (path : String) (e : LoadError) : Exploration :=
  { x with
    graph := x.graph.fail path
    failures := x.failures ++ [⟨path, e.message⟩] }

/-- The exploration after an evaluation that has one. -/
def accept (x : Exploration) (path : String) (file : ProjectFile) : Exploration :=
  { x with
    graph := file.projectReferences.foldl (·.addReference path ·) x.graph
    loaded := x.loaded ++ [(path, file)]
    messages := x.messages ++ [.progress { step := .evaluate, path }] }

/-- The exploration with a path looked at: a new node, and the messages of its evaluation. -/
def visit (x : Exploration) (path : String) (e : Evaluation) : Exploration :=
  { x with graph := x.graph.add path, messages := x.messages ++ e.messages "" }

/-- Explores the paths of a queue and what they lead to, breadth first, up to the first fault that
is none of loading. Only files have an evaluation with a result, and `remaining` holds those that
were not evaluated yet. -/
def run (evaluate : String → Evaluation) (remaining : List String) (x : Exploration) :
    List String → Exploration × Option EvaluationFault
  | [] => (x, none)
  | path :: rest =>
    if x.isSettled path then run evaluate remaining x rest
    else
      let e := evaluate path
      match e.outcome with
      | .error (.fault fault) => (x.visit path e, some fault)
      | .error (.load error) => run evaluate remaining ((x.visit path e).reject path error) rest
      | .ok file =>
        let x := (x.visit path e).accept path file
        if _h : path ∈ remaining then
          run evaluate (remaining.erase path) x (rest ++ file.projectReferences)
        else run evaluate remaining x rest
termination_by queue => (remaining.length, queue.length)
decreasing_by
  all_goals first
    | exact Prod.Lex.left _ _ (ReferenceGraph.length_erase_lt _h)
    | exact Prod.Lex.right _ (by simp)

end Exploration

/-! ### Second pass -/

/-- The projects built so far. -/
structure Flavours where
  projects : List Project := []
  failures : List LoadFailure := []
  messages : List LoadMessage := []

/-- The project of an evaluation for one of several target frameworks, or for the only one. -/
def Project.ofFile (file : ProjectFile) (framework : Option String) (isOneOfSeveral : Bool) :
    Project :=
  let stem := Path.stem file.path
  { name := if isOneOfSeveral then stem ++ " (" ++ framework.getD "" ++ ")" else stem
    filePath := file.path
    outputPath := file.outputPath
    language := file.language
    identity := { name := file.assemblyName, version := file.version }
    framework
    documents := file.compileItems
    projectReferences := file.projectReferences
    implicitUsings := file.implicitUsings }

namespace Flavours

/-- The flavours with one more project, and the events of building it. -/
def push (x : Flavours) (path : String) (p : Project) : Flavours :=
  let event (step : LoadStep) : LoadMessage := .progress { step, path, framework := p.framework }
  { x with
    projects := x.projects ++ [p]
    messages := x.messages ++ [event .build, event .resolve] }

/-- The flavours with more messages. -/
def tell (x : Flavours) (messages : List LoadMessage) : Flavours :=
  { x with messages := x.messages ++ messages }

/-- Builds a project file for several frameworks, evaluating it again for each, up to the first
fault that is none of loading. -/
def buildEach (evaluate : String → String → Evaluation) (file : ProjectFile) (x : Flavours) :
    List String → Flavours × Option EvaluationFault
  | [] => (x, none)
  | framework :: rest =>
    let e := evaluate file.path framework
    let x := x.tell (e.messages framework)
    match e.outcome with
    | .error (.fault fault) => (x, some fault)
    | .error (.load error) =>
      buildEach evaluate file
        { x with failures := x.failures ++ [⟨file.path, error.message⟩] } rest
    | .ok flavour =>
      buildEach evaluate file (x.push file.path (.ofFile flavour (some framework) true)) rest

/-- Builds a project file for its target frameworks. -/
def build (evaluate : String → String → Evaluation) (file : ProjectFile) (x : Flavours) :
    Flavours × Option EvaluationFault :=
  match file.targetFrameworks with
  | [] => (x.push file.path (.ofFile file none false), none)
  | [framework] => (x.push file.path (.ofFile file (some framework) false), none)
  | frameworks => x.buildEach evaluate file frameworks

/-- Builds some project files in order. -/
def buildAll (evaluate : String → String → Evaluation) (x : Flavours) :
    List ProjectFile → Flavours × Option EvaluationFault
  | [] => (x, none)
  | file :: rest =>
    match x.build evaluate file with
    | (x, some fault) => (x, some fault)
    | (x, none) => buildAll evaluate x rest

end Flavours

/-! ### Solutions -/

/-- A solution that is loaded. -/
structure Solution where
  path : String
  projects : List Project
  failures : List LoadFailure
  graph : ReferenceGraph

/-- What came of opening a solution. -/
structure Opening where
  messages : List LoadMessage
  outcome : Except EvaluationError Solution

/-- The paths of the files in a tree, in each spelling that a normal form leaves. -/
def filePaths (tree : FileTree) : List String :=
  tree.files "/" ++ (tree.files "/").map ("/" ++ ·)

/-- The loaded files in the order of depth-first searches from the entries, each once. -/
def Exploration.loadOrder (x : Exploration) (entries : List String) : List ProjectFile :=
  ((entries.flatMap x.graph.search).eraseDups).filterMap fun path => x.loaded.lookup path

/-- Loads the projects of some entries. -/
def loadEntries (tree : FileTree) (configuration path : String) (entries : List String) :
    Opening :=
  let start : Exploration := { graph := entries.foldl (·.add ·) {} }
  let evaluate (path framework : String) : Evaluation :=
    evaluateProject tree path configuration framework
  match start.run (evaluate · "") (filePaths tree) entries with
  | (x, some fault) => ⟨x.messages, .error (.fault fault)⟩
  | (x, none) =>
    let loaded : Flavours := { failures := x.failures, messages := x.messages }
    match loaded.buildAll evaluate (x.loadOrder entries) with
    | (f, some fault) => ⟨f.messages, .error (.fault fault)⟩
    | (f, none) =>
      ⟨f.messages ++ [.opened path f.projects.length f.failures.length],
        .ok { path, projects := f.projects, failures := f.failures, graph := x.graph }⟩

/-- Opens the solution file at an absolute path for a configuration. -/
def openSolution (tree : FileTree) (configuration written : String) : Opening :=
  let path := Path.normalize written
  match readSolution tree path with
  | .error e => ⟨[], .error (.load e)⟩
  | .ok entries => loadEntries tree configuration path (entries.map (·.path))

/-- The events among some messages. -/
def progressEvents (messages : List LoadMessage) : List ProgressEvent :=
  messages.filterMap fun
    | .progress e => some e
    | _ => none

/-! ### Workspaces -/

/-- A workspace: a configuration, and the solution that is open, if one is. -/
structure Workspace where
  configuration : String := "Debug"
  current : Option Solution := none

/-- The workspace without an open solution. -/
def Workspace.close (w : Workspace) : Workspace :=
  { w with current := none }

/-- The workspace after opening a solution. If that fails, what was open before stays open. -/
def Workspace.openSolution (w : Workspace) (tree : FileTree) (path : String) :
    Workspace × Opening :=
  let opening := ExtensionCensus.openSolution tree w.configuration path
  match opening.outcome with
  | .ok s => ({ w with current := some s }, opening)
  | .error _ => (w, opening)

end ExtensionCensus
