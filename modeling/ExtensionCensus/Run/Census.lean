import ExtensionCensus.Report.Table
import ExtensionCensus.Run.Discovery
import ExtensionCensus.Run.ExitCode
import ExtensionCensus.Run.Message
import ExtensionCensus.Run.Settings

/-!
# The census

A run: it finds the solutions of a directory, loads their projects, classifies the extension
methods of each unit once, and reports what it found.

* `Census` — what a run has come to so far.
* `Census.classify`, `Census.addProject`, `Census.addSolution` — its steps. Whatever cannot be
  loaded, compiled or classified is noted and passed over.
* `Census.typeReport`, `Census.methodReport` — the texts of the two reports.
* `survey` — the run up to its reports. Only a faulty pattern for solution files stops it.
* `takeCensus` — the census of a run whose reports are written.
-/

namespace ExtensionCensus

open Source (Parser)

/-- What a run has come to. -/
structure Census where
  solutions : List String
  processed : List ProjectUnit := []
  duplicates : Nat := 0
  loadFailures : List String := []
  unavailable : List String := []
  defects : List String := []
  results : List UnitResult := []
  messages : List RunMessage := []

namespace Census

/-! ### Steps -/

/-- The census with more messages. -/
def tell (c : Census) (messages : List RunMessage) : Census :=
  { c with messages := c.messages ++ messages }

/-- The effect of an assembly: its containers are added to the results, unless one of them cannot
be classified. A unit without containers adds nothing. -/
def classify (c : Census) (name : String) (unit : ProjectUnit) (a : Assembly) : Census :=
  match a.classify with
  | .error cause =>
    { c with defects := c.defects ++ [name] }.tell [.classificationFailed name cause]
  | .ok containers =>
    let methods := (containers.flatMap (·.methods)).length
    let c := c.tell [.classified methods containers.length, .found containers.length]
    if containers.isEmpty then c
    else { c with results := c.results ++ [{ unit, assembly := a.identity, containers }] }

/-- The census with a project noted as one without an assembly. -/
def lose (c : Census) (name : String) (m : RunMessage) : Census :=
  { c with unavailable := c.unavailable ++ [name] }.tell [m]

/-- The effect of a unit that was not seen before. -/
def process (tree : FileTree) (parse : Parser) (c : Census) (unit : ProjectUnit) (p : Project) :
    Census :=
  let (messages, result) := p.compile tree parse
  let c := { c with processed := c.processed ++ [unit] }.tell
    (.processing p.name :: messages.map .source)
  match result with
  | .error (.unreadable project document cause) =>
    c.lose p.name
      (.notCompiled p.name (some (CompileFault.unreadable project document cause).message))
  | .error (.binding cause) => c.lose p.name (.compilationFailed p.name cause)
  | .ok none => c.lose p.name (.notCompiled p.name none)
  | .ok (some a) => c.classify p.name unit a

/-- The effect of a project. Reference assemblies and units that were seen before are passed
over. -/
def addProject (tree : FileTree) (parse : Parser) (c : Census) (p : Project) : Census :=
  if isReferenceAssembly p.filePath then c.tell [.skipped p.filePath]
  else
    let unit := resolveUnit p.name p.filePath p.outputPath
    if c.processed.any unit.same then { c with duplicates := c.duplicates + 1 }
    else c.process tree parse unit p

/-- The effect of a solution that is loaded. -/
def addLoaded (tree : FileTree) (parse : Parser) (c : Census) (events : List ProgressEvent)
    (s : Solution) : Census :=
  let resolved := (events.foldl FrameworkMap.add []).map fun entry =>
    RunMessage.resolved entry.1 entry.2
  let c := c.tell (resolved ++ s.failures.map .projectFailed)
  s.projects.foldl (addProject tree parse)
    { c with loadFailures := c.loadFailures ++ s.failures.map (·.path) }

/-- The effect of a solution file. -/
def addSolution (tree : FileTree) (parse : Parser) (configuration : String) (c : Census)
    (path : String) : Census :=
  let opening := openSolution tree configuration path
  let c := c.tell (.loading path :: opening.messages.map .load)
  match opening.outcome with
  | .error (.load e) =>
    { c with loadFailures := c.loadFailures ++ [path] }.tell [.solutionRefused path e]
  | .error (.fault f) =>
    { c with loadFailures := c.loadFailures ++ [path] }.tell [.solutionFailed path f]
  | .ok s => c.addLoaded tree parse (progressEvents opening.messages) s

/-! ### Reports -/

/-- The text of the report on containers. -/
def typeReport (c : Census) : String := (renderTables c.results).types

/-- The text of the report on methods. -/
def methodReport (c : Census) : String := (renderTables c.results).methods

/-- The two reports under the names of their files. -/
def reports (c : Census) : List (String × String) :=
  [(typeReportName, c.typeReport), (methodReportName, c.methodReport)]

/-- The number of rows in the report on containers. -/
def typeRowCount (c : Census) : Nat := (typeRows c.results).length

/-- The number of rows in the report on methods. -/
def methodRowCount (c : Census) : Nat := (methodRows c.results).length

/-- The path of a report in a directory. -/
def reportPath (directory name : String) : String :=
  Path.join (Path.ofParts (Path.parts directory)) name

/-- The messages that tell of the reports written to a directory. -/
def writeMessages (c : Census) (directory : String) : List RunMessage :=
  let written := renderTables c.results
  [.wroteTypes written.typeCount (reportPath directory typeReportName),
    .wroteMethods written.methodCount (reportPath directory methodReportName)]

/-- The census after its reports were written to a directory. -/
def close (c : Census) (directory : String) : Census :=
  c.tell (c.writeMessages directory)

/-- The code with which a run ends: a run with a unit that could not be classified has partial
results. -/
def exitCode (c : Census) : Int :=
  if c.defects.isEmpty then exitSuccess else exitPartial

end Census

/-! ### Runs -/

/-- What a run over the solutions of a directory comes to before it writes its reports. -/
def survey (tree : FileTree) (parse : Parser) (settings : Settings) (search : String) :
    Except GlobFault Census :=
  let directory := Path.normalize search
  match discoverSolutions tree directory settings.solutionPattern with
  | .error fault => .error fault
  | .ok solutions =>
    let start : Census :=
      { solutions, messages := if solutions.isEmpty then [.noSolutions directory] else [] }
    .ok (solutions.foldl (Census.addSolution tree parse settings.configuration) start)

/-- The census of a run over the solutions of a directory, which writes its reports to
another. -/
def takeCensus (tree : FileTree) (parse : Parser) (settings : Settings)
    (search output : String) : Except GlobFault Census :=
  (survey tree parse settings search).map (·.close output)

end ExtensionCensus
