import ExtensionCensus.File.Tree
import ExtensionCensus.Project.File

/-!
# Default sources

The source files that a project compiles without naming them: those below its directory, unless
they lie in an output directory or in one whose name starts with a dot.

* `sourcesFrom` — the source files at and below a directory, sorted: in each directory first its
  files, then what lies in its directories.
* `ProjectFile.outputNames`, `ProjectFile.defaultSources` — the directories to leave out, and the
  sources of a project.
-/

namespace ExtensionCensus

/-- A file name is that of a source. -/
def isSourceName (name : String) : Bool :=
  Text.endsIn (Text.lower name) ".cs"

/-- The names of the sources among some children, sorted. -/
def sourceNames (cs : List Child) : List String :=
  ((cs.filter fun c => !c.entry.isDirectory && isSourceName c.name).map (·.name)).mergeSort

mutual

/-- The sources at and below the directory at `path`. -/
def sourcesFrom (path : String) : Entry → List String
  | .file _ => []
  | .directory cs =>
    (sourceNames cs).map (Path.join path) ++
      ((sourcesBelow path cs).mergeSort fun a b => decide (a.1 ≤ b.1)).flatMap (·.2)

/-- The sources of each directory among some children, under the directory's name. -/
def sourcesBelow (path : String) : List Child → List (String × List String)
  | [] => []
  | .mk name e :: rest =>
    if e.isDirectory && !Text.startsWith name "." then
      (name, sourcesFrom (Path.join path name) e) :: sourcesBelow path rest
    else sourcesBelow path rest

end

namespace ProjectFile

/-- The names of the directories that hold what the project compiles to, in lower case. -/
def outputNames (p : ProjectFile) : List String :=
  let configured := ["BaseOutputPath", "BaseIntermediateOutputPath"].map fun name =>
    let path := Text.replaceChar (p.get name) '\\' '/'
    Text.lower ((Text.segments '/' (Text.dropStart path (· = '/'))).headD "")
  ["bin", "obj"] ++ configured.filter (· ≠ "")

/-- The sources that the project compiles without naming them. Output directories lie directly
in its directory. -/
def defaultSources (tree : FileTree) (p : ProjectFile) : List String :=
  match tree.lookup p.directory with
  | .ok (.directory cs) =>
    sourcesFrom p.directory
      (.directory (cs.filter fun c =>
        !c.entry.isDirectory || !p.outputNames.contains (Text.lower c.name)))
  | _ => []

end ProjectFile

end ExtensionCensus
