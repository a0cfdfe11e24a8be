import ExtensionCensus.Project.Framework
import ExtensionCensus.Text.Blank
import ExtensionCensus.Text.Case
import ExtensionCensus.Text.Segment

/-!
# Project units

The identity of a project built for one target framework. A workspace may hand out one project
several times; units tell which of them are the same.

* `ProjectUnit`, `ProjectUnit.key` — path, name and label; paths compare without regard to case.
* `splitDisplayName` — a display name such as `Lib (net9.0)` as name and label.
* `frameworkOfOutput` — the label in the path of a compiled file that is nearest to the file.
* `isReferenceAssembly` — projects that declare nothing of their own.
* `resolveUnit` — the unit of a project.
-/

namespace ExtensionCensus

/-- A project file, its logical name, and the label of a target framework; the label may be
empty. -/
structure ProjectUnit where
  filePath : String
  name : String
  framework : String := ""
  deriving DecidableEq, Repr, Inhabited

/-- What two units have in common when they are the same. -/
def ProjectUnit.key (u : ProjectUnit) : String × String × String :=
  (Text.fold u.filePath, u.name, u.framework)

/-- Two units are the same. -/
def ProjectUnit.same (u v : ProjectUnit) : Bool :=
  u.key = v.key

/-! ### Display names -/

/-- The characters before the last `c` and those behind it, if there is one. -/
def splitLast? (c : Char) (cs : List Char) : Option (List Char × List Char) :=
  let back := cs.reverse
  match back.dropWhile (· ≠ c) with
  | [] => none
  | _ :: front => some (front.reverse, (back.takeWhile (· ≠ c)).reverse)

/-- A display name as logical name and label. The label stands in parentheses at the end; without
one it is empty. -/
def splitDisplayName (display : String) : String × String :=
  match display.toList.reverse with
  | ')' :: back =>
    match splitLast? '(' back.reverse with
    | some (name, label) => (Text.trimRight (String.ofList name), String.ofList label)
    | none => (display, "")
  | _ => (display, "")

/-! ### Output paths -/

/-- The segments of a path, with slashes of either kind between them. -/
def pathSegments (path : String) : List String :=
  Text.segments '/' (Text.replaceChar path '\\' '/')

/-- The label of the directory nearest to a compiled file that names a target framework; empty
if none does. -/
def frameworkOfOutput (path : String) : String :=
  ((((pathSegments path).filter (· ≠ "")).dropLast).reverse.find? isKnownFramework).getD ""

/-- A project that only builds reference assemblies: it lies under a directory `ref`, or nobody
knows where. -/
def isReferenceAssembly (path : String) : Bool :=
  path = "" || (pathSegments path).dropLast.contains "ref"

/-- The unit of a project, from its display name and, if that has no label, its output path. -/
def resolveUnit (displayName filePath outputPath : String) : ProjectUnit :=
  let (name, label) := splitDisplayName displayName
  { filePath, name, framework := if label = "" then frameworkOfOutput outputPath else label }

end ExtensionCensus
