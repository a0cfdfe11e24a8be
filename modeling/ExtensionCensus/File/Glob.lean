import ExtensionCensus.File.Tree
import ExtensionCensus.File.Wildcard

/-!
# Path patterns

Patterns for paths below a directory: plain segments, wildcards for one segment, and `**` for any
number of directories.

* `Glob`, `Glob.ofText` — a pattern, and its reading. A pattern must not be empty or absolute,
  and `**` must be a segment of its own.
* `Glob.select` — what a pattern selects below a directory.
* `Glob.sorted` — the same, sorted segment by segment.
-/

namespace ExtensionCensus

/-- Why a pattern is refused. One without segments may still end in a slash. -/
inductive GlobFault where
  | empty
  | notRelative
  | partialDescent
  | noSegments
  | onlySlash
  deriving DecidableEq, Repr

/-- The wording of a refusal. -/
def GlobFault.message : GlobFault → String
  | .empty => "Unacceptable pattern: ''"
  | .notRelative => "Non-relative patterns are unsupported"
  | .partialDescent => "Invalid pattern: '**' can only be an entire path component"
  | .noSegments => "tuple index out of range"
  | .onlySlash => "'_TerminatingSelector' object has no attribute 'select_from'"

namespace Glob

/-- A segment of a pattern. -/
inductive Part where
  | name (text : String)
  | wildcard (pattern : Wildcard)
  | descend
  deriving DecidableEq, Repr

/-- Some characters hold two stars in a row. -/
def hasTwoStars : List Char → Bool
  | '*' :: '*' :: _ => true
  | _ :: rest => hasTwoStars rest
  | [] => false

/-- The part that a segment writes. -/
def Part.ofText (segment : String) : Except GlobFault Part :=
  if segment = "**" then .ok .descend
  else if hasTwoStars segment.toList then .error .partialDescent
  else if Wildcard.isWritten segment then .ok (.wildcard (.ofText segment))
  else .ok (.name segment)

/-- The parts that some segments write, or what is wrong with the first one that is refused. -/
def readParts : List String → Except GlobFault (List Part)
  | [] => .ok []
  | segment :: rest =>
    match Part.ofText segment with
    | .error e => .error e
    | .ok part => (readParts rest).map (part :: ·)

end Glob

/-- A pattern for paths. Behind a last slash only directories count. -/
structure Glob where
  parts : List Glob.Part
  directoriesOnly : Bool
  deriving DecidableEq, Repr

namespace Glob

/-- The pattern that a text writes. -/
def ofText (text : String) : Except GlobFault Glob :=
  if text = "" then .error .empty
  else if Text.startsWith text "/" then .error .notRelative
  else if (Path.parts text).isEmpty then
    .error (if Text.endsIn text "/" then .onlySlash else .noSegments)
  else (readParts (Path.parts text)).map fun parts =>
    { parts, directoriesOnly := Text.endsIn text "/" }

/-! ### Selection -/

variable (tree : FileTree)

/-- The directories at or below a path. -/
def directoriesFrom (path : String) : List String :=
  match tree.lookup path with
  | .ok e => e.directories path
  | .error _ => []

/-- What some parts select below the directory at `path`. What more parts follow after must be a
directory. -/
def selectParts (directoriesOnly : Bool) : List Part → String → List String
  | [], path => [path]
  | .name text :: rest, path =>
    let found := Path.join path text
    let isFound :=
      if directoriesOnly || !rest.isEmpty then tree.hasDirectory found else tree.contains found
    if isFound then selectParts directoriesOnly rest found else []
  | .wildcard pattern :: rest, path =>
    ((tree.childrenAt path).filter fun c =>
      (!(directoriesOnly || !rest.isEmpty) || c.entry.isDirectory) &&
        pattern.accepts c.name).flatMap fun c =>
          selectParts directoriesOnly rest (Path.join path c.name)
  | .descend :: rest, path =>
    ((directoriesFrom tree path).flatMap (selectParts directoriesOnly rest)).eraseDups

/-- What a pattern selects below a directory; below anything else it selects nothing. -/
def select (g : Glob) (directory : String) : List String :=
  let base := Path.ofParts (Path.parts directory)
  if tree.hasDirectory base then selectParts tree g.directoriesOnly g.parts base else []

/-- What a pattern selects below a directory, sorted segment by segment. -/
def sorted (g : Glob) (directory : String) : List String :=
  (g.select tree directory).mergeSort fun a b => Path.notAfter (Path.parts a) (Path.parts b)

end Glob

end ExtensionCensus
