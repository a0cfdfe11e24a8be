import ExtensionCensus.Text.Blank
import ExtensionCensus.Text.Segment

/-!
# Paths

Paths as texts with slashes, taken apart into segments.

* `normalize` — the path without empty segments, `.` and, where something precedes it, `..`.
* `join`, `resolve` — a path below another; `resolve` takes slashes of either kind.
* `directory`, `fileName`, `stem`, `suffix` — the parts of a path.
* `parts`, `ofParts` — the segments that name files and directories; two paths are compared
  segment by segment.
-/

namespace ExtensionCensus.Path

/-! ### Normal form -/

/-- Removes empty segments, `.`, and each `..` together with the segment before it. In front of
a relative path `..` stays, at the root it vanishes; `done` holds what is kept so far, in
reverse. -/
def collapseSegments (absolute : Bool) : List String → List String → List String
  | done, [] => done.reverse
  | done, s :: rest =>
    if s = "" || s = "." then collapseSegments absolute done rest
    else if s = ".." then
      match done with
      | [] => collapseSegments absolute (if absolute then [] else [s]) rest
      | last :: before =>
        if last = ".." then collapseSegments absolute (s :: done) rest
        else collapseSegments absolute before rest
    else collapseSegments absolute (s :: done) rest

/-- The slashes that a path starts with; three or more count as one. -/
def rootOf (path : String) : String :=
  match path.toList with
  | '/' :: '/' :: '/' :: _ => "/"
  | '/' :: '/' :: _ => "//"
  | '/' :: _ => "/"
  | _ => ""

/-- The path in normal form; the empty path is `.`. -/
def normalize (path : String) : String :=
  let root := rootOf path
  let text := root ++ "/".intercalate (collapseSegments (root ≠ "") [] (Text.segments '/' path))
  if text = "" then "." else text

/-- The path `path` below `base`, unless it is absolute. -/
def join (base path : String) : String :=
  if Text.startsWith path "/" then path
  else if base = "" || Text.endsIn base "/" then base ++ path
  else base ++ "/" ++ path

/-- The normal form of a path below `base`, with slashes of either kind and without blanks at
its ends. -/
def resolve (path base : String) : String :=
  normalize (join base (Text.replaceChar (Text.trim path) '\\' '/'))

/-! ### Parts of a path -/

/-- The segments of a path that name files or directories, behind its root if it has one. -/
def parts (path : String) : List String :=
  let root := rootOf path
  (if root = "" then [] else [root]) ++
    (Text.segments '/' path).filter fun s => s ≠ "" && s ≠ "."

/-- The path of some parts. -/
def ofParts (parts : List String) : String :=
  match parts with
  | [] => "."
  | root :: rest =>
    if Text.startsWith root "/" then root ++ "/".intercalate rest
    else "/".intercalate parts

/-- The parts of `a` are not behind those of `b`. -/
def notAfter (a b : List String) : Bool :=
  decide (¬ b < a)

/-- What follows the last slash. -/
def fileName (path : String) : String :=
  String.ofList (path.toList.reverse.takeWhile (· ≠ '/')).reverse

/-- What precedes the last slash, without slashes at its end unless it has nothing else. -/
def directory (path : String) : String :=
  let head := (path.toList.reverse.dropWhile (· ≠ '/')).reverse
  if head.all (· = '/') then String.ofList head
  else String.ofList (head.reverse.dropWhile (· = '/')).reverse

/-- The last segment that names a file or directory. -/
def lastName (path : String) : String :=
  match (parts path).getLast? with
  | some name => if Text.startsWith name "/" then "" else name
  | none => ""

/-- A name cut before its last dot, unless the dot is its first or last character. -/
def splitName (name : String) : String × String :=
  let back := name.toList.reverse
  match back.dropWhile (· ≠ '.') with
  | [] => (name, "")
  | _ :: front =>
    let tail := back.takeWhile (· ≠ '.')
    if front.isEmpty || tail.isEmpty then (name, "")
    else (String.ofList front.reverse, String.ofList ('.' :: tail.reverse))

/-- The last name of a path without its suffix. -/
def stem (path : String) : String :=
  (splitName (lastName path)).1

/-- The suffix of the last name of a path, with its dot. -/
def suffix (path : String) : String :=
  (splitName (lastName path)).2

/-- The path without its last part. -/
def parent (path : String) : String :=
  match parts path with
  | [] => "."
  | [root] => if Text.startsWith root "/" then root else "."
  | ps => ofParts ps.dropLast

end ExtensionCensus.Path
