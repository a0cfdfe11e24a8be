import ExtensionCensus.Project.File
import ExtensionCensus.Project.LoadError
import ExtensionCensus.Text.Segment

/-!
# Solution files

The projects that a solution file lists. There are two formats: lines of text, and XML for files
that end in `.slnx`.

* `SolutionEntry` — a project of a solution.
* `lineEntries`, `elementEntries` — the entries of the two formats.
* `readSolution` — the entries of a file whose suffix tells that they are projects, in order.
-/

namespace ExtensionCensus

open Text (Bytes)

/-- A project that a solution lists; only the older format states types and identifiers. -/
structure SolutionEntry where
  name : String
  path : String
  projectType : String := ""
  guid : String := ""
  deriving DecidableEq, Repr

/-! ### Lines -/

/-- The rest of some characters behind a text that they start with. -/
def after? (head : List Char) (cs : List Char) : Option (List Char) :=
  if head.isPrefixOf cs then some (cs.drop head.length) else none

/-- The characters up to the first `c`, and what follows it. -/
def upTo? (c : Char) (cs : List Char) : Option (List Char × List Char) :=
  match cs.dropWhile (· ≠ c) with
  | _ :: rest => some (cs.takeWhile (· ≠ c), rest)
  | [] => none

/-- The rest behind a sign with blanks on both sides. -/
def afterSign? (sign : Char) (cs : List Char) : Option (List Char) :=
  (after? [sign] (cs.dropWhile Text.isBlank)).map (·.dropWhile Text.isBlank)

/-- A text in double quotes, and what follows it. -/
def quotedField? (cs : List Char) : Option (List Char × List Char) :=
  (after? ['"'] cs).bind (upTo? '"')

/-- A text in braces that is not empty, and what follows them. -/
def bracedField? (cs : List Char) : Option (List Char × List Char) :=
  ((after? ['\x7b'] cs).bind (upTo? '\x7d')).filter fun field => !field.1.isEmpty

/-- An entry as it is written. -/
structure WrittenEntry where
  projectType : List Char
  name : List Char
  path : List Char
  guid : List Char

/-- The entry at the start of a line, and what follows it. -/
def entryAt? (cs : List Char) : Option (WrittenEntry × List Char) := do
  let (projectType, cs) ← (after? "Project(\"".toList cs).bind bracedField?
  let (name, cs) ← ((after? "\")".toList cs).bind (afterSign? '=')).bind quotedField?
  let (path, cs) ← (afterSign? ',' cs).bind quotedField?
  let (guid, cs) ← ((afterSign? ',' cs).bind (after? ['"'])).bind bracedField?
  let cs ← after? ['"'] cs
  return ({ projectType, name, path, guid }, cs)

/-- The entries of a text, with `skip` characters of the last one still to pass over. An entry
starts at the start of a line, and may go on over several. -/
def writtenEntries (atLineStart : Bool) : Nat → List Char → List WrittenEntry
  | _, [] => []
  | skip + 1, c :: rest => writtenEntries (c = '\n') skip rest
  | 0, c :: rest =>
    match if atLineStart then entryAt? (c :: rest) else none with
    | some (entry, behind) =>
      entry :: writtenEntries (c = '\n') (rest.length - behind.length) rest
    | none => writtenEntries (c = '\n') 0 rest

/-- The entries of the older format; paths start at `base`. -/
def lineEntries (base : String) (text : List Char) : List SolutionEntry :=
  (writtenEntries true 0 text).map fun e =>
    { name := String.ofList e.name
      path := Path.resolve (String.ofList e.path) base
      projectType := Text.upper (String.ofList e.projectType)
      guid := Text.upper (String.ofList e.guid) }

/-! ### Elements -/

/-- The entries of the newer format; paths start at `base`. -/
def elementEntries (base : String) (root : Xml.Element) : List SolutionEntry :=
  (root.descendants.filter fun e => e.name = "Project" && e.value "Path" ≠ "").map fun e =>
    let path := Path.resolve (e.value "Path") base
    { name := Path.stem path, path }

/-! ### Files -/

/-- The bytes of the mark that may stand in front of a text. -/
def orderMarkBytes : List UInt8 := [0xEF, 0xBB, 0xBF]

/-- The text of a file, without the mark in front of it and with its line ends as line feeds. A
file that holds the beginning of a mark and nothing else is empty. -/
def solutionText (content : Bytes) : Except (Text.EncodingFault × Nat) (List Char) :=
  let bytes := content.toList
  if bytes.length < 3 && bytes.isPrefixOf orderMarkBytes then .ok []
  else
    (Text.decodeStrict (if orderMarkBytes.isPrefixOf bytes then bytes.drop 3 else bytes)).map
      Text.normalizeLines

/-- The entries of a solution file that are projects. -/
def readSolution (tree : FileTree) (written : String) : Except LoadError (List SolutionEntry) :=
  let path := Path.ofParts (Path.parts written)
  let base := Path.parent path
  let isProject (e : SolutionEntry) : Bool := (languageOf? e.path).isSome
  match tree.read path with
  | .error fault => .error ⟨path, .unreadable fault⟩
  | .ok content =>
    match solutionText content with
    | .error (fault, place) => .error ⟨path, .notText fault place⟩
    | .ok text =>
      if Text.lower (Path.suffix path) = ".slnx" then
        match Xml.readText text with
        | .error fault => .error ⟨path, .malformedSolution fault⟩
        | .ok root => .ok ((elementEntries base root).filter isProject)
      else .ok ((lineEntries base text).filter isProject)

end ExtensionCensus
