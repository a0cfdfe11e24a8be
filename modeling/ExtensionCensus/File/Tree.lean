import ExtensionCensus.File.Path
import ExtensionCensus.Text.Utf8

/-!
# File trees

Directories with files in them, as a run finds them, and what a path leads to.

* `Entry` — a file with its content, or a directory with its children.
* `Entry.insert` — the tree with an entry put at some segments.
* `Entry.follow`, `Entry.lookup` — what a path leads to. Every segment but the last must lead to
  a directory, also in front of `.` and `..`.
* `Entry.read` — the content of the file at a path, or why there is none.
* `Entry.write` — the tree with a content put into a file of a directory.
* `Entry.files`, `Entry.directories` — everything below a directory.
-/

namespace ExtensionCensus

open Text (Bytes)

/-! ### Entries -/

mutual

/-- A file or a directory. -/
inductive Entry where
  | file (content : Bytes)
  | directory (children : List Child)

/-- An entry under its name. -/
inductive Child where
  | mk (name : String) (entry : Entry)

end

instance : Inhabited Entry := ⟨.directory []⟩

/-- The name of a child. -/
def Child.name : Child → String
  | .mk name _ => name

/-- The entry of a child. -/
def Child.entry : Child → Entry
  | .mk _ entry => entry

/-- The tree of everything that a run can reach, from the root `/`. -/
abbrev FileTree := Entry

namespace Entry

/-- The children of a directory; a file has none. -/
def children : Entry → List Child
  | .file _ => []
  | .directory cs => cs

/-- The entry is a directory. -/
def isDirectory : Entry → Bool
  | .file _ => false
  | .directory _ => true

/-- The child of a name. -/
def child? (e : Entry) (name : String) : Option Entry :=
  (e.children.find? (·.name = name)).map (·.entry)

/-- A directory with the child of a name replaced or added. -/
def setChild (name : String) (entry : Entry) : List Child → List Child
  | [] => [.mk name entry]
  | c :: rest => if c.name = name then .mk name entry :: rest else c :: setChild name entry rest

/-- The tree with an entry put at some segments; directories that are missing on the way are
added. A directory that is there already stays as it is. -/
def insert : Entry → List String → Entry → Entry
  | old, [], new => if new.isDirectory && old.isDirectory then old else new
  | e, name :: rest, new =>
    .directory (setChild name (insert ((e.child? name).getD default) rest new) e.children)

/-! ### Following paths -/

/-- Why there is nothing to read at a path. -/
inductive Fault where
  | missing
  | isDirectory
  | notDirectory
  deriving DecidableEq, Repr

/-- The wording of a fault. -/
def Fault.message : Fault → String
  | .missing => "No such file or directory"
  | .isDirectory => "Is a directory"
  | .notDirectory => "Not a directory"

/-- Follows segments from an entry; `above` holds the directories that contain it, nearest
first. Above the root there is only the root. -/
def follow : List Entry → Entry → List String → Except Fault Entry
  | _, e, [] => .ok e
  | above, e, s :: rest =>
    if !e.isDirectory then .error .notDirectory
    else if s = "" || s = "." then follow above e rest
    else if s = ".." then
      match above with
      | [] => follow [] e rest
      | outer :: further => follow further outer rest
    else
      match e.child? s with
      | some inner => follow (e :: above) inner rest
      | none => .error .missing

/-- What an absolute path leads to. -/
def lookup (root : FileTree) (path : String) : Except Fault Entry :=
  follow [] root ((Text.segments '/' path).drop 1)

/-- Something is at a path. -/
def contains (root : FileTree) (path : String) : Bool :=
  match root.lookup path with
  | .ok _ => true
  | .error _ => false

/-- A file is at a path. -/
def hasFile (root : FileTree) (path : String) : Bool :=
  match root.lookup path with
  | .ok e => !e.isDirectory
  | .error _ => false

/-- A directory is at a path. -/
def hasDirectory (root : FileTree) (path : String) : Bool :=
  match root.lookup path with
  | .ok e => e.isDirectory
  | .error _ => false

/-- The children of the directory at a path; there are none if there is no such directory. -/
def childrenAt (root : FileTree) (path : String) : List Child :=
  match root.lookup path with
  | .ok e => e.children
  | .error _ => []

/-- The content of the file at a path, or why there is none. -/
def read (root : FileTree) (path : String) : Except Fault Bytes :=
  match root.lookup path with
  | .ok (.file content) => .ok content
  | .ok (.directory _) => .error .isDirectory
  | .error e => .error e

/-- The names of the directories that a path leads through from the root, if it leads anywhere. -/
def place (path : String) : List String :=
  Path.collapseSegments true [] ((Text.segments '/' path).drop 1)

/-- The tree with a content put into the file of a name in the directory at a path, whatever the
file held before, or why that cannot be done. A missing file is made, a missing directory is
not. -/
def write (root : FileTree) (path name : String) (content : Bytes) : Except Fault FileTree :=
  match root.lookup path with
  | .error fault => .error fault
  | .ok (.file _) => .error .notDirectory
  | .ok (.directory cs) =>
    match (directory cs).child? name with
    | some (.directory _) => .error .isDirectory
    | _ => .ok (root.insert (place path ++ [name]) (.file content))

/-! ### Everything below a directory -/

mutual

/-- The files below an entry that is at `path`. -/
def files (path : String) : Entry → List String
  | .file _ => [path]
  | .directory cs => filesOf path cs

/-- The files below the children of the directory at `path`. -/
def filesOf (path : String) : List Child → List String
  | [] => []
  | .mk name e :: rest => files (Path.join path name) e ++ filesOf path rest

end

mutual

/-- The directories below an entry that is at `path`, and the entry itself if it is one. -/
def directories (path : String) : Entry → List String
  | .file _ => []
  | .directory cs => path :: directoriesOf path cs

/-- The directories below the children of the directory at `path`. -/
def directoriesOf (path : String) : List Child → List String
  | [] => []
  | .mk name e :: rest => directories (Path.join path name) e ++ directoriesOf path rest

end

end Entry

end ExtensionCensus
