import ExtensionCensus.File.Glob
import ExtensionCensus.Project.Property

/-!
# Item lists

The files that the text of an item names: entries with semicolons between them, each a path or a
path pattern, with slashes of either kind.

* `expandEntry` — the files of one entry.
* `expandItems` — the files of a text, once its properties are expanded.
-/

namespace ExtensionCensus

/-- An entry is a pattern rather than a path. -/
def isPatternEntry (entry : String) : Bool :=
  entry.toList.any fun c => c = '*' || c = '?'

/-- The files of one entry. A path need not lead to a file; a pattern selects only files. -/
def expandEntry (tree : FileTree) (directory written : String) :
    Except GlobFault (List String) :=
  let entry := Text.replaceChar (Text.trim written) '\\' '/'
  if entry = "" then .ok []
  else if isPatternEntry entry then
    (Glob.ofText entry).map fun g =>
      ((g.sorted tree directory).filter tree.hasFile).map Path.normalize
  else .ok [Path.resolve entry directory]

/-- The files of some entries in order, or the first pattern that is refused. -/
def expandEntries (tree : FileTree) (directory : String) :
    List String → Except GlobFault (List String)
  | [] => .ok []
  | entry :: rest =>
    match expandEntry tree directory entry with
    | .error e => .error e
    | .ok found => (expandEntries tree directory rest).map (found ++ ·)

/-- The files that the text of an item names. -/
def expandItems (tree : FileTree) (directory : String) (ps : Properties) (value : String) :
    Except GlobFault (List String) :=
  expandEntries tree directory (Text.segments ';' (ps.expand value))

end ExtensionCensus
