import ExtensionCensus.Run.CommandLine
import ExtensionCensus.Source.Listing

/-!
# The command

The program itself: it takes a picture of the directories that it is asked about, runs the command
on it, and writes what the command says.

The grammar of C# is no part of the program. The tree of a source `Name.cs` is read from the listing
`Name.cs.tree` beside it; a source without one counts as a file that declares nothing.
-/

namespace ExtensionCensus

open Source (Parsed Parser)

/-- The directory at a path on disk, with everything below it. -/
partial def readDirectory (path : String) : IO Entry := do
  let mut children : List Child := []
  for found in ← (← IO.FS.realPath path).readDir do
    let inner := Path.join path found.fileName
    if ← found.path.isDir then
      children := .mk found.fileName (← readDirectory inner) :: children
    else
      children := .mk found.fileName (.file (← IO.FS.readBinFile inner).data) :: children
  return .directory children.reverse

/-- A picture of what is on disk with one more directory in it, if there is such a directory. -/
def addDirectory (tree : FileTree) (path : String) : IO FileTree := do
  try
    let entry ← readDirectory path
    return tree.insert ((Path.parts path).drop 1) entry
  catch _ => return tree

/-- The sources of a picture that have a listing beside them. -/
def listedSources (tree : FileTree) : List (Text.Bytes × Parsed) :=
  (tree.files "/").filterMap fun path =>
    match tree.read path, tree.read (path ++ ".tree") with
    | .ok source, .ok listing =>
      (Parsed.ofListing? ((Text.segments '\n' (Text.decodeLossy listing)).filter
        fun line => Text.trim line ≠ "")).map (sourceBytes source, ·)
    | _, _ => none

/-- The parser that knows the listed sources of a picture. -/
def listingParser (tree : FileTree) : Parser :=
  let known := listedSources tree
  fun bytes => ((known.find? (·.1 == bytes)).map (·.2)).getD (.blank bytes.size)

/-- Runs the command on a picture, and again on a larger one as long as it asks for projects that
the picture does not show. `remaining` bounds how often. -/
def runOnDisk (current : String) (environment : List (String × String)) (args : List String) :
    Nat → FileTree → IO (Except UsageError CommandResult)
  | remaining, tree => do
    let result := runCommand tree (listingParser tree) (Elapsed.of 0 0 0).text current environment args
    match remaining, result with
    | remaining + 1, .ok r =>
      let larger ← (r.outside tree).foldlM addDirectory tree
      if (larger.files "/").length = (tree.files "/").length then return result
      else runOnDisk current environment args remaining larger
    | _, _ => return result

end ExtensionCensus

open ExtensionCensus in
/-- The program. -/
def main (args : List String) : IO UInt32 := do
  let current := Path.normalize (← IO.currentDir).toString
  let environment ← settingNames.filterMapM fun name => do
    return (← IO.getEnv name).map (name, ·)
  let asked := (args.filter fun arg => !Text.startsWith arg "-").map (Path.join current)
  let tree ← (current :: asked.map Path.normalize).foldlM addDirectory default
  match ← runOnDisk current environment args 64 tree with
  | .error e =>
    (← IO.getStderr).putStr (usageLine ++ "\nError: " ++ e.message ++ "\n")
    return 2
  | .ok r =>
    if let some c := r.census then
      for (name, text) in c.reports do
        IO.FS.writeFile (Census.reportPath current name) text
    (← IO.getStderr).putStr r.errors
    (← IO.getStdout).putStr r.output
    return r.exitCode.toNat.toUInt32
