import ExtensionCensus.File.Glob

/-!
# Finding solutions

* `discoverSolutions` — the solution files that a pattern selects below a directory.
-/

namespace ExtensionCensus

/-- The solution files that a pattern selects below a directory, sorted segment by segment. There
are none where there is no directory, whatever the pattern. -/
def discoverSolutions (tree : FileTree) (directory pattern : String) :
    Except GlobFault (List String) :=
  if tree.hasDirectory directory then
    (Glob.ofText pattern).map fun g =>
      (((g.select tree directory).filter tree.hasFile).map Path.normalize).mergeSort fun a b =>
        Path.notAfter (Path.parts a) (Path.parts b)
  else .ok []

end ExtensionCensus
