import ExtensionCensus.Run.Census

/-!
# Publication

A run with its last step: the reports of the census are written to files of a directory.

* `writeTexts` — the tree with some texts written to files of a directory.
* `RunFault` — why a run ends without a result.
* `publishCensus` — the whole run, with the tree that it leaves behind.
-/

namespace ExtensionCensus

open Source (Parser)

/-! ### Writing -/

/-- The tree with some texts written in order to files of the directory at a path, or the first
file that cannot be written and why. -/
def writeTexts (path : String) : FileTree → List (String × String) →
    Except (String × Entry.Fault) FileTree
  | tree, [] => .ok tree
  | tree, (name, text) :: rest =>
    match tree.write path name text.toUTF8.data with
    | .error cause => .error (name, cause)
    | .ok tree => writeTexts path tree rest

/-! ### Faults -/

/-- The number that stands for a fault. -/
def Entry.Fault.number : Entry.Fault → Nat
  | .missing => 2
  | .notDirectory => 20
  | .isDirectory => 21

/-- The name for a fault. -/
def Entry.Fault.errorName : Entry.Fault → ErrorName
  | .missing => { name := "FileNotFoundError" }
  | .notDirectory => { name := "NotADirectoryError" }
  | .isDirectory => { name := "IsADirectoryError" }

/-- Why a run ends without a result: the pattern for solution files is refused, or a report cannot
be written, behind what was told before. -/
inductive RunFault where
  | pattern (cause : GlobFault)
  | report (told : List RunMessage) (path : String) (cause : Entry.Fault)

/-- The wording of a fault. -/
def RunFault.message : RunFault → String
  | .pattern cause => cause.message
  | .report _ path cause =>
    "[Errno " ++ toString cause.number ++ "] " ++ cause.message ++ ": " ++ Text.quote path

/-- The name for a fault. -/
def RunFault.errorName : RunFault → ErrorName
  | .pattern cause => cause.errorName
  | .report _ _ cause => cause.errorName

/-! ### Runs -/

/-- A run over the solutions of a directory, which writes its reports to another: its census, and
the tree with the reports in it. -/
def publishCensus (tree : FileTree) (parse : Parser) (settings : Settings)
    (search output : String) : Except RunFault (Census × FileTree) :=
  match survey tree parse settings search with
  | .error cause => .error (.pattern cause)
  | .ok c =>
    match writeTexts output tree c.reports with
    | .error (name, cause) => .error (.report c.messages (Census.reportPath output name) cause)
    | .ok written => .ok (c.close output, written)

end ExtensionCensus
