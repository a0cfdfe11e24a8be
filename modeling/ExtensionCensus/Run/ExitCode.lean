/-!
# Exit codes

* `exitSuccess`, `exitError`, `exitUsage`, `exitPartial` — the codes with which a run ends.
* `exitDescription?` — what a code means.
* `exitMessage` — what is printed on the way out.
-/

namespace ExtensionCensus

/-- Reports were written and every unit was classified. -/
def exitSuccess : Int := 0

/-- The run failed in a way that nobody foresaw. -/
def exitError : Int := 1

/-- The arguments or settings are wrong. -/
def exitUsage : Int := 2

/-- Reports were written without at least one unit that could not be classified. -/
def exitPartial : Int := 6

/-- What an exit code means. -/
def exitDescription? (code : Int) : Option String :=
  [(exitSuccess, "success"), (exitError, "unexpected error"),
    (exitUsage, "invalid usage (bad arguments or flags)"),
    (exitPartial, "partial results (one or more units failed to classify)")].lookup code

/-- What is printed when a run ends with a message; an empty one prints nothing. -/
def exitMessage (message : Option String) : String :=
  match message with
  | some text => if text = "" then "" else "Error: " ++ text ++ "\n"
  | none => ""

end ExtensionCensus
