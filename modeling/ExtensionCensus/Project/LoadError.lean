import ExtensionCensus.File.Glob
import ExtensionCensus.Xml.Document

/-!
# Load errors

Why a solution or a project cannot be loaded.

* `LoadError` — a file that cannot be read as what it should be. A workspace passes over projects
  with such an error.
* `EvaluationFault` — a fault that ends the loading of the whole solution.
* `EvaluationError` — one or the other.
-/

namespace ExtensionCensus

/-- What is wrong with a solution or project file. -/
inductive LoadFault where
  | unreadable (cause : Entry.Fault)
  | notText (cause : Text.EncodingFault) (place : Nat)
  | malformedSolution (cause : Xml.Fault)
  | malformedProject (cause : Xml.Fault)
  | wrongRoot (name : String)
  deriving DecidableEq, Repr

/-- The word that stands in a message for the details of what is wrong in a document. -/
def Xml.Fault.message (_ : Xml.Fault) : String := "<detail>"

/-- The wording of what is wrong. -/
def LoadFault.message : LoadFault → String
  | .unreadable cause => cause.message
  | .notText cause place => "not UTF-8 text: " ++ cause.message ++ " at byte " ++ toString place
  | .malformedSolution cause => "invalid solution XML: " ++ cause.message
  | .malformedProject cause => "invalid project XML: " ++ cause.message
  | .wrongRoot name => "root element is <" ++ name ++ ">, expected <Project>"

/-- A file that cannot be loaded. -/
structure LoadError where
  path : String
  fault : LoadFault
  deriving DecidableEq, Repr

/-- The wording of an error. -/
def LoadError.message (e : LoadError) : String :=
  e.path ++ ": " ++ e.fault.message

/-- A fault in the evaluation of a project that is no fault of reading it. -/
inductive EvaluationFault where
  | pattern (cause : GlobFault)
  | nulInPath
  | encoding (cause : Xml.EncodingFault)
  deriving DecidableEq, Repr

/-- The wording of a fault. -/
def EvaluationFault.message : EvaluationFault → String
  | .pattern cause => cause.message
  | .nulInPath => "embedded null byte"
  | .encoding cause => cause.message

/-- Why an evaluation has no result. -/
inductive EvaluationError where
  | load (e : LoadError)
  | fault (f : EvaluationFault)
  deriving DecidableEq, Repr

/-- The wording of an error. -/
def EvaluationError.message : EvaluationError → String
  | .load e => e.message
  | .fault f => f.message

end ExtensionCensus
