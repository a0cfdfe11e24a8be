import ExtensionCensus.Extension.Container
import ExtensionCensus.Text.Quoted
import ExtensionCensus.Workspace.Load

/-!
# Messages

What a run tells while it goes on.

* `ErrorName` — the name under which an error is shown beside its message.
* `RunMessage` — the messages, with `RunMessage.level`, `RunMessage.origin` and
  `RunMessage.text`.
* `RunMessage.line`, `RunMessage.annotated`, `RunMessage.lines` — a message as it is logged.
-/

namespace ExtensionCensus

/-! ### Names of errors -/

/-- The name of a kind of errors, and where it belongs; the general kinds belong nowhere. -/
structure ErrorName where
  home : String := ""
  name : String
  deriving DecidableEq, Repr

/-- The name with what it belongs to. -/
def ErrorName.qualified (n : ErrorName) : String :=
  if n.home = "" then n.name else n.home ++ "." ++ n.name

/-- The name for a refused pattern. -/
def GlobFault.errorName : GlobFault → ErrorName
  | .notRelative => { name := "NotImplementedError" }
  | .noSegments => { name := "IndexError" }
  | .onlySlash => { name := "AttributeError" }
  | .empty | .partialDescent => { name := "ValueError" }

/-- The name for an encoding that is of no use. -/
def Xml.EncodingFault.errorName : Xml.EncodingFault → ErrorName
  | .unknown _ | .notText _ => { name := "LookupError" }
  | .wide => { name := "ValueError" }
  | .domainNames _ | .undefined _ => { name := "UnicodeError" }
  | .punycode => { name := "UnicodeDecodeError" }

/-- The name for a fault of an evaluation. -/
def EvaluationFault.errorName : EvaluationFault → ErrorName
  | .pattern cause => cause.errorName
  | .nulInPath => { name := "ValueError" }
  | .encoding cause => cause.errorName

/-- The name for an error of an evaluation. -/
def EvaluationError.errorName : EvaluationError → ErrorName
  | .load _ => { home := "extdump.frontend.msbuild", name := "ProjectLoadError" }
  | .fault f => f.errorName

/-- The name for an error in binding a type. -/
def Binding.BindError.errorName : Binding.BindError → ErrorName
  | .missingOperand => { name := "IndexError" }
  | .construct (.argumentCount _ _ _) => { name := "ValueError" }
  | .construct (.unbound _) => { name := "TypeError" }
  | .construct .notGeneric => { name := "AttributeError" }

/-- The name for an error of a compilation. -/
def Binding.CompilationError.errorName : Binding.CompilationError → ErrorName
  | .alreadyBound => { name := "RuntimeError" }
  | .bind cause => cause.errorName

/-- The name for a fault of compiling a project. -/
def CompileFault.errorName : CompileFault → ErrorName
  | .unreadable _ _ _ => { home := "extdump.frontend.workspace", name := "CompilationError" }
  | .binding cause => cause.errorName

/-- The name for a method that cannot be classified. -/
def ClassifyError.errorName : ClassifyError → ErrorName
  | .noReceiver _ => { name := "ValueError" }
  | .receiver _ => { home := "extdump.analysis.methods", name := "UnhandledTypeKindError" }

/-! ### Messages -/

/-- What a run tells. -/
inductive RunMessage where
  | noSolutions (directory : String)
  | loading (solution : String)
  | load (m : LoadMessage)
  | solutionRefused (solution : String) (e : LoadError)
  | solutionFailed (solution : String) (f : EvaluationFault)
  | resolved (path : String) (frameworks : List String)
  | projectFailed (f : LoadFailure)
  | skipped (path : String)
  | processing (project : String)
  | source (m : SourceMessage)
  | notCompiled (project : String) (reason : Option String)
  | compilationFailed (project : String) (cause : Binding.CompilationError)
  | classified (methods containers : Nat)
  | classificationFailed (project : String) (cause : ClassifyError)
  | found (containers : Nat)
  | wroteTypes (rows : Nat) (path : String)
  | wroteMethods (rows : Nat) (path : String)

/-- How urgent a message is. -/
inductive Level where
  | debug
  | info
  | error
  | critical
  deriving DecidableEq, Repr

/-- The number of a level; higher ones are more urgent. -/
def Level.number : Level → Nat
  | .debug => 10
  | .info => 20
  | .error => 40
  | .critical => 50

/-- The word for a level. -/
def Level.text : Level → String
  | .debug => "DEBUG"
  | .info => "INFO"
  | .error => "ERROR"
  | .critical => "CRITICAL"

/-- How urgent a message about loading is. -/
def LoadMessage.level : LoadMessage → Level
  | .unclear _ | .evaluated _ _ _ _ => .debug
  | .progress _ | .opened _ _ _ => .info

/-- The part of the program that a message about loading comes from. -/
def LoadMessage.origin : LoadMessage → String
  | .unclear _ | .evaluated _ _ _ _ => "extdump.frontend.msbuild"
  | .progress _ => "extdump.frontend.progress"
  | .opened _ _ _ => "extdump.frontend.workspace"

/-- A framework, or the words for none. -/
def frameworkOrNone (framework : String) : String :=
  if framework = "" then "no target framework" else framework

/-- The wording of a message about loading; `elapsed` stands for how long a step took. -/
def LoadMessage.text (elapsed : String) : LoadMessage → String
  | .unclear term => "Cannot evaluate condition " ++ Text.quote term ++ "; assuming true"
  | .evaluated path framework items references =>
    "Evaluated " ++ path ++ " (" ++ frameworkOrNone framework ++ "): " ++ toString items ++
      " compile item(s), " ++ toString references ++ " project reference(s)"
  | .progress event => event.message elapsed
  | .opened path projects failures =>
    "Opened " ++ path ++ ": " ++ toString projects ++ " project(s), " ++ toString failures ++
      " failure(s)"

/-- The part of the program that a message about sources comes from. -/
def SourceMessage.origin : SourceMessage → String
  | .syntaxErrors _ => "extdump.frontend.parser"
  | _ => "extdump.frontend.binder"

/-- The wording of a message about sources. -/
def SourceMessage.text : SourceMessage → String
  | .syntaxErrors path => "Syntax errors in " ++ path ++ "; binding what parsed"
  | .declared path => "Declared " ++ path
  | .unread type => "Unrecognised type syntax " ++ type.kind ++ ": " ++ type.text
  | .bound assembly parts =>
    "Bound " ++ assembly ++ ": " ++ toString parts ++ " type declaration(s)"

namespace RunMessage

/-- How urgent a message is. -/
def level : RunMessage → Level
  | .noSolutions _ => .critical
  | .load m => m.level
  | .solutionRefused _ _ | .solutionFailed _ _ | .projectFailed _ | .notCompiled _ _
  | .compilationFailed _ _ | .classificationFailed _ _ => .error
  | .resolved _ _ | .skipped _ | .source _ | .classified _ _ => .debug
  | .loading _ | .processing _ | .found _ | .wroteTypes _ _ | .wroteMethods _ _ => .info

/-- The part of the program that a message comes from. -/
def origin : RunMessage → String
  | .load m => m.origin
  | .source m => m.origin
  | .wroteTypes _ _ | .wroteMethods _ _ => "extdump.output.reports"
  | _ => "extdump.pipeline"

/-- The wording of a message; `elapsed` stands for how long a step took. -/
def text (elapsed : String) : RunMessage → String
  | .noSolutions directory => "Did not find any solution files in " ++ directory
  | .loading solution => "Loading solution: " ++ solution
  | .load m => m.text elapsed
  | .solutionRefused solution e => "Failed to load solution " ++ solution ++ ": " ++ e.message
  | .solutionFailed solution _ => "Failed to load solution " ++ solution
  | .resolved path frameworks =>
    "Resolved " ++ path ++ ": " ++ frameworkOrNone (", ".intercalate frameworks)
  | .projectFailed f => "Failed to load project " ++ f.path ++ ": " ++ f.message
  | .skipped path => "Skipping reference assembly project " ++ path
  | .processing project => "Processing " ++ project ++ " ..."
  | .source m => m.text
  | .notCompiled project none => "Could not get compilation for " ++ project
  | .notCompiled project (some reason) =>
    "Could not get compilation for " ++ project ++ ": " ++ reason
  | .compilationFailed project _ => "Could not get compilation for " ++ project
  | .classified methods containers =>
    "Classified " ++ toString methods ++ " extension method(s) in " ++ toString containers ++
      " container(s)"
  | .classificationFailed project _ =>
    "Classification failed for " ++ project ++ "; its rows are omitted"
  | .found containers =>
    "Found " ++ toString containers ++ " type(s) containing extension methods"
  | .wroteTypes rows path => "Wrote " ++ toString rows ++ " type row(s) to " ++ path
  | .wroteMethods rows path => "Wrote " ++ toString rows ++ " method row(s) to " ++ path

/-- The error that a message carries along, by name and wording. -/
def cause? : RunMessage → Option (ErrorName × String)
  | .solutionFailed _ f => some (f.errorName, f.message)
  | .compilationFailed _ cause => some (cause.errorName, cause.message)
  | .classificationFailed _ cause => some (cause.errorName, cause.message)
  | _ => none

/-! ### Lines -/

/-- A message with its level and origin in front. -/
def line (elapsed : String) (m : RunMessage) : String :=
  m.level.text ++ ": " ++ m.origin ++ ": " ++ m.text elapsed

/-- A message on one line, with the error that it carries along at its end. -/
def annotated (elapsed : String) (m : RunMessage) : String :=
  match m.cause? with
  | some (name, message) => m.line elapsed ++ " !! " ++ name.name ++ ": " ++ message
  | none => m.line elapsed

/-- A message as it is printed, with the error that it carries along on a line of its own. -/
def lines (elapsed : String) (m : RunMessage) : String :=
  match m.cause? with
  | some (name, message) =>
    m.line elapsed ++ "\n" ++ name.qualified ++ ": " ++ message ++ "\n"
  | none => m.line elapsed ++ "\n"

end RunMessage

end ExtensionCensus
