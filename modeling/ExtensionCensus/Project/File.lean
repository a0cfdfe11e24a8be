import ExtensionCensus.Project.Property

/-!
# Project files

One evaluation of a project file for one set of global properties, and what it says about the
output of the project.

* `ProjectFile` — the properties and items.
* `ProjectFile.targetFrameworks` — the frameworks that the project is built for.
* `ProjectFile.version`, `ProjectFile.assemblyName` — the identity of its assembly.
* `ProjectFile.outputPath` — the file that it compiles to.
-/

namespace ExtensionCensus

/-- The languages of project files, by suffix. -/
def projectLanguages : List (String × String) :=
  [(".csproj", "C#"), (".vbproj", "Visual Basic"), (".fsproj", "F#")]

/-- The language of a project file, if its suffix is known. -/
def languageOf? (path : String) : Option String :=
  projectLanguages.lookup (Text.lower (Path.suffix path))

/-- One evaluation of a project file. -/
structure ProjectFile where
  path : String
  language : String
  properties : Properties := []
  compileItems : List String := []
  projectReferences : List String := []
  isSdkStyle : Bool := true
  deriving DecidableEq

namespace ProjectFile

variable (p : ProjectFile)

/-! ### Properties -/

/-- The value of a property, in whatever case its name is; empty if it is not set. -/
def get (name : String) : String :=
  (p.properties.get? (Text.lower name)).getD ""

/-- The first of two texts that is not empty. -/
def orElse (a b : String) : String :=
  if a = "" then b else a

/-- A property switches something on; an empty one leaves the default. -/
def isTrue (name : String) (default : Bool) : Bool :=
  let value := p.get name
  if value = "" then default
  else ["true", "enable", "enabled"].contains (Text.lower (Text.trim value))

/-- The directory of the project file. -/
def directory : String := Path.directory p.path

/-! ### Identity -/

/-- The name of the assembly. -/
def assemblyName : String :=
  orElse (p.get "AssemblyName") (Path.stem p.path)

/-- The entries of a list with semicolons between them, without blanks at their ends, empty ones
left out. -/
def listEntries (value : String) : List String :=
  ((Text.segments ';' value).map Text.trim).filter (· ≠ "")

/-- The framework that the old style of writing a framework's version stands for. -/
def legacyFramework (version : String) : String :=
  let digits := Text.dropStart (Text.trim version) fun c => c = 'v' || c = 'V'
  "net" ++ String.ofList (digits.toList.filter (· ≠ '.'))

/-- The frameworks that the project is built for. -/
def targetFrameworks : List String :=
  if p.get "TargetFrameworks" ≠ "" then listEntries (p.get "TargetFrameworks")
  else if p.get "TargetFramework" ≠ "" then [Text.trim (p.get "TargetFramework")]
  else if p.get "TargetFrameworkVersion" ≠ "" then
    [legacyFramework (p.get "TargetFrameworkVersion")]
  else []

/-- The framework of this evaluation; empty if it has none. -/
def targetFramework : String := Text.trim (p.get "TargetFramework")

/-- The version of the assembly: four numbers, without what follows a hyphen or a plus. -/
def version : String :=
  let written := orElse (orElse (p.get "AssemblyVersion") (p.get "Version")) "1.0.0.0"
  let numbers := String.ofList (written.toList.takeWhile fun c => c ≠ '-' && c ≠ '+')
  let parts := (Text.segments '.' numbers).filter (· ≠ "")
  ".".intercalate ((parts ++ List.replicate (4 - parts.length) "0").take 4)

/-- The project imports namespaces without saying so. -/
def implicitUsings : Bool := p.isTrue "ImplicitUsings" false

/-! ### Output -/

/-- The directory that the project compiles into. -/
def outputDirectory : String :=
  let written := p.get "OutputPath"
  let output :=
    if written ≠ "" then written
    else
      let base := Text.dropEnd
        (Text.replaceChar (orElse (p.get "BaseOutputPath") "bin") '\\' '/') (· = '/')
      let configuration := (p.properties.get? "configuration").getD "Debug"
      let framework :=
        if p.isSdkStyle && p.targetFramework ≠ "" &&
            p.isTrue "AppendTargetFrameworkToOutputPath" true then p.targetFramework ++ "/"
        else ""
      base ++ "/" ++ configuration ++ "/" ++ framework
  Path.resolve output p.directory

/-- The suffix of the compiled file: only programs for the old frameworks are executables. -/
def outputExtension : String :=
  let framework := orElse p.targetFramework (p.targetFrameworks.headD "")
  if ["exe", "winexe"].contains (Text.lower (p.get "OutputType")) &&
      Text.startsWith framework "net4" then ".exe"
  else ".dll"

/-- The file that the project compiles to. -/
def outputPath : String :=
  Path.join p.outputDirectory (p.assemblyName ++ p.outputExtension)

end ProjectFile

end ExtensionCensus
