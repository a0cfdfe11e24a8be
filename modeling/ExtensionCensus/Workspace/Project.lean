import ExtensionCensus.Binding.Assembly
import ExtensionCensus.Project.Evaluation

/-!
# Projects of a workspace

A project file built for one target framework, and its compilation.

* `Project` — the project.
* `SourceMessage` — what is told while its sources are compiled.
* `Project.compile` — its assembly. Only projects in C# have one.
-/

namespace ExtensionCensus

open Text (Bytes)
open Source (Parser)

/-- A project file built for one target framework, or for none. -/
structure Project where
  name : String
  filePath : String
  outputPath : String
  language : String
  identity : AssemblyIdentity
  framework : Option String
  documents : List String
  projectReferences : List String
  implicitUsings : Bool

/-! ### Messages -/

/-- What is told while sources are compiled. -/
inductive SourceMessage where
  | syntaxErrors (path : String)
  | declared (path : String)
  | unread (type : Binding.UnreadType)
  | bound (assembly : String) (parts : Nat)
  deriving DecidableEq, Repr

/-- Why a project has no assembly. -/
inductive CompileFault where
  | unreadable (project document : String) (cause : Entry.Fault)
  | binding (cause : Binding.CompilationError)
  deriving DecidableEq, Repr

/-- The wording of a fault. -/
def CompileFault.message : CompileFault → String
  | .unreadable project document cause =>
    project ++ ": cannot read " ++ document ++ ": " ++ cause.message
  | .binding cause => cause.message

/-! ### Compilation -/

/-- The bytes of a source, without the mark in front of it. -/
def sourceBytes (content : Bytes) : Bytes :=
  if [0xEF, 0xBB, 0xBF].isPrefixOf content.toList then content.extract 3 content.size else content

/-- A compilation with the documents of a project added in order, up to the first that cannot be
read, and what is told on the way. -/
def addDocuments (tree : FileTree) (parse : Parser) (project : String) :
    Binding.Compilation → List String →
      List SourceMessage × Except CompileFault Binding.Compilation
  | c, [] => ([], .ok c)
  | c, path :: rest =>
    match tree.read path with
    | .error cause => ([], .error (.unreadable project path cause))
    | .ok content =>
      let source := sourceBytes content
      let parsed := parse source
      let warning := if parsed.hasErrors then [SourceMessage.syntaxErrors path] else []
      match c.addFile source parsed.root with
      | .error cause => (warning, .error (.binding cause))
      | .ok c =>
        let (messages, result) := addDocuments tree parse project c rest
        (warning ++ .declared path :: messages, result)

/-- The assembly of a project in C#, and what is told on the way. -/
def Project.assembly (tree : FileTree) (parse : Parser) (p : Project) :
    List SourceMessage × Except CompileFault Assembly :=
  let (messages, result) :=
    addDocuments tree parse p.name (.empty p.identity p.implicitUsings) p.documents
  match result with
  | .error fault => (messages, .error fault)
  | .ok c =>
    match c.bind with
    | .error cause => (messages, .error (.binding cause))
    | .ok c =>
      (messages ++ c.outline.unread.map .unread ++ [.bound p.identity.name c.outline.parts.length],
        .ok c.assembly)

/-- The assembly of a project, if it has one, and what is told on the way. -/
def Project.compile (tree : FileTree) (parse : Parser) (p : Project) :
    List SourceMessage × Except CompileFault (Option Assembly) :=
  if p.language = "C#" then
    let (messages, result) := p.assembly tree parse
    (messages, result.map some)
  else ([], .ok none)

end ExtensionCensus
