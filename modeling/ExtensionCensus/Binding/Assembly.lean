import ExtensionCensus.Binding.Member
import ExtensionCensus.Source.Reading

/-!
# Assemblies

What a compilation produces, and the compilation itself: files are added one by one, then
everything is bound at once.

* `AssemblyIdentity` — the name under which an assembly is known.
* `Assembly` — an identity, its symbols and its namespaces.
* `Compilation` — the files added so far, or the finished assembly.
* `compile` — an assembly from sources.
-/

namespace ExtensionCensus

/-- The name under which an assembly is known. -/
structure AssemblyIdentity where
  name : String
  version : String := "1.0.0.0"
  culture : String := "neutral"
  publicKeyToken : Option String := none
  deriving DecidableEq, Repr, Inhabited

/-- The full name of an assembly. -/
def AssemblyIdentity.display (i : AssemblyIdentity) : String :=
  let token :=
    match i.publicKeyToken with
    | some t => if t = "" then "null" else t
    | none => "null"
  i.name ++ ", Version=" ++ i.version ++ ", Culture=" ++ i.culture ++ ", PublicKeyToken=" ++ token

/-- An assembly: its name, the table that its symbols live in, and its namespaces. -/
structure Assembly where
  identity : AssemblyIdentity
  table : SymbolTable
  root : Namespace
  deriving Inhabited

namespace Binding

open Source (Node Item readItems)

namespace Outline

/-- Binds parts of types in order. -/
def bindParts (o : Outline) : List DeclaredPart → Except BindError Outline
  | [] => .ok o
  | part :: rest =>
    match o.bindPart part with
    | .error e => .error e
    | .ok o => bindParts o rest

/-- The definitions that the outline declares, each once, in the order of their first parts. -/
def declaredTypes (o : Outline) : List TypeId :=
  (o.parts.map (·.type)).eraseDups

/-- Binds all parts, then completes every type. -/
def bind (o : Outline) : Except BindError Outline :=
  (o.bindParts o.parts).map fun bound => o.declaredTypes.foldl finish bound

end Outline

/-- A compilation: the files added so far, and whether it is finished. -/
structure Compilation where
  identity : AssemblyIdentity
  outline : Outline
  isBound : Bool := false

/-- Why a step of a compilation is refused. -/
inductive CompilationError where
  | alreadyBound
  | bind (cause : BindError)
  deriving DecidableEq, Repr

/-- The wording of a refusal. -/
def CompilationError.message : CompilationError → String
  | .alreadyBound => "Cannot add documents after binding"
  | .bind cause => cause.message

namespace Compilation

/-- A compilation without files. -/
def empty (identity : AssemblyIdentity) (implicitUsings : Bool) : Compilation :=
  { identity, outline := { implicitUsings } }

/-- Adds a file that was parsed. -/
def addFile (c : Compilation) (source : Text.Bytes) (root : Node) :
    Except CompilationError Compilation :=
  if c.isBound then .error .alreadyBound
  else .ok { c with outline := c.outline.addFile (readItems source root) }

/-- Binds what the files declare; a compilation that is finished stays as it is. -/
def bind (c : Compilation) : Except CompilationError Compilation :=
  if c.isBound then .ok c
  else
    match c.outline.bind with
    | .error e => .error (.bind e)
    | .ok outline => .ok { c with outline, isBound := true }

/-- The assembly of a compilation as far as it has come. -/
def assembly (c : Compilation) : Assembly :=
  { identity := c.identity, table := c.outline.table, root := c.outline.root }

/-- Adds files in order. -/
def addFiles (c : Compilation) : List (Text.Bytes × Node) → Except CompilationError Compilation
  | [] => .ok c
  | (source, root) :: rest =>
    match c.addFile source root with
    | .error e => .error e
    | .ok c => addFiles c rest

end Compilation

/-- The assembly that some parsed sources make. -/
def compile (identity : AssemblyIdentity) (implicitUsings : Bool)
    (files : List (Text.Bytes × Node)) : Except CompilationError Assembly :=
  match (Compilation.empty identity implicitUsings).addFiles files with
  | .error e => .error e
  | .ok c => c.bind.map (·.assembly)

end Binding

end ExtensionCensus
