import ExtensionCensus.Symbol.Construct

/-!
# Well-known types

The framework types that every compilation sees, with as much shape as signatures need:
namespace, name, number of type parameters and kind.

* `Library.specialTypes` — the types that have a keyword of their own.
* `Library.wellKnownTypes` — the types of each namespace.
* `Library.table`, `Library.root` — all of them declared, in that order.
* `Library.specialType?`, `Library.lookupType?` — finding one by keyword and by name.
* `Library.implicitUsings` — the namespaces that a project imports without saying so.
-/

namespace ExtensionCensus.Library

/-! ### What is known -/

/-- A type that the language names by a keyword. -/
structure SpecialType where
  keyword : String
  name : String
  kind : DefinitionKind

/-- The types that have keywords; they all lie in the namespace `System`. -/
def specialTypes : List SpecialType :=
  [
    ⟨"bool", "Boolean", .structType⟩, ⟨"byte", "Byte", .structType⟩,
    ⟨"sbyte", "SByte", .structType⟩, ⟨"char", "Char", .structType⟩,
    ⟨"decimal", "Decimal", .structType⟩, ⟨"double", "Double", .structType⟩,
    ⟨"float", "Single", .structType⟩, ⟨"int", "Int32", .structType⟩,
    ⟨"uint", "UInt32", .structType⟩, ⟨"long", "Int64", .structType⟩,
    ⟨"ulong", "UInt64", .structType⟩, ⟨"short", "Int16", .structType⟩,
    ⟨"ushort", "UInt16", .structType⟩, ⟨"nint", "IntPtr", .structType⟩,
    ⟨"nuint", "UIntPtr", .structType⟩, ⟨"object", "Object", .classType⟩,
    ⟨"string", "String", .classType⟩, ⟨"void", "Void", .structType⟩]

/-- A family of types of one name, one type for each listed number of type parameters. -/
structure KnownType where
  name : String
  arities : List Nat
  kind : DefinitionKind

/-- The known types of each namespace. -/
def wellKnownTypes : List (String × List KnownType) :=
  [
    ("System", [
      ⟨"Nullable", [1], .structType⟩, ⟨"Span", [1], .structType⟩,
      ⟨"ReadOnlySpan", [1], .structType⟩, ⟨"Memory", [1], .structType⟩,
      ⟨"ReadOnlyMemory", [1], .structType⟩, ⟨"ArraySegment", [1], .structType⟩,
      ⟨"ValueTuple", [1, 2, 3, 4, 5, 6, 7, 8], .structType⟩,
      ⟨"Tuple", [1, 2, 3, 4, 5, 6, 7, 8], .classType⟩,
      ⟨"Func", [1, 2, 3, 4, 5, 6, 7, 8, 9], .delegateType⟩,
      ⟨"Action", [0, 1, 2, 3, 4, 5, 6, 7, 8], .delegateType⟩, ⟨"Predicate", [1], .delegateType⟩,
      ⟨"Comparison", [1], .delegateType⟩, ⟨"EventHandler", [0, 1], .delegateType⟩,
      ⟨"Lazy", [1], .classType⟩, ⟨"IComparable", [0, 1], .interfaceType⟩,
      ⟨"IEquatable", [1], .interfaceType⟩, ⟨"IDisposable", [0], .interfaceType⟩,
      ⟨"IAsyncDisposable", [0], .interfaceType⟩, ⟨"IFormattable", [0], .interfaceType⟩,
      ⟨"IServiceProvider", [0], .interfaceType⟩, ⟨"IObservable", [1], .interfaceType⟩,
      ⟨"IObserver", [1], .interfaceType⟩, ⟨"Exception", [0], .classType⟩,
      ⟨"Type", [0], .classType⟩, ⟨"Uri", [0], .classType⟩, ⟨"Array", [0], .classType⟩,
      ⟨"Delegate", [0], .classType⟩, ⟨"Attribute", [0], .classType⟩, ⟨"Enum", [0], .classType⟩,
      ⟨"EventArgs", [0], .classType⟩, ⟨"DateTime", [0], .structType⟩,
      ⟨"DateTimeOffset", [0], .structType⟩, ⟨"DateOnly", [0], .structType⟩,
      ⟨"TimeOnly", [0], .structType⟩, ⟨"TimeSpan", [0], .structType⟩, ⟨"Guid", [0], .structType⟩,
      ⟨"Index", [0], .structType⟩, ⟨"Range", [0], .structType⟩,
      ⟨"StringComparison", [0], .enumType⟩, ⟨"StringComparer", [0], .classType⟩]),
    ("System.Collections", [
      ⟨"IEnumerable", [0], .interfaceType⟩, ⟨"IEnumerator", [0], .interfaceType⟩,
      ⟨"ICollection", [0], .interfaceType⟩, ⟨"IList", [0], .interfaceType⟩,
      ⟨"IDictionary", [0], .interfaceType⟩, ⟨"ArrayList", [0], .classType⟩,
      ⟨"Hashtable", [0], .classType⟩]),
    ("System.Collections.Generic", [
      ⟨"IEnumerable", [1], .interfaceType⟩, ⟨"IEnumerator", [1], .interfaceType⟩,
      ⟨"IAsyncEnumerable", [1], .interfaceType⟩, ⟨"ICollection", [1], .interfaceType⟩,
      ⟨"IReadOnlyCollection", [1], .interfaceType⟩, ⟨"IList", [1], .interfaceType⟩,
      ⟨"IReadOnlyList", [1], .interfaceType⟩, ⟨"ISet", [1], .interfaceType⟩,
      ⟨"IReadOnlySet", [1], .interfaceType⟩, ⟨"IDictionary", [2], .interfaceType⟩,
      ⟨"IReadOnlyDictionary", [2], .interfaceType⟩, ⟨"IComparer", [1], .interfaceType⟩,
      ⟨"IEqualityComparer", [1], .interfaceType⟩, ⟨"List", [1], .classType⟩,
      ⟨"Dictionary", [2], .classType⟩, ⟨"HashSet", [1], .classType⟩,
      ⟨"SortedSet", [1], .classType⟩, ⟨"SortedDictionary", [2], .classType⟩,
      ⟨"Queue", [1], .classType⟩, ⟨"Stack", [1], .classType⟩, ⟨"LinkedList", [1], .classType⟩,
      ⟨"KeyValuePair", [2], .structType⟩]),
    ("System.Collections.Immutable", [
      ⟨"ImmutableArray", [1], .structType⟩, ⟨"ImmutableList", [1], .classType⟩,
      ⟨"ImmutableHashSet", [1], .classType⟩, ⟨"ImmutableDictionary", [2], .classType⟩,
      ⟨"IImmutableList", [1], .interfaceType⟩]),
    ("System.Linq", [
      ⟨"IQueryable", [0, 1], .interfaceType⟩, ⟨"IOrderedQueryable", [1], .interfaceType⟩,
      ⟨"IOrderedEnumerable", [1], .interfaceType⟩, ⟨"IGrouping", [2], .interfaceType⟩,
      ⟨"ILookup", [2], .interfaceType⟩]),
    ("System.Threading", [
      ⟨"CancellationToken", [0], .structType⟩]),
    ("System.Threading.Tasks", [
      ⟨"Task", [0, 1], .classType⟩, ⟨"ValueTask", [0, 1], .structType⟩]),
    ("System.Text", [
      ⟨"StringBuilder", [0], .classType⟩, ⟨"Encoding", [0], .classType⟩]),
    ("System.IO", [
      ⟨"Stream", [0], .classType⟩, ⟨"TextReader", [0], .classType⟩,
      ⟨"TextWriter", [0], .classType⟩, ⟨"FileInfo", [0], .classType⟩,
      ⟨"DirectoryInfo", [0], .classType⟩]),
    ("System.Net.Http", [
      ⟨"HttpClient", [0], .classType⟩, ⟨"HttpContent", [0], .classType⟩,
      ⟨"HttpResponseMessage", [0], .classType⟩])]

/-- The namespaces that are imported when a project asks for implicit imports. -/
def implicitUsings : List String :=
  [
    "System", "System.Collections.Generic", "System.IO", "System.Linq", "System.Net.Http",
    "System.Threading", "System.Threading.Tasks"]

/-! ### Declared -/

/-- The names of `arity` type parameters. -/
def typeParameterNames (arity : Nat) : List String :=
  if arity = 1 then ["T"] else (List.range arity).map fun i => "T" ++ toString (i + 1)

/-- The library while it is being declared. -/
structure Draft where
  table : SymbolTable := {}
  root : Namespace := .empty

/-- Declares one public type in the namespace of a dotted name. -/
def Draft.declare (draft : Draft) (namespaceName name : String) (kind : DefinitionKind)
    (keyword : Option String) (arity : Nat) : Draft :=
  let path := Namespace.parts namespaceName
  let id := draft.table.nextType
  let definition : TypeDefinition :=
    { name
      container := .namespace path
      kind
      traits := { access := .publicAccess }
      keyword
      metadataName := draft.table.metadataNameIn (.namespace path) name
      typeParameters :=
        TypeParameter.listed (.ofType id) ((typeParameterNames arity).map fun n => { name := n }) }
  { table := draft.table.addDefinition definition
    root := draft.root.update (·.addType ⟨name, arity⟩ id) path }

/-- Declares one type for each number of type parameters of a family. -/
def Draft.declareFamily (draft : Draft) (namespaceName : String) (t : KnownType) : Draft :=
  t.arities.foldl (fun d arity => d.declare namespaceName t.name t.kind none arity) draft

/-- Everything that is known, declared in order. -/
def draft : Draft :=
  let special := specialTypes.foldl
    (fun d t => d.declare "System" t.name t.kind (some t.keyword) 0) {}
  wellKnownTypes.foldl (fun d entry => entry.2.foldl (·.declareFamily entry.1 ·) d) special

/-- The definitions of the library. -/
def table : SymbolTable := draft.table

/-- The namespaces of the library. -/
def root : Namespace := draft.root

/-! ### Finding -/

/-- The type that a keyword names. -/
def specialType? (keyword : String) : Option Ty :=
  (specialTypes.findIdx? (·.keyword = keyword)).map fun i => .named (.declared ⟨i⟩) none []

/-- The type that a method without a result returns. -/
def voidType : Ty := (specialType? "void").getD .dynamic

/-- The type of a key in the namespace of a dotted name. -/
def lookupType? (namespaceName : String) (key : TypeKey) : Option TypeId :=
  root.lookupType? namespaceName key

/-- The struct that wraps a value type whose values may be absent. -/
def nullable? : Option TypeId := lookupType? "System" ⟨"Nullable", 1⟩

/-- The struct that a tuple of so many elements is. -/
def valueTuple? (arity : Nat) : Option TypeId := lookupType? "System" ⟨"ValueTuple", arity⟩

/-- The type is an instance of the wrapper for absent values. -/
def isNullable (t : Ty) : Bool :=
  match t.declaration? with
  | some id => some id = nullable?
  | none => false

end ExtensionCensus.Library
