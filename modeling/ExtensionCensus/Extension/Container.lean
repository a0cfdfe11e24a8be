import ExtensionCensus.Binding.Assembly
import ExtensionCensus.Extension.Method

/-!
# Extension containers

The types that hold extension methods.

* `SymbolTable.isQualifying` — a member is an extension method with a receiver.
* `ContainerRecord`, `SymbolTable.containerRecord` — what the report says about a container.
* `SymbolTable.discover` — the containers of a namespace tree. Only types that lie directly in a
  namespace are looked at, since nested types cannot declare extension methods.
* `Assembly.classify` — the records of all containers of an assembly, or the first receiver that
  cannot be classified.
-/

namespace ExtensionCensus

namespace SymbolTable

variable (table : SymbolTable)

/-! ### Members -/

/-- A member is an extension method that has a receiver. -/
def isQualifying : Member → Bool
  | .method id => (table.method id).isExtension && !(table.method id).parameters.isEmpty
  | _ => false

/-- The extension methods of a type, in declaration order. -/
def extensionMethods (id : TypeId) : List MethodId :=
  (table.members id).filterMap fun member =>
    match member with
    | .method m => if table.isQualifying (.method m) then some m else none
    | _ => none

/-- A type holds extension methods, and is one to look for them in. -/
def holdsExtensions (t : Ty) (id : TypeId) : Bool :=
  (table.traits t).mightHoldExtensions && (table.members id).any table.isQualifying

/-- A type has members that are no extension methods. -/
def hasOtherMembers (id : TypeId) : Bool :=
  (table.members id).any fun m => !table.isQualifying m

end SymbolTable

/-! ### Records -/

/-- What the report says about a container of extension methods. -/
structure ContainerRecord where
  text : String
  isPublic : Bool
  hasOtherMembers : Bool
  methods : List MethodRecord

/-- The receiver types of a container, each once, in the order of its methods. -/
def ContainerRecord.receiverTypes (c : ContainerRecord) : List Ty :=
  (c.methods.map (·.receiver.type)).eraseDups

/-- All extension methods of a container have one receiver type. -/
def ContainerRecord.sharesReceiver (c : ContainerRecord) : Bool :=
  c.receiverTypes.length = 1

namespace SymbolTable

variable (table : SymbolTable)

/-- The records of some methods in order, or the first that has none. -/
def classifyMethods : List MethodId → Except ClassifyError (List MethodRecord)
  | [] => .ok []
  | id :: rest =>
    match table.classifyMethod id with
    | .error e => .error e
    | .ok record => (classifyMethods rest).map (record :: ·)

/-- The record of a type as a container, or the first of its methods that has none. -/
def containerRecord (t : Ty) (id : TypeId) : Except ClassifyError ContainerRecord :=
  (table.classifyMethods (table.extensionMethods id)).map fun methods =>
    { text := table.display t
      isPublic := (table.traits t).access = .publicAccess
      hasOtherMembers := table.hasOtherMembers id
      methods }

/-- The containers of a namespace tree, in the order of its members. -/
def discover (root : Namespace) : List TypeId :=
  root.allTypes.filter fun id => table.holdsExtensions (table.definitionType id) id

/-- The records of some containers in order, or the first method that has none. -/
def containerRecords : List TypeId → Except ClassifyError (List ContainerRecord)
  | [] => .ok []
  | id :: rest =>
    match table.containerRecord (table.definitionType id) id with
    | .error e => .error e
    | .ok record => (containerRecords rest).map (record :: ·)

end SymbolTable

/-- The records of all containers of an assembly, or the first method that has none. -/
def Assembly.classify (a : Assembly) : Except ClassifyError (List ContainerRecord) :=
  a.table.containerRecords (a.table.discover a.root)

end ExtensionCensus
