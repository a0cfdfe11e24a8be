import ExtensionCensus.Symbol.Type
import ExtensionCensus.Text.Blank
import ExtensionCensus.Text.Segment

/-!
# Namespace trees

A namespace keeps a table of the namespaces nested in it and one of its types, and lists its members
in the order in which they were declared. Within one tree a namespace is named by its path of
segments from the root, and two namespaces are the same when their paths are.

* `Namespace` — the tree.
* `Namespace.addType`, `Namespace.setChild` — declaring a type, and putting a nested namespace.
* `Namespace.find?`, `Namespace.update` — the namespace at a path, and the tree with it changed
  and with whatever was missing on the way added.
* `Namespace.openAt`, `Namespace.lookup?` — adding and finding by dotted names.
* `Namespace.walk` — every namespace once, each before those inside it.
-/

namespace ExtensionCensus

/-- The segments of a namespace's name, from the outermost one. -/
abbrev NamespacePath := List String

/-- What tells the types of one namespace apart: the name and the number of type parameters. -/
structure TypeKey where
  name : String
  arity : Nat
  deriving DecidableEq, Repr, Inhabited

/-- What a namespace lists: a nested one by its name, or a type with its key. -/
inductive Listed where
  | space (name : String)
  | type (key : TypeKey) (id : TypeId)
  deriving DecidableEq

mutual

/-- A namespace: the tables of nested namespaces and of types, and what it lists. The newest types are
in front of their table, and hide older ones of their keys. -/
inductive Namespace where
  | mk (spaces : List NestedSpace) (types : List (TypeKey × TypeId)) (listed : List Listed)

/-- An entry of the table of nested namespaces. -/
inductive NestedSpace where
  | mk (name : String) (inner : Namespace)

end

/-- A member of a namespace. -/
inductive NamespaceMember where
  | space (name : String) (inner : Namespace)
  | type (key : TypeKey) (id : TypeId)

instance : Inhabited Namespace := ⟨.mk [] [] []⟩

namespace NestedSpace

/-- The name in an entry. -/
def name : NestedSpace → String
  | .mk n _ => n

/-- The nested namespace, if the entry is of that name. -/
def at? (name : String) : NestedSpace → Option Namespace
  | .mk n inner => if n = name then some inner else none

/-- The entry with the nested namespace replaced, if it is of that name. -/
def put (name : String) (new : Namespace) : NestedSpace → NestedSpace
  | .mk n inner => .mk n (if n = name then new else inner)

end NestedSpace

namespace Namespace

/-- The namespace without members. -/
def empty : Namespace := .mk [] [] []

/-- The table of nested namespaces, in the order in which they were added. -/
def spaces : Namespace → List NestedSpace
  | .mk ss _ _ => ss

/-- The table of types. -/
def types : Namespace → List (TypeKey × TypeId)
  | .mk _ ts _ => ts

/-- What is listed, in declaration order. -/
def listed : Namespace → List Listed
  | .mk _ _ ls => ls

/-! ### Single steps -/

/-- The nested namespace of a name. -/
def child? (ns : Namespace) (name : String) : Option Namespace :=
  ns.spaces.findSome? (·.at? name)

/-- The type of a key: the one declared last. -/
def type? (ns : Namespace) (key : TypeKey) : Option TypeId :=
  ns.types.lookup key

/-- The names of the nested namespaces. -/
def childNames (ns : Namespace) : List String :=
  ns.spaces.map (·.name)

/-- The keys of the types, each once, in the order of their first declaration. -/
def typeKeys (ns : Namespace) : List TypeKey :=
  (ns.types.reverse.map (·.1)).eraseDups

/-- The members in declaration order. -/
def members (ns : Namespace) : List NamespaceMember :=
  ns.listed.filterMap fun
    | .space name => (ns.child? name).map (.space name)
    | .type key id => some (.type key id)

/-- The namespace with a type declared in it. -/
def addType (ns : Namespace) (key : TypeKey) (id : TypeId) : Namespace :=
  .mk ns.spaces ((key, id) :: ns.types) (ns.listed ++ [.type key id])

/-- The namespace with a nested one of a name: in the place of that which is there, or added behind
the members. -/
def setChild (ns : Namespace) (name : String) (inner : Namespace) : Namespace :=
  match ns.child? name with
  | some _ => .mk (ns.spaces.map (·.put name inner)) ns.types ns.listed
  | none => .mk (ns.spaces ++ [.mk name inner]) ns.types (ns.listed ++ [.space name])

/-! ### Paths -/

/-- The namespace at a path. -/
def find? : Namespace → NamespacePath → Option Namespace
  | ns, [] => some ns
  | ns, name :: rest => (ns.child? name).bind (·.find? rest)

/-- The tree with the namespace at a path changed by `f`; namespaces missing on the way are
added behind the members that are there. -/
def update (f : Namespace → Namespace) : NamespacePath → Namespace → Namespace
  | [], ns => f ns
  | name :: rest, ns => ns.setChild name (update f rest ((ns.child? name).getD empty))

/-! ### Dotted names -/

/-- The segments that a dotted name asks for: the parts between dots, empty ones left out. -/
def parts (dotted : String) : NamespacePath :=
  (Text.segments '.' dotted).filter (· ≠ "")

/-- The segments that a dotted name adds: the parts between dots without blanks at their ends,
empty ones left out. -/
def trimmedParts (dotted : String) : NamespacePath :=
  ((Text.segments '.' dotted).map Text.trim).filter (· ≠ "")

/-- The dotted name of a path. -/
def qualifiedName (path : NamespacePath) : String :=
  ".".intercalate path

/-- The name that a display shows for the namespace at a path. -/
def display (path : NamespacePath) : String :=
  if path.isEmpty then "<global namespace>" else qualifiedName path

/-- The tree with the namespace of a dotted name below `base` present, and its path. -/
def openAt (root : Namespace) (base : NamespacePath) (dotted : String) :
    Namespace × NamespacePath :=
  let path := base ++ trimmedParts dotted
  (root.update id path, path)

/-- The path of the namespace that a dotted name denotes below `base`, if the tree has it. -/
def lookup? (root : Namespace) (base : NamespacePath) (dotted : String) : Option NamespacePath :=
  let path := base ++ parts dotted
  (root.find? path).map fun _ => path

/-- The type of a key in the namespace of a dotted name. -/
def lookupType? (root : Namespace) (dotted : String) (key : TypeKey) : Option TypeId :=
  (root.find? (parts dotted)).bind (·.type? key)

/-! ### Walking -/

mutual

/-- The namespace at `path` and all inside it, each before those nested in it. -/
def walk (path : NamespacePath) : Namespace → List (NamespacePath × Namespace)
  | .mk ss ts ls => (path, .mk ss ts ls) :: walkSpaces path ss

/-- The namespaces in a table, and all inside them. -/
def walkSpaces (path : NamespacePath) : List NestedSpace → List (NamespacePath × Namespace)
  | [] => []
  | .mk name inner :: rest => walk (path ++ [name]) inner ++ walkSpaces path rest

end

mutual

/-- The types of a namespace and of those inside it, in the order of the members. -/
def allTypes : Namespace → List TypeId
  | .mk ss _ ls =>
    ls.flatMap fun
      | .space name => allTypesIn ss name
      | .type _ id => [id]

/-- The types inside the namespace of a name in a table. -/
def allTypesIn : List NestedSpace → String → List TypeId
  | [], _ => []
  | .mk n inner :: rest, name => if n = name then allTypes inner else allTypesIn rest name

end

end Namespace

end ExtensionCensus
