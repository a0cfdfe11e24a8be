import ExtensionCensus.Text.Blank
import ExtensionCensus.Text.Utf8

/-!
# Nodes of a parsed source

The tree that a C# parser leaves: each node has a kind, a span of bytes, and children of which
some carry the name of a field.

* `Node` — the tree; a node that is not named is a bare token.
* `Parser` — what makes a tree of the bytes of a source. The grammar is no part of the library.
* `Node.field?`, `Node.child?`, `Node.named` — the three ways of getting at children.
* `Node.text` — the text of a node's span.
* `Node.size_lt_of_mem` — a child is smaller than its parent, so that readers of trees end.
-/

namespace ExtensionCensus.Source

open Text (Bytes)

/-- A node of a parsed source. -/
structure Node where
  kind : String
  isNamed : Bool
  start : Nat
  stop : Nat
  field : String
  children : List Node
  deriving Inhabited

/-- What a parser makes of a source: the root of its tree, and whether it met errors. -/
structure Parsed where
  root : Node
  hasErrors : Bool := false
  deriving Inhabited

/-- A parser of sources. -/
abbrev Parser := Bytes → Parsed

namespace Node

/-! ### Children -/

/-- The first child that carries the field's name. -/
def field? (n : Node) (name : String) : Option Node :=
  n.children.find? (·.field = name)

/-- The first child of a kind. -/
def child? (n : Node) (kind : String) : Option Node :=
  n.children.find? (·.kind = kind)

/-- The children that are no bare tokens. -/
def named (n : Node) : List Node :=
  n.children.filter (·.isNamed)

/-- The first child that carries the field's name, else the first one of a kind. -/
def fieldOrChild? (n : Node) (name kind : String) : Option Node :=
  (n.field? name).or (n.child? kind)

/-- The first child that carries the field's name, else the first named one. -/
def fieldOrFirst? (n : Node) (name : String) : Option Node :=
  (n.field? name).or n.named.head?

/-- The first child that carries the field's name, else the last named one. -/
def fieldOrLast? (n : Node) (name : String) : Option Node :=
  (n.field? name).or n.named.getLast?

/-- Some child is of the kind. -/
def hasChild (n : Node) (kind : String) : Bool :=
  n.children.any (·.kind = kind)

/-! ### Text -/

/-- The text of a node: the bytes of its span, as far as the source has them. -/
def text (n : Node) (source : Bytes) : String :=
  Text.decodeLossy (source.extract n.start n.stop)

/-- The text of a node that may be missing. -/
def textOf (n : Option Node) (source : Bytes) : String :=
  match n with
  | some n => n.text source
  | none => ""

/-! ### Size -/

/-- A child is smaller than its parent. -/
theorem size_lt_of_mem {c n : Node} (h : c ∈ n.children) : sizeOf c < sizeOf n := by
  have := List.sizeOf_lt_of_mem h
  cases n
  simp_all
  omega

theorem mem_of_field? {c n : Node} {name : String} (h : n.field? name = some c) :
    c ∈ n.children :=
  List.mem_of_find?_eq_some h

theorem mem_of_child? {c n : Node} {kind : String} (h : n.child? kind = some c) :
    c ∈ n.children :=
  List.mem_of_find?_eq_some h

theorem mem_of_named {c n : Node} (h : c ∈ n.named) : c ∈ n.children :=
  (List.mem_filter.1 h).1

theorem mem_of_fieldOrChild? {c n : Node} {name kind : String}
    (h : n.fieldOrChild? name kind = some c) : c ∈ n.children := by
  rcases Option.or_eq_some_iff.1 h with h | ⟨_, h⟩
  · exact mem_of_field? h
  · exact mem_of_child? h

theorem mem_of_fieldOrFirst? {c n : Node} {name : String}
    (h : n.fieldOrFirst? name = some c) : c ∈ n.children := by
  rcases Option.or_eq_some_iff.1 h with h | ⟨_, h⟩
  · exact mem_of_field? h
  · exact mem_of_named (List.mem_of_head? h)

theorem mem_of_fieldOrLast? {c n : Node} {name : String}
    (h : n.fieldOrLast? name = some c) : c ∈ n.children := by
  rcases Option.or_eq_some_iff.1 h with h | ⟨_, h⟩
  · exact mem_of_field? h
  · exact mem_of_named (List.mem_of_getLast? h)

end Node

end ExtensionCensus.Source
