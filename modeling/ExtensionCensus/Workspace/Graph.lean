/-!
# Reference graphs

The projects of a solution and their references, in the order in which they were met.

* `ProjectNode`, `ReferenceGraph` — the graph. A path names one node, and a reference is listed
  once.
* `ReferenceGraph.add`, `ReferenceGraph.addReference`, `ReferenceGraph.fail` — its growth.
* `ReferenceGraph.search` — the nodes that a depth-first search meets, each before what it refers
  to.
-/

namespace ExtensionCensus

/-- A project file in a graph, and the files that it refers to. -/
structure ProjectNode where
  path : String
  isFailed : Bool := false
  references : List String := []
  deriving DecidableEq, Repr

/-- The project files of a solution. -/
structure ReferenceGraph where
  nodes : List ProjectNode := []
  deriving DecidableEq, Repr

namespace ReferenceGraph

/-! ### Contents -/

/-- The paths of the nodes, in the order in which they were met. -/
def paths (g : ReferenceGraph) : List String :=
  g.nodes.map (·.path)

/-- The node of a path. -/
def node? (g : ReferenceGraph) (path : String) : Option ProjectNode :=
  g.nodes.find? (·.path = path)

/-- The files that the file at a path refers to. -/
def references (g : ReferenceGraph) (path : String) : List String :=
  ((g.node? path).map (·.references)).getD []

/-- The file at a path could not be loaded. -/
def isFailed (g : ReferenceGraph) (path : String) : Bool :=
  ((g.node? path).map (·.isFailed)).getD false

/-- The references of the graph as pairs, node by node. -/
def edges (g : ReferenceGraph) : List (String × String) :=
  g.nodes.flatMap fun n => n.references.map (n.path, ·)

/-! ### Growth -/

/-- The graph with a path in it. -/
def add (g : ReferenceGraph) (path : String) : ReferenceGraph :=
  if (g.node? path).isSome then g else { nodes := g.nodes ++ [{ path }] }

/-- The graph with the node of a path changed. -/
def update (g : ReferenceGraph) (path : String) (f : ProjectNode → ProjectNode) :
    ReferenceGraph :=
  { nodes := g.nodes.map fun n => if n.path = path then f n else n }

/-- The graph with a file marked as one that could not be loaded. -/
def fail (g : ReferenceGraph) (path : String) : ReferenceGraph :=
  g.update path fun n => { n with isFailed := true }

/-- The graph with a reference between two files. -/
def addReference (g : ReferenceGraph) (source target : String) : ReferenceGraph :=
  ((g.add source).add target).update source fun n =>
    if n.references.contains target then n else { n with references := n.references ++ [target] }

/-! ### Search -/

/-- Taking a member out makes a list shorter. -/
theorem length_erase_lt {paths : List String} {path : String} (h : path ∈ paths) :
    (paths.erase path).length < paths.length := by
  rw [List.length_erase_of_mem h]
  exact Nat.sub_lt (List.length_pos_of_mem h) Nat.one_pos

/-- A depth-first search from the paths on a stack; `remaining` holds the nodes that it has not
met yet. -/
def searchFrom (g : ReferenceGraph) (remaining : List String) : List String → List String
  | [] => []
  | path :: rest =>
    if _h : path ∈ remaining then
      path :: searchFrom g (remaining.erase path) (g.references path ++ rest)
    else searchFrom g remaining rest
termination_by stack => (remaining.length, stack.length)
decreasing_by
  · exact Prod.Lex.left _ _ (length_erase_lt _h)
  · exact Prod.Lex.right _ (by simp)

/-- The paths that a depth-first search from one path meets, each before the references of its
file, which are followed in order. There is only one such order. -/
def search (g : ReferenceGraph) (path : String) : List String :=
  g.searchFrom g.paths [path]

end ReferenceGraph

end ExtensionCensus
