/-
PackageAudit.Graph.Basic — which file of a project imports which.

The nodes are the scanned files. An edge is kept only between nodes; of
several imports of one file from another there is one edge.
-/
import PackageAudit.Json.Basic
import PackageAudit.Path

namespace PackageAudit

/-- Each node with the nodes that it has an edge to. -/
structure ImportGraph where
  adjacency : Table (List String) := []
  deriving DecidableEq, BEq, Repr, Inhabited

namespace ImportGraph

/-! ## 1. Building -/

/-- A graph without edges. -/
def ofNodes (nodes : List String) : ImportGraph :=
  ⟨nodes.foldl (fun t n => Table.putNew t n []) []⟩

/-- The nodes in the order in which they were added. -/
def nodes (g : ImportGraph) : List String := g.adjacency.keys

/-- The name is a node. -/
def hasNode (g : ImportGraph) (node : String) : Bool := g.adjacency.has node

/-- Both ends of an edge are nodes. -/
def accepts (g : ImportGraph) (source target : String) : Bool :=
  g.hasNode source && g.hasNode target

/-- A set with one more member. -/
def withTarget (target : String) (targets : List String) : List String :=
  if targets.contains target then targets else targets ++ [target]

/-- The graph with an edge between two nodes; other pairs change nothing. -/
def addEdge (g : ImportGraph) (source target : String) : ImportGraph :=
  if g.accepts source target then ⟨g.adjacency.update source [] (withTarget target)⟩ else g

/-- The graph of some nodes with edges between them. -/
def ofEdges (nodes : List String) (edges : List (String × String)) : ImportGraph :=
  edges.foldl (fun g (source, target) => g.addEdge source target) (ofNodes nodes)

/-! ## 2. Looking -/

/-- The nodes that a node has an edge to. -/
def targets (g : ImportGraph) (node : String) : List String := (g.adjacency.get? node).getD []

/-- The nodes that a node has an edge to, sorted. -/
def successors (g : ImportGraph) (node : String) : List String := Text.sortTexts (g.targets node)

/-- The nodes, sorted. -/
def sortedNodes (g : ImportGraph) : List String := Text.sortTexts g.nodes

/-- All edges, sorted. -/
def edges (g : ImportGraph) : List (String × String) :=
  g.sortedNodes.flatMap fun source => (g.successors source).map fun target => (source, target)

/-- The nodes outside a set of nodes with an edge into it, sorted. -/
def entryPoints (g : ImportGraph) (members : List String) : List String :=
  Text.sortTexts (g.nodes.filter fun n =>
    !members.contains n && (g.targets n).any members.contains)

/-- The graph as a report shows it, its nodes seen from a root. -/
def toJson (g : ImportGraph) (root : String) : Json :=
  let shown := fun (n : String) => Json.str (Path.relative n root)
  .obj [
    ("nodes", .arr (g.nodes.map shown)),
    ("edges", .arr (g.edges.map fun (source, target) =>
      .obj [("from", shown source), ("to", shown target)]))]

end ImportGraph

end PackageAudit
