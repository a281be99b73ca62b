import SourceCorpus.Graph.Basic
import SourceCorpus.Json.Value

/-!
The canonical form of a graph: its nodes by name, its edges by source, target and kind, and as JSON
the fields of every object by name.
-/

namespace SourceCorpus

def GraphNode.notAfter (a b : GraphNode) : Bool := a.name ≤ b.name

/-- The order of edges: by source, then by target, then by kind. -/
def GraphEdge.notAfter (a b : GraphEdge) : Bool :=
  if a.source = b.source then
    if a.target = b.target then a.kind.rank ≤ b.kind.rank else a.target < b.target
  else a.source < b.source

def GraphNode.toJson (n : GraphNode) : Json :=
  .object [("kind", .string n.kind.name), ("name", .string n.name)]

def GraphEdge.toJson (e : GraphEdge) : Json :=
  .object [("count", .ofNat e.count), ("kind", .string e.kind.name), ("line", .ofNat e.line),
    ("resolved", .bool e.resolved), ("source", .string e.source), ("target", .string e.target)]

namespace Graph

def sortedNodes (g : Graph) : List GraphNode := g.nodes.mergeSort GraphNode.notAfter

def sortedEdges (g : Graph) : List GraphEdge := g.edges.mergeSort GraphEdge.notAfter

def toJson (g : Graph) : Json :=
  .object [("edges", .array (g.sortedEdges.map GraphEdge.toJson)),
    ("nodes", .array (g.sortedNodes.map GraphNode.toJson))]

end Graph

end SourceCorpus
