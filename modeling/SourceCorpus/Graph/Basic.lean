import SourceCorpus.Model.Object
import SourceCorpus.Text.Sorted

/-!
The graph of the relationships in one file. Its nodes are names; an edge has a kind, and of two
nodes and a kind there is at most one edge, which counts how often the relationship occurs. An index
tells where each edge stands.
-/

namespace SourceCorpus

inductive EdgeKind where
  | calls | inherits | imports | instantiates
  deriving DecidableEq, Repr

namespace EdgeKind

def name : EdgeKind → String
  | calls => "calls"
  | inherits => "inherits"
  | imports => "imports"
  | instantiates => "instantiates"

/-- The place of the kind in the order of edges between the same nodes. -/
def rank : EdgeKind → Nat
  | calls => 0
  | inherits => 1
  | imports => 2
  | instantiates => 3

/-- A class is instantiated by calling it. -/
def isCall : EdgeKind → Bool
  | calls | instantiates => true
  | _ => false

end EdgeKind

inductive NodeKind where
  | object (kind : ObjectKind)
  /-- What a name outside the file stands for. -/
  | external
  deriving DecidableEq, Repr

def NodeKind.name : NodeKind → String
  | object kind => kind.name
  | external => "external"

structure GraphNode where
  name : String
  kind : NodeKind
  deriving DecidableEq, Repr

/-- One occurrence of a relationship. -/
structure Relation where
  source : String
  target : String
  kind : EdgeKind
  /-- Whether the target was found in the file. -/
  resolved : Bool
  line : Nat
  deriving DecidableEq, Repr

/-- What tells an edge of a graph from the others. -/
structure EdgeKey where
  source : String
  target : String
  kind : EdgeKind
  deriving DecidableEq, Repr

def Relation.key (r : Relation) : EdgeKey := ⟨r.source, r.target, r.kind⟩

structure GraphEdge where
  source : String
  target : String
  kind : EdgeKind
  resolved : Bool
  count : Nat
  /-- The line of the first occurrence. -/
  line : Nat
  deriving DecidableEq, Repr

namespace GraphEdge

def key (e : GraphEdge) : EdgeKey := ⟨e.source, e.target, e.kind⟩

def joins (e : GraphEdge) (source target : String) (kind : EdgeKind) : Bool :=
  e.source == source && e.target == target && e.kind == kind

/-- The edge for the first occurrence of a relationship. -/
def first (r : Relation) : GraphEdge := ⟨r.source, r.target, r.kind, r.resolved, 1, r.line⟩

/-- The edge with one more occurrence. -/
def again (e : GraphEdge) : GraphEdge := { e with count := e.count + 1 }

end GraphEdge

structure Graph where
  nodes : List GraphNode
  edges : List GraphEdge
  /-- Where each edge stands among the edges, the latest first. -/
  places : List (EdgeKey × Nat)
  deriving DecidableEq, Repr

namespace Graph

def empty : Graph := ⟨[], [], []⟩

def node? (g : Graph) (name : String) : Option GraphNode := g.nodes.find? (·.name == name)

def edge? (g : Graph) (source target : String) (kind : EdgeKind) : Option GraphEdge :=
  (g.places.lookup ⟨source, target, kind⟩).bind fun place => g.edges[place]?

/-- Adds a node; a node with the name keeps its kind. -/
def addNode (g : Graph) (name : String) (kind : NodeKind) : Graph :=
  if (g.node? name).isSome then g else { g with nodes := g.nodes ++ [⟨name, kind⟩] }

/-- Counts an edge that is there once more, or puts it at the end. -/
def countEdge (g : Graph) (r : Relation) : Graph :=
  match g.places.lookup r.key with
  | some place => { g with edges := g.edges.modify place .again }
  | none =>
    { g with
      edges := g.edges ++ [.first r]
      places := (r.key, g.edges.length) :: g.places }

/-- Adds one occurrence of a relationship. Ends that are no nodes yet become external ones. -/
def addEdge (g : Graph) (r : Relation) : Graph :=
  ((g.addNode r.source .external).addNode r.target .external).countEdge r

/-- What the selected edges lead to, in order and each once. -/
def related (g : Graph) (select : GraphEdge → Option String) : List String :=
  Text.sortedNames (g.edges.filterMap select)

/-- The targets of the edges of some kinds that start at the name. -/
def targetsOf (g : Graph) (wanted : EdgeKind → Bool) (name : String) : List String :=
  g.related fun e => if wanted e.kind && e.source == name then some e.target else none

/-- The sources of the edges of some kinds that end at the name. -/
def sourcesOf (g : Graph) (wanted : EdgeKind → Bool) (name : String) : List String :=
  g.related fun e => if wanted e.kind && e.target == name then some e.source else none

/-- What the name calls or instantiates. -/
def callees (g : Graph) (name : String) : List String := g.targetsOf (·.isCall) name

def callers (g : Graph) (name : String) : List String := g.sourcesOf (·.isCall) name

def bases (g : Graph) (name : String) : List String := g.targetsOf (· == .inherits) name

def subclasses (g : Graph) (name : String) : List String := g.sourcesOf (· == .inherits) name

/-- What the name instantiates. -/
def instantiations (g : Graph) (name : String) : List String :=
  g.targetsOf (· == .instantiates) name

def instantiators (g : Graph) (name : String) : List String :=
  g.sourcesOf (· == .instantiates) name

end Graph

end SourceCorpus
