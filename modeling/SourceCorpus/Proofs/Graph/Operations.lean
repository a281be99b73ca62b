import Mathlib.Algebra.Ring.Nat
import Mathlib.Data.List.Induction
import SourceCorpus.Model.CodeModel
import SourceCorpus.Proofs.Graph.Index

/-!
What a graph remembers of the operations that made it. Main statement: after any operations on the
empty graph, its nodes are the names in the order in which they were introduced, each of the kind that
it was introduced with, its edges are the relationships in the order in which they first occurred,
each with the number of its occurrences, and the index leads to every edge.
-/

namespace SourceCorpus

inductive GraphOperation where
  | addNode (node : GraphNode)
  | addEdge (relation : Relation)
  deriving DecidableEq, Repr

namespace GraphOperation

def introduced : GraphOperation → List GraphNode
  | addNode node => [node]
  | addEdge r => [⟨r.source, .external⟩, ⟨r.target, .external⟩]

def relation? : GraphOperation → Option Relation
  | addNode _ => none
  | addEdge r => some r

end GraphOperation

namespace Graph

def apply (g : Graph) : GraphOperation → Graph
  | .addNode node => g.addNode node.name node.kind
  | .addEdge r => g.addEdge r

def ofOperations (operations : List GraphOperation) : Graph := operations.foldl apply empty

/-- The edge for all occurrences of a relationship: it has their number, and the line and the mark of
the first. -/
def edgeOf? : List Relation → Option GraphEdge
  | [] => none
  | r :: rs => some ⟨r.source, r.target, r.kind, r.resolved, rs.length + 1, r.line⟩

def occurrences (edges : List GraphEdge) (wanted : EdgeKey → Bool) : Nat :=
  ((edges.filter (wanted ·.key)).map (·.count)).sum

structure HasNodes (g : Graph) (introduced : List GraphNode) : Prop where
  names : g.nodes.map (·.name) = (introduced.map (·.name)).eraseDups
  node : ∀ name, g.node? name = introduced.find? (·.name == name)

structure HasEdges (g : Graph) (occurred : List Relation) : Prop where
  indexed : g.IsIndexed
  keys : g.edges.map (·.key) = (occurred.map (·.key)).eraseDups
  edge : ∀ key, g.edges.find? (·.key == key) = edgeOf? (occurred.filter (·.key == key))
  count : ∀ wanted : EdgeKey → Bool, occurrences g.edges wanted = occurred.countP (wanted ·.key)

/-- The graph holds what the operations have put into it, in their order, and its parts agree. -/
structure Remembers (g : Graph) (operations : List GraphOperation) : Prop where
  nodes : g.HasNodes (operations.flatMap (·.introduced))
  keys : g.edges.map (·.key) = ((operations.filterMap (·.relation?)).map (·.key)).eraseDups
  ends : ∀ e ∈ g.edges, (g.node? e.source).isSome ∧ (g.node? e.target).isSome
  place : ∀ key place, g.places.lookup key = some place ↔
    ∃ e, g.edges[place]? = some e ∧ e.key = key
  edge : ∀ source target kind, g.edge? source target kind =
    edgeOf? ((operations.filterMap (·.relation?)).filter (·.key == ⟨source, target, kind⟩))
  /-- The edge that is found is the only one with its ends and its kind. -/
  found : ∀ source target kind e, g.edge? source target kind = some e ↔
    e ∈ g.edges ∧ e.key = ⟨source, target, kind⟩
  count : (g.edges.map (·.count)).sum = (operations.filterMap (·.relation?)).length

variable {g : Graph} {introduced : List GraphNode} {occurred : List Relation} {r : Relation}

/-! ### Nodes -/

theorem node?_addNode (g : Graph) (node : GraphNode) (name : String) :
    (g.addNode node.name node.kind).node? name =
      (g.node? name).or (if node.name == name then some node else none) := by
  rw [addNode]
  split
  next h =>
    by_cases hname : node.name = name
    · rw [← hname, Option.or_of_isSome h]
    · simp [hname]
  next => rw [node?, List.find?_append, List.find?_singleton]; rfl

theorem names_addNode (g : Graph) (name : String) (kind : NodeKind) :
    (g.addNode name kind).nodes.map (·.name) =
      if (g.nodes.map (·.name)).contains name then g.nodes.map (·.name)
      else g.nodes.map (·.name) ++ [name] := by
  have hknown : (g.node? name).isSome = (g.nodes.map (·.name)).contains name := by
    rw [node?, Bool.eq_iff_iff]
    simp
  rw [addNode, hknown]
  split
  · rfl
  · rw [List.map_append, List.map_singleton]

theorem HasNodes.addNode (h : g.HasNodes introduced) (node : GraphNode) :
    (g.addNode node.name node.kind).HasNodes (introduced ++ [node]) where
  names := by
    rw [names_addNode, List.map_append, List.map_singleton, eraseDups_concat, h.names]
    simp
  node name := by
    rw [node?_addNode, h.node, List.find?_append, List.find?_singleton]

theorem HasNodes.countEdge (h : g.HasNodes introduced) (r : Relation) :
    (g.countEdge r).HasNodes introduced where
  names := by rw [nodes_countEdge, h.names]
  node name := by rw [← h.node, node?, node?, nodes_countEdge]

/-! ### Edges -/

variable {edges edges' : List GraphEdge}

theorem Counted.keys (h : Counted r edges edges') : edges'.map (·.key) =
    if (edges.map (·.key)).contains r.key then edges.map (·.key)
    else edges.map (·.key) ++ [r.key] := by
  cases h with
  | again key => simp [key]
  | first others => simpa [List.map_append] using others

theorem Counted.find? (h : Counted r edges edges') (key : EdgeKey) :
    edges'.find? (·.key == key) =
      if r.key = key then some (((edges.find? (·.key == key)).map .again).getD (.first r))
      else edges.find? (·.key == key) := by
  cases h with
  | @again before after e hkey others =>
    rw [List.forall_mem_append] at others
    by_cases heq : r.key = key
    · have hbefore : before.find? (·.key == key) = none := by
        rw [List.find?_eq_none]
        intro x hx
        simpa [← heq] using others.1 x hx
      simp [List.find?_append, hbefore, hkey, heq]
    · simp [List.find?_append, hkey, heq]
  | first others =>
    by_cases heq : r.key = key
    · have hold : edges.find? (·.key == key) = none := by
        rw [List.find?_eq_none]
        intro x hx
        simpa [← heq] using others x hx
      simp [List.find?_append, hold, heq]
    · simp [List.find?_append, heq]

theorem Counted.occurrences (h : Counted r edges edges') (wanted : EdgeKey → Bool) :
    occurrences edges' wanted = occurrences edges wanted + if wanted r.key then 1 else 0 := by
  rw [Graph.occurrences, Graph.occurrences]
  cases h with
  | @again before after e key =>
    rw [List.filter_append, List.filter_append, List.filter_cons, List.filter_cons,
      GraphEdge.key_again, key]
    cases wanted r.key
    · simp
    · simp only [if_true, List.map_append, List.map_cons, List.sum_append, List.sum_cons,
        GraphEdge.count_again]
      omega
  | first =>
    rw [List.filter_append, List.filter_singleton, GraphEdge.key_first]
    cases wanted r.key <;> simp

theorem edgeOf?_concat (occurred : List Relation) (r : Relation) :
    edgeOf? (occurred ++ [r]) = some (((edgeOf? occurred).map .again).getD (.first r)) := by
  cases occurred with
  | nil => rfl
  | cons first rest => simp [edgeOf?, GraphEdge.again]

theorem HasEdges.countEdge (h : g.HasEdges occurred) (r : Relation) :
    (g.countEdge r).HasEdges (occurred ++ [r]) where
  indexed := h.indexed.countEdge r
  keys := by
    rw [(h.indexed.counted r).keys, List.map_append, List.map_singleton, eraseDups_concat, h.keys]
    simp
  edge key := by
    rw [(h.indexed.counted r).find?, List.filter_append, h.edge]
    by_cases heq : r.key = key
    · rw [if_pos heq, List.filter_cons_of_pos (by simpa using heq), List.filter_nil, edgeOf?_concat]
    · rw [if_neg heq, List.filter_cons_of_neg (by simpa using heq), List.filter_nil,
        List.append_nil]
  count wanted := by
    rw [(h.indexed.counted r).occurrences, h.count, List.countP_append, List.countP_singleton]

theorem HasEdges.addNode (h : g.HasEdges occurred) (name : String) (kind : NodeKind) :
    (g.addNode name kind).HasEdges occurred where
  indexed := h.indexed.addNode name kind
  keys := by rw [edges_addNode, h.keys]
  edge key := by rw [edges_addNode, h.edge]
  count wanted := by rw [edges_addNode, h.count]

theorem hasEdges_empty : empty.HasEdges [] :=
  ⟨isIndexed_empty, rfl, fun _ => rfl, fun _ => rfl⟩

theorem hasNodes_empty : empty.HasNodes [] := ⟨rfl, fun _ => rfl⟩

/-! ### Operations -/

theorem HasNodes.apply (h : g.HasNodes introduced) (operation : GraphOperation) :
    (g.apply operation).HasNodes (introduced ++ operation.introduced) := by
  cases operation with
  | addNode node => exact h.addNode node
  | addEdge r =>
    have hends := (h.addNode ⟨r.source, .external⟩).addNode ⟨r.target, .external⟩
    rw [List.append_assoc] at hends
    exact hends.countEdge r

theorem HasEdges.apply (h : g.HasEdges occurred) (operation : GraphOperation) :
    (g.apply operation).HasEdges (occurred ++ operation.relation?.toList) := by
  cases operation with
  | addNode node =>
    rw [GraphOperation.relation?, Option.toList_none, List.append_nil]
    exact h.addNode node.name node.kind
  | addEdge r => exact ((h.addNode _ _).addNode _ _).countEdge r

theorem hasNodes_foldl_apply (h : g.HasNodes introduced) (operations : List GraphOperation) :
    (operations.foldl apply g).HasNodes (introduced ++ operations.flatMap (·.introduced)) := by
  induction operations generalizing g introduced with
  | nil => rwa [List.flatMap_nil, List.append_nil]
  | cons operation operations ih =>
    rw [List.flatMap_cons, ← List.append_assoc]
    exact ih (h.apply operation)

theorem hasEdges_foldl_apply (h : g.HasEdges occurred) (operations : List GraphOperation) :
    (operations.foldl apply g).HasEdges (occurred ++ operations.filterMap (·.relation?)) := by
  induction operations generalizing g occurred with
  | nil => rwa [List.filterMap_nil, List.append_nil]
  | cons operation operations ih =>
    have hrest : occurred ++ (operation :: operations).filterMap (·.relation?) =
        (occurred ++ operation.relation?.toList) ++ operations.filterMap (·.relation?) := by
      rw [List.append_assoc, List.filterMap_cons]
      cases operation.relation? <;> rfl
    rw [hrest]
    exact ih (h.apply operation)

theorem hasNodes_ofOperations (operations : List GraphOperation) :
    (ofOperations operations).HasNodes (operations.flatMap (·.introduced)) :=
  hasNodes_foldl_apply hasNodes_empty operations

theorem hasEdges_ofOperations (operations : List GraphOperation) :
    (ofOperations operations).HasEdges (operations.filterMap (·.relation?)) :=
  hasEdges_foldl_apply hasEdges_empty operations

/-! ### What the nodes and the edges tell -/

theorem nodup_eraseDups {α : Type} [BEq α] [LawfulBEq α] (values : List α) :
    values.eraseDups.Nodup := by
  induction values using List.reverseRecOn with
  | nil => exact List.nodup_nil
  | append_singleton values value ih =>
    rw [eraseDups_concat]
    split
    next => exact ih
    next hnew =>
      rw [List.nodup_append_comm]
      exact List.nodup_cons.2 ⟨by simpa using hnew, ih⟩

theorem HasNodes.nodup_names (h : g.HasNodes introduced) : (g.nodes.map (·.name)).Nodup := by
  rw [h.names]
  exact nodup_eraseDups _

theorem HasNodes.isSome_node? (h : g.HasNodes introduced) {node : GraphNode}
    (hnode : node ∈ introduced) : (g.node? node.name).isSome := by
  rw [h.node, List.find?_isSome]
  exact ⟨node, hnode, beq_self_eq_true _⟩

theorem IsIndexed.edge?_eq (h : g.IsIndexed) (source target : String) (kind : EdgeKind) :
    g.edge? source target kind = g.edges.find? (·.key == ⟨source, target, kind⟩) := by
  cases hfind : g.edges.find? (·.key == ⟨source, target, kind⟩) with
  | some e =>
    exact h.edge?_eq_some_iff.2
      ⟨List.mem_of_find?_eq_some hfind, by simpa using List.find?_some hfind⟩
  | none =>
    rw [Option.eq_none_iff_forall_ne_some]
    intro e he
    obtain ⟨hmem, hkey⟩ := h.edge?_eq_some_iff.1 he
    exact List.find?_eq_none.1 hfind e hmem (by simpa using hkey)

theorem HasEdges.edge?_eq (h : g.HasEdges occurred) (source target : String) (kind : EdgeKind) :
    g.edge? source target kind = edgeOf? (occurred.filter (·.key == ⟨source, target, kind⟩)) := by
  rw [h.indexed.edge?_eq, h.edge]

/-- A relationship that occurred has an edge. -/
theorem HasEdges.exists_edge (h : g.HasEdges occurred) (hr : r ∈ occurred) :
    ∃ e ∈ g.edges, e.key = r.key := by
  have hkey : r.key ∈ g.edges.map (·.key) := by
    rw [h.keys, List.mem_eraseDups]
    exact List.mem_map_of_mem hr
  exact List.mem_map.1 hkey

/-- An edge is there for a relationship that occurred, and has the mark of its first occurrence. -/
theorem HasEdges.exists_relation (h : g.HasEdges occurred) {e : GraphEdge} (he : e ∈ g.edges) :
    ∃ r ∈ occurred, r.key = e.key ∧ r.resolved = e.resolved := by
  have hfound := h.edge?_eq e.source e.target e.kind
  rw [h.indexed.edge?_eq_some_iff.2 ⟨he, rfl⟩] at hfound
  cases hoccurred : occurred.filter (·.key == ⟨e.source, e.target, e.kind⟩) with
  | nil => rw [hoccurred] at hfound; cases hfound
  | cons first rest =>
    have hfirst : first ∈ occurred.filter (·.key == ⟨e.source, e.target, e.kind⟩) :=
      hoccurred ▸ List.mem_cons_self
    rw [hoccurred, edgeOf?, Option.some_inj] at hfound
    obtain ⟨hmem, hkey⟩ := List.mem_filter.1 hfirst
    exact ⟨first, hmem, eq_of_beq hkey, (congrArg GraphEdge.resolved hfound).symm⟩

/-- A graph remembers the operations that made it. -/
theorem remembers_ofOperations (operations : List GraphOperation) :
    (ofOperations operations).Remembers operations := by
  have hnodes := hasNodes_ofOperations operations
  have hedges := hasEdges_ofOperations operations
  refine ⟨hnodes, hedges.keys, fun e he => ?_, hedges.indexed, hedges.edge?_eq,
    fun _ _ _ _ => hedges.indexed.edge?_eq_some_iff, ?_⟩
  -- An edge stands for an operation, which has introduced both of its ends.
  · obtain ⟨r, hr, hkey, -⟩ := hedges.exists_relation he
    obtain ⟨operation, hoperation, hr⟩ := List.mem_filterMap.1 hr
    have hintroduced : ∀ node ∈ operation.introduced,
        ((ofOperations operations).node? node.name).isSome := fun node hnode =>
      hnodes.isSome_node? (List.mem_flatMap.2 ⟨operation, hoperation, hnode⟩)
    cases operation with
    | addNode node => cases hr
    | addEdge r' =>
      obtain rfl : r' = r := Option.some.inj hr
      rw [Relation.key, GraphEdge.key, EdgeKey.mk.injEq] at hkey
      rw [← hkey.1, ← hkey.2.1]
      exact ⟨hintroduced ⟨r'.source, .external⟩ (by simp [GraphOperation.introduced]),
        hintroduced ⟨r'.target, .external⟩ (by simp [GraphOperation.introduced])⟩
  · have hcount := hedges.count fun _ => true
    rwa [occurrences, List.filter_eq_self.2 fun _ _ => rfl,
      List.countP_eq_length.2 fun _ _ => rfl] at hcount

end Graph

end SourceCorpus
