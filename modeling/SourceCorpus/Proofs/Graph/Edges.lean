import SourceCorpus.Graph.Build
import SourceCorpus.Proofs.Graph.Operations

/-!
What is in the graph of a model. Main statement: every relationship of the file has an edge, and both
of its ends are nodes.
-/

namespace SourceCorpus

def CodeObject.node (o : CodeObject) : GraphNode := ⟨o.qualifiedName, .object o.kind⟩

namespace Graph

structure Has (g : Graph) (r : Relation) : Prop where
  source : (g.node? r.source).isSome
  target : (g.node? r.target).isSome
  edge : ∃ e ∈ g.edges, e.joins r.source r.target r.kind

/-- The operations that make the graph of the model. -/
def operationsOf (m : CodeModel) : List GraphOperation :=
  m.objects.toList.map (fun o => .addNode o.node) ++ m.relations.map .addEdge

variable {m : CodeModel} {r : Relation}

theorem ofModel_eq (m : CodeModel) : ofModel m = ofOperations (operationsOf m) := by
  rw [ofOperations, operationsOf, List.foldl_append, List.foldl_map, List.foldl_map]
  rfl

theorem hasEdges_ofModel (m : CodeModel) : (ofModel m).HasEdges m.relations := by
  have hedges := hasEdges_ofOperations (operationsOf m)
  rw [← ofModel_eq] at hedges
  have hrelations : (operationsOf m).filterMap (·.relation?) = m.relations := by
    rw [operationsOf, List.filterMap_append, List.filterMap_map, List.filterMap_map]
    simp [Function.comp_def, GraphOperation.relation?]
  rwa [hrelations] at hedges

/-- Every relationship of the file is in its graph. -/
theorem has_ofModel (h : r ∈ m.relations) : (ofModel m).Has r := by
  have hnodes := hasNodes_ofOperations (operationsOf m)
  rw [← ofModel_eq] at hnodes
  have hend : ∀ node ∈ (GraphOperation.addEdge r).introduced,
      ((ofModel m).node? node.name).isSome := fun node hnode =>
    hnodes.isSome_node? (List.mem_flatMap.2
      ⟨.addEdge r, List.mem_append_right _ (List.mem_map_of_mem h), hnode⟩)
  obtain ⟨e, he, hkey⟩ := (hasEdges_ofModel m).exists_edge h
  exact ⟨hend ⟨r.source, .external⟩ (by simp [GraphOperation.introduced]),
    hend ⟨r.target, .external⟩ (by simp [GraphOperation.introduced]),
    e, he, GraphEdge.joins_iff.2 hkey⟩

end Graph

end SourceCorpus
