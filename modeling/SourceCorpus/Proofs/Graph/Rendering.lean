import Mathlib.Data.Prod.Lex
import Std.Data.String.ToNat
import SourceCorpus.Graph.Rendering
import SourceCorpus.Proofs.Graph.Operations
import SourceCorpus.Proofs.Order.Sorting
import SourceCorpus.Proofs.Text.ByteOrder

/-!
The canonical form of a graph. Main statement: it has every node and every edge once, in the one order
of their names, and graphs with the same nodes and edges have the same form, in whatever order they
were built.
-/

namespace SourceCorpus

/-- The order of the edges: by the bytes of the source, then by those of the target, then by kind. -/
def EdgeKey.Before (a b : EdgeKey) : Prop :=
  Text.BytesBefore a.source b.source ∨ a.source = b.source ∧
    (Text.BytesBefore a.target b.target ∨ a.target = b.target ∧ a.kind.rank < b.kind.rank)

namespace Graph

/-- The form lists what the graph has, in order and nothing twice. -/
structure IsRenderedInOrder (g : Graph) : Prop where
  nodes : g.sortedNodes.Perm g.nodes
  names : g.sortedNodes.Pairwise fun a b => Text.BytesBefore a.name b.name
  edges : g.sortedEdges.Perm g.edges
  keys : g.sortedEdges.Pairwise fun a b => a.key.Before b.key

structure HasSameParts (g g' : Graph) : Prop where
  nodes : ∀ node, node ∈ g.nodes ↔ node ∈ g'.nodes
  edges : ∀ e, e ∈ g.edges ↔ e ∈ g'.edges

end Graph

/-! ### The orders -/

def EdgeKey.place (key : EdgeKey) : String ×ₗ String ×ₗ ℕ :=
  toLex (key.source, toLex (key.target, key.kind.rank))

theorem EdgeKind.rank_injective : Function.Injective EdgeKind.rank := by
  intro a b h
  cases a <;> cases b <;> first | rfl | cases h

theorem EdgeKey.place_injective : Function.Injective EdgeKey.place := by
  intro a b h
  obtain ⟨hsource, hrest⟩ := Prod.mk.inj (toLex.injective h)
  obtain ⟨htarget, hkind⟩ := Prod.mk.inj (toLex.injective hrest)
  cases a
  cases b
  exact EdgeKey.mk.injEq .. ▸ ⟨hsource, htarget, EdgeKind.rank_injective hkind⟩

theorem EdgeKey.before_iff {a b : EdgeKey} : a.Before b ↔ a.place < b.place := by
  unfold Before place
  rw [Prod.Lex.toLex_lt_toLex, Prod.Lex.toLex_lt_toLex, Text.bytesBefore_iff_lt,
    Text.bytesBefore_iff_lt]

theorem GraphNode.notAfter_iff (a b : GraphNode) : a.notAfter b = true ↔ a.name ≤ b.name :=
  decide_eq_true_iff

theorem GraphEdge.notAfter_iff (a b : GraphEdge) :
    a.notAfter b = true ↔ a.key.place ≤ b.key.place := by
  unfold notAfter EdgeKey.place
  rw [Prod.Lex.toLex_le_toLex, Prod.Lex.toLex_le_toLex]
  by_cases hsource : a.source = b.source
  · by_cases htarget : a.target = b.target
    · simp [key, hsource, htarget]
    · simp [key, hsource, htarget]
  · simp [key, hsource]

/-! ### What is written for nodes and edges -/

theorem NodeKind.name_injective : Function.Injective NodeKind.name := by
  intro a b h
  rcases a with (_ | _ | _ | _) | _ <;> rcases b with (_ | _ | _ | _) | _ <;>
    first | rfl | exact absurd h (by decide)

theorem EdgeKind.name_injective : Function.Injective EdgeKind.name := by
  intro a b h
  cases a <;> cases b <;> first | rfl | exact absurd h (by decide)

theorem Json.ofNat_injective : Function.Injective Json.ofNat := by
  intro m n h
  exact Nat.repr_injective (Json.number.inj h)

theorem GraphNode.toJson_injective : Function.Injective GraphNode.toJson := by
  intro a b h
  simp only [toJson, Json.object.injEq, List.cons.injEq, Prod.mk.injEq, Json.string.injEq, true_and,
    and_true] at h
  cases a
  cases b
  exact GraphNode.mk.injEq .. ▸ ⟨h.2, NodeKind.name_injective h.1⟩

theorem GraphEdge.toJson_injective : Function.Injective GraphEdge.toJson := by
  intro a b h
  simp only [toJson, Json.object.injEq, List.cons.injEq, Prod.mk.injEq, Json.string.injEq,
    Json.bool.injEq, true_and, and_true] at h
  obtain ⟨hcount, hkind, hline, hresolved, hsource, htarget⟩ := h
  cases a
  cases b
  exact GraphEdge.mk.injEq .. ▸ ⟨hsource, htarget, EdgeKind.name_injective hkind, hresolved,
    Json.ofNat_injective hcount, Json.ofNat_injective hline⟩

/-! ### The form of a graph -/

namespace Graph

variable {g g' : Graph} {introduced introduced' : List GraphNode} {occurred occurred' : List Relation}

theorem HasEdges.nodup_places (h : g.HasEdges occurred) :
    (g.edges.map (·.key.place)).Nodup := by
  have hplaces := h.indexed.keys_nodup.map EdgeKey.place_injective
  rwa [List.map_map] at hplaces

theorem HasNodes.isRenderedInOrder (hnodes : g.HasNodes introduced) (hedges : g.HasEdges occurred) :
    g.IsRenderedInOrder where
  nodes := List.mergeSort_perm _ _
  names := by
    simp only [Text.bytesBefore_iff_lt]
    exact pairwise_lt_mergeSort GraphNode.notAfter_iff hnodes.nodup_names
  edges := List.mergeSort_perm _ _
  keys := by
    simp only [EdgeKey.before_iff]
    exact pairwise_lt_mergeSort GraphEdge.notAfter_iff hedges.nodup_places

/-- The form tells what the nodes and the edges are. -/
theorem toJson_eq_iff : g.toJson = g'.toJson ↔
    g.sortedNodes = g'.sortedNodes ∧ g.sortedEdges = g'.sortedEdges := by
  constructor
  · intro h
    simp only [toJson, Json.object.injEq, List.cons.injEq, Prod.mk.injEq, Json.array.injEq, true_and,
      and_true] at h
    exact ⟨GraphNode.toJson_injective.list_map h.2, GraphEdge.toJson_injective.list_map h.1⟩
  · rintro ⟨hnodes, hedges⟩
    unfold toJson
    rw [hnodes, hedges]

/-- Lists that come to the same order have the same members. -/
theorem hasSameParts_of_sorted_eq (hnodes : g.sortedNodes = g'.sortedNodes)
    (hedges : g.sortedEdges = g'.sortedEdges) : g.HasSameParts g' where
  nodes node := by
    have hmem : ∀ x : Graph, node ∈ x.sortedNodes ↔ node ∈ x.nodes := fun _ => List.mem_mergeSort
    rw [← hmem, hnodes, hmem]
  edges e := by
    have hmem : ∀ x : Graph, e ∈ x.sortedEdges ↔ e ∈ x.edges := fun _ => List.mem_mergeSort
    rw [← hmem, hedges, hmem]

theorem HasNodes.sortedNodes_eq (h : g.HasNodes introduced) (h' : g'.HasNodes introduced')
    (hsame : ∀ node, node ∈ g.nodes ↔ node ∈ g'.nodes) : g.sortedNodes = g'.sortedNodes := by
  have hperm : g.nodes.Perm g'.nodes :=
    (List.perm_ext_iff_of_nodup (.of_map _ h.nodup_names) (.of_map _ h'.nodup_names)).2 hsame
  exact mergeSort_eq_of_perm GraphNode.notAfter_iff (hperm.trans (List.mergeSort_perm _ _).symm)
    (pairwise_lt_mergeSort GraphNode.notAfter_iff h'.nodup_names)

theorem HasEdges.sortedEdges_eq (h : g.HasEdges occurred) (h' : g'.HasEdges occurred')
    (hsame : ∀ e, e ∈ g.edges ↔ e ∈ g'.edges) : g.sortedEdges = g'.sortedEdges := by
  have hperm : g.edges.Perm g'.edges :=
    (List.perm_ext_iff_of_nodup (.of_map _ h.nodup_places) (.of_map _ h'.nodup_places)).2 hsame
  exact mergeSort_eq_of_perm GraphEdge.notAfter_iff (hperm.trans (List.mergeSort_perm _ _).symm)
    (pairwise_lt_mergeSort GraphEdge.notAfter_iff h'.nodup_places)

/-- The form of a graph that operations made is in order, and two such graphs have the same form
exactly if they have the same nodes and edges. -/
theorem rendering_canonical (operations operations' : List GraphOperation) :
    (ofOperations operations).IsRenderedInOrder ∧
      ((ofOperations operations).toJson = (ofOperations operations').toJson ↔
        (ofOperations operations).HasSameParts (ofOperations operations')) := by
  have hnodes := hasNodes_ofOperations operations
  have hedges := hasEdges_ofOperations operations
  refine ⟨hnodes.isRenderedInOrder hedges, toJson_eq_iff.trans ⟨?_, ?_⟩⟩
  · intro h
    exact hasSameParts_of_sorted_eq h.1 h.2
  · intro h
    exact ⟨hnodes.sortedNodes_eq (hasNodes_ofOperations operations') h.nodes,
      hedges.sortedEdges_eq (hasEdges_ofOperations operations') h.edges⟩

end Graph

end SourceCorpus
