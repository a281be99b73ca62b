import Mathlib.Data.List.Nodup
import SourceCorpus.Graph.Basic

/-!
The index of a graph. Main statements: an occurrence is counted at the one edge with its key, or makes
the first one at the end, and the index goes on to find every edge where it stands.
-/

namespace SourceCorpus

@[simp] theorem GraphEdge.key_again (e : GraphEdge) : e.again.key = e.key := rfl

@[simp] theorem GraphEdge.count_again (e : GraphEdge) : e.again.count = e.count + 1 := rfl

@[simp] theorem GraphEdge.key_first (r : Relation) : (GraphEdge.first r).key = r.key := rfl

@[simp] theorem GraphEdge.count_first (r : Relation) : (GraphEdge.first r).count = 1 := rfl

theorem GraphEdge.joins_iff {e : GraphEdge} {source target : String} {kind : EdgeKind} :
    e.joins source target kind ↔ e.key = ⟨source, target, kind⟩ := by
  simp [joins, key, and_assoc]

namespace Graph

def IsIndexed (g : Graph) : Prop :=
  ∀ key place, g.places.lookup key = some place ↔ ∃ e, g.edges[place]? = some e ∧ e.key = key

/-- The edges before and after one more occurrence. -/
inductive Counted (r : Relation) : List GraphEdge → List GraphEdge → Prop where
  | again {before after : List GraphEdge} {e : GraphEdge} (key : e.key = r.key)
      (others : ∀ x ∈ before ++ after, x.key ≠ r.key) :
      Counted r (before ++ e :: after) (before ++ e.again :: after)
  | first {edges : List GraphEdge} (others : ∀ x ∈ edges, x.key ≠ r.key) :
      Counted r edges (edges ++ [.first r])

variable {g : Graph} {r : Relation} {edges edges' : List GraphEdge}

theorem isIndexed_empty : empty.IsIndexed := by
  intro key place
  simp [empty]

/-! ### The index -/

/-- No two edges have the same key. -/
theorem IsIndexed.place_inj (h : g.IsIndexed) {i j : Nat} {e e' : GraphEdge}
    (hi : g.edges[i]? = some e) (hj : g.edges[j]? = some e') (hkey : e.key = e'.key) : i = j := by
  have hfound : g.places.lookup e'.key = some i := (h _ _).2 ⟨e, hi, hkey⟩
  rw [(h _ _).2 ⟨e', hj, rfl⟩, Option.some_inj] at hfound
  exact hfound.symm

theorem IsIndexed.keys_nodup (h : g.IsIndexed) : (g.edges.map (·.key)).Nodup := by
  rw [List.nodup_iff_pairwise_ne, List.pairwise_map, List.pairwise_iff_getElem]
  intro i j hi hj hij hkey
  exact Nat.ne_of_lt hij
    (h.place_inj (List.getElem?_eq_getElem hi) (List.getElem?_eq_getElem hj) hkey)

theorem IsIndexed.edge?_eq_some_iff (h : g.IsIndexed) {source target : String} {kind : EdgeKind}
    {e : GraphEdge} :
    g.edge? source target kind = some e ↔ e ∈ g.edges ∧ e.key = ⟨source, target, kind⟩ := by
  rw [edge?, Option.bind_eq_some_iff]
  constructor
  · rintro ⟨place, hplace, he⟩
    obtain ⟨e', he', hkey⟩ := (h _ _).1 hplace
    obtain rfl : e' = e := Option.some.inj (he'.symm.trans he)
    exact ⟨List.mem_of_getElem? he, hkey⟩
  · rintro ⟨hmem, hkey⟩
    obtain ⟨place, he⟩ := List.getElem?_of_mem hmem
    exact ⟨place, (h _ _).2 ⟨e, he, hkey⟩, he⟩

/-- The index knows no place for a key that no edge has. -/
theorem IsIndexed.lookup_eq_none_iff (h : g.IsIndexed) {key : EdgeKey} :
    g.places.lookup key = none ↔ ∀ e ∈ g.edges, e.key ≠ key := by
  constructor
  · intro hnone e he hkey
    obtain ⟨place, hplace⟩ := List.getElem?_of_mem he
    rw [(h key place).2 ⟨e, hplace, hkey⟩] at hnone
    cases hnone
  · intro hother
    rw [Option.eq_none_iff_forall_ne_some]
    intro place hplace
    obtain ⟨e, he, hkey⟩ := (h key place).1 hplace
    exact hother e (List.mem_of_getElem? he) hkey

/-! ### One more occurrence -/

theorem countEdge_of_some {place : Nat} (h : g.places.lookup r.key = some place) :
    g.countEdge r = { g with edges := g.edges.modify place .again } := by
  rw [countEdge, h]

theorem countEdge_of_none (h : g.places.lookup r.key = none) :
    g.countEdge r = { g with
      edges := g.edges ++ [.first r]
      places := (r.key, g.edges.length) :: g.places } := by
  rw [countEdge, h]

@[simp] theorem nodes_countEdge (g : Graph) (r : Relation) : (g.countEdge r).nodes = g.nodes := by
  rw [countEdge]
  split <;> rfl

theorem IsIndexed.counted (h : g.IsIndexed) (r : Relation) :
    Counted r g.edges (g.countEdge r).edges := by
  cases hplace : g.places.lookup r.key with
  | none =>
    rw [countEdge_of_none hplace]
    exact .first (h.lookup_eq_none_iff.1 hplace)
  | some place =>
    rw [countEdge_of_some hplace]
    obtain ⟨e, he, hkey⟩ := (h _ _).1 hplace
    obtain ⟨hlt, rfl⟩ := List.getElem?_eq_some_iff.1 he
    have hsplit : g.edges = g.edges.take place ++ g.edges[place] :: g.edges.drop (place + 1) := by
      rw [← List.drop_eq_getElem_cons hlt, List.take_append_drop]
    have hnodup := h.keys_nodup
    rw [hsplit, List.map_append, List.map_cons, List.nodup_middle, List.nodup_cons,
      ← List.map_append, hkey] at hnodup
    have hcounted := Counted.again (r := r) hkey fun x hx heq =>
      hnodup.1 (heq ▸ List.mem_map_of_mem hx)
    rw [← hsplit, ← List.modify_eq_take_cons_drop hlt] at hcounted
    exact hcounted

theorem exists_concat_iff {edges : List GraphEdge} {e' : GraphEdge} {key : EdgeKey} {place : Nat} :
    (∃ e, (edges ++ [e'])[place]? = some e ∧ e.key = key) ↔
      (∃ e, edges[place]? = some e ∧ e.key = key) ∨ place = edges.length ∧ e'.key = key := by
  rcases Nat.lt_trichotomy place edges.length with hlt | rfl | hgt
  · rw [List.getElem?_append_left hlt]
    simp [Nat.ne_of_lt hlt]
  · simp
  · rw [List.getElem?_eq_none (by simp; omega), List.getElem?_eq_none (Nat.le_of_lt hgt)]
    simp [Nat.ne_of_gt hgt]

/-- The index is right again after one more occurrence. -/
theorem IsIndexed.countEdge (h : g.IsIndexed) (r : Relation) : (g.countEdge r).IsIndexed := by
  intro key place
  cases hplace : g.places.lookup r.key with
  | some found =>
    -- The edges stand where they stood and have the keys that they had.
    rw [countEdge_of_some hplace]
    refine (h key place).trans ?_
    simp only [List.getElem?_modify, Option.map_eq_map, Option.map_eq_some_iff]
    constructor
    · rintro ⟨e, he, hkey⟩
      exact ⟨_, ⟨e, he, rfl⟩, by split <;> exact hkey⟩
    · rintro ⟨_, ⟨e, he, rfl⟩, hkey⟩
      exact ⟨e, he, by split at hkey <;> exact hkey⟩
  | none =>
    rw [countEdge_of_none hplace, exists_concat_iff, ← h key place, List.lookup_cons]
    by_cases hkey : key = r.key
    · subst hkey
      simp [hplace, eq_comm]
    · simp [beq_eq_false_iff_ne.2 hkey, Ne.symm hkey]

/-! ### Nodes and edges together -/

@[simp] theorem edges_addNode (g : Graph) (name : String) (kind : NodeKind) :
    (g.addNode name kind).edges = g.edges := by
  rw [addNode]
  split <;> rfl

@[simp] theorem places_addNode (g : Graph) (name : String) (kind : NodeKind) :
    (g.addNode name kind).places = g.places := by
  rw [addNode]
  split <;> rfl

theorem IsIndexed.addNode (h : g.IsIndexed) (name : String) (kind : NodeKind) :
    (g.addNode name kind).IsIndexed := by
  intro key place
  rw [places_addNode, edges_addNode]
  exact h key place

theorem IsIndexed.addEdge (h : g.IsIndexed) (r : Relation) : (g.addEdge r).IsIndexed :=
  ((h.addNode _ _).addNode _ _).countEdge r

end Graph

end SourceCorpus
