import SourceCorpus.Proofs.Graph.Edges
import SourceCorpus.Proofs.Graph.Relations

/-!
The graph of a model is complete. Main statement: its nodes are the objects and then names outside the
file, no call, base or import target is lost, and the ends of its edges are of the kinds that they
should be.
-/

namespace SourceCorpus

namespace CodeModel

def HasObject (m : CodeModel) (name : String) : Prop :=
  ∃ o ∈ m.objects.toList, o.qualifiedName = name

def HasClass (m : CodeModel) (name : String) : Prop :=
  ∃ o ∈ m.objects.toList, o.qualifiedName = name ∧ o.kind = .class

/-- What holds of the ends of a relationship by its kind, and whether its target was found. -/
structure IsTyped (m : CodeModel) (key : EdgeKey) (resolved : Bool) : Prop where
  imports : key.kind = .imports → key.source = moduleName ∧ resolved = false
  instantiates : key.kind = .instantiates → resolved ∧ m.HasClass key.target
  inherits : key.kind = .inherits → resolved → m.HasClass key.source ∧ m.HasClass key.target
  target : resolved → m.HasObject key.target

end CodeModel

namespace Graph

/-- The graph has the objects and all relationships of the model. -/
structure IsComplete (g : Graph) (m : CodeModel) : Prop where
  nodes : ∃ externals, g.nodes = m.objects.toList.map (·.node) ++ externals ∧
    ∀ node ∈ externals, node.kind = .external
  calls : ∀ o ∈ m.objects.toList, occurrences g.edges
    (fun key => key.kind.isCall && key.source == o.qualifiedName) = o.calls.length
  bases : ∀ o ∈ m.objects.toList, occurrences g.edges
    (fun key => key.kind == .inherits && key.source == o.qualifiedName) =
      (CodeModel.basesOf o).length
  imports : occurrences g.edges (·.kind == .imports) = (m.imports.map (·.targets.length)).sum
  edges : ∀ e ∈ g.edges, m.IsTyped e.key e.resolved

end Graph

/-! ### Relationships -/

namespace CodeModel

variable {m : CodeModel} {id : ObjectId} {o : CodeObject} {r : Relation}

theorem hasObject_of_get? (h : m.get? id = some o) : m.HasObject o.qualifiedName :=
  ⟨o, mem_toList_iff.2 ⟨id, h⟩, rfl⟩

theorem hasClass_of_get? (h : m.get? id = some o) (hkind : o.kind = .class) :
    m.HasClass o.qualifiedName :=
  ⟨o, mem_toList_iff.2 ⟨id, h⟩, rfl, hkind⟩

theorem kind_eq_class_of_mem_basesOf {base : String} (h : base ∈ basesOf o) : o.kind = .class := by
  rw [basesOf, CodeObject.classData?] at h
  rw [CodeObject.kind]
  split at h
  next data hdata => rw [hdata]; rfl
  next => cases h

/-- Nothing is required of a call or a base whose target was not found. -/
theorem isTyped_of_not_resolved {key : EdgeKey} (h : key.kind = .calls ∨ key.kind = .inherits) :
    m.IsTyped key false where
  imports himports := by rw [himports] at h; simp at h
  instantiates hinstantiates := by rw [hinstantiates] at h; simp at h
  inherits _ h := absurd h Bool.false_ne_true
  target h := absurd h Bool.false_ne_true

theorem isTyped_callInside {call : CallSite} {found : Found} {target : CodeObject}
    (htarget : m.get? id = some target) :
    m.IsTyped (callInside o call found target).key true where
  imports h := by
    rw [Relation.key, callInside] at h
    split at h <;> cases h
  instantiates h := by
    rw [Relation.key, callInside] at h
    split at h
    next hclass =>
      rw [Bool.and_eq_true, beq_iff_eq] at hclass
      exact ⟨rfl, hasClass_of_get? htarget hclass.2⟩
    next => cases h
  inherits h := by
    rw [Relation.key, callInside] at h
    split at h <;> cases h
  target _ := hasObject_of_get? htarget

theorem isTyped_baseInside {target : CodeObject} {i : ObjectId} (ho : m.get? id = some o)
    (hkind : o.kind = .class) (htarget : m.get? i = some target) (hclass : target.kind = .class) :
    m.IsTyped (baseInside o target).key true where
  imports h := by cases h
  instantiates h := by cases h
  inherits _ _ := ⟨hasClass_of_get? ho hkind, hasClass_of_get? htarget hclass⟩
  target _ := hasObject_of_get? htarget

/-- A call makes one relationship, which starts at its object. -/
theorem callRelation?_spec (m : CodeModel) (id : ObjectId) (o : CodeObject) (call : CallSite) :
    ∃ r, m.callRelation? id o call = some r ∧ r.source = o.qualifiedName ∧ r.kind.isCall ∧
      m.IsTyped r.key r.resolved := by
  rcases m.callRelation?_cases id o call with ⟨-, hr⟩ | ⟨found, target, -, htarget, hr⟩
  · exact ⟨_, hr, rfl, rfl, isTyped_of_not_resolved (.inl rfl)⟩
  · refine ⟨_, hr, rfl, ?_, isTyped_callInside htarget⟩
    rw [callInside]
    split <;> rfl

/-- A base makes one relationship, which starts at its class. -/
theorem baseRelation?_spec {base : String} (ho : m.get? id = some o) (hbase : base ∈ basesOf o) :
    ∃ r, m.baseRelation? o base = some r ∧ r.source = o.qualifiedName ∧ r.kind = .inherits ∧
      m.IsTyped r.key r.resolved := by
  rcases m.baseRelation?_cases o base with ⟨-, hr⟩ | ⟨found, -, -, hr⟩ |
    ⟨found, target, -, htarget, hclass, hr⟩
  · exact ⟨_, hr, rfl, rfl, isTyped_of_not_resolved (.inr rfl)⟩
  · exact ⟨_, hr, rfl, rfl, isTyped_of_not_resolved (.inr rfl)⟩
  · exact ⟨_, hr, rfl, rfl,
      isTyped_baseInside ho (kind_eq_class_of_mem_basesOf hbase) htarget hclass⟩

/-- What is known of the relationship for a call. -/
theorem spec_of_callRelation? {call : CallSite} (h : m.callRelation? id o call = some r) :
    r.source = o.qualifiedName ∧ r.kind.isCall ∧ m.IsTyped r.key r.resolved := by
  obtain ⟨r', hr', hspec⟩ := m.callRelation?_spec id o call
  rwa [Option.some.inj (hr'.symm.trans h)] at hspec

/-- What is known of the relationship for a base. -/
theorem spec_of_baseRelation? {base : String} (ho : m.get? id = some o) (hbase : base ∈ basesOf o)
    (h : m.baseRelation? o base = some r) :
    r.source = o.qualifiedName ∧ r.kind = .inherits ∧ m.IsTyped r.key r.resolved := by
  obtain ⟨r', hr', hspec⟩ := baseRelation?_spec ho hbase
  rwa [Option.some.inj (hr'.symm.trans h)] at hspec

/-- The ends of every relationship are of the kinds that they should be. -/
theorem isTyped_of_mem_relations (h : r ∈ m.relations) : m.IsTyped r.key r.resolved := by
  rcases mem_relations_iff.1 h with ⟨id, o, ho, call, -, hr⟩ | ⟨id, o, ho, base, hbase, hr⟩ |
    ⟨i, -, target, -, rfl⟩
  · exact (spec_of_callRelation? hr).2.2
  · exact (spec_of_baseRelation? ho hbase hr).2.2
  · refine ⟨fun _ => ⟨rfl, rfl⟩, ?_, ?_, ?_⟩ <;> intro h <;> cases h

/-! ### Numbers of relationships -/

theorem source_of_mem_objectRelations (ho : m.get? id = some o) (h : r ∈ m.objectRelations id o) :
    r.source = o.qualifiedName := by
  rcases List.mem_append.1 h with h | h
  · obtain ⟨call, -, hr⟩ := List.mem_filterMap.1 h
    exact (spec_of_callRelation? hr).1
  · obtain ⟨base, hbase, hr⟩ := List.mem_filterMap.1 h
    exact (spec_of_baseRelation? ho hbase hr).1

theorem countP_of_forall_eq {α : Type} {l : List α} {p : α → Bool} {b : Bool}
    (h : ∀ x ∈ l, p x = b) : l.countP p = if b then l.length else 0 := by
  cases b
  · exact List.countP_eq_zero.2 fun x hx hp => Bool.false_ne_true ((h x hx).symm.trans hp)
  · exact List.countP_eq_length.2 h

/-- An object has as many relationships as it has calls and bases. -/
theorem countP_objectRelations (ho : m.get? id = some o) (wanted : EdgeKind → Bool)
    (hcalls : wanted .calls = wanted .instantiates) :
    (m.objectRelations id o).countP (wanted ·.kind) =
      (if wanted .calls then o.calls.length else 0) +
        if wanted .inherits then (basesOf o).length else 0 := by
  have hkinds : ∀ kind : EdgeKind, kind.isCall → wanted kind = wanted .calls := by
    intro kind hkind
    cases kind with
    | calls => rfl
    | instantiates => exact hcalls.symm
    | inherits | imports => cases hkind
  rw [objectRelations, List.countP_append, countP_of_forall_eq (b := wanted .calls),
    countP_of_forall_eq (b := wanted .inherits), List.filterMap_length_eq_length.2,
    List.filterMap_length_eq_length.2]
  · intro base hbase
    obtain ⟨r, hr, -⟩ := baseRelation?_spec ho hbase
    exact Option.isSome_iff_exists.2 ⟨r, hr⟩
  · intro call _
    obtain ⟨r, hr, -⟩ := m.callRelation?_spec id o call
    exact Option.isSome_iff_exists.2 ⟨r, hr⟩
  · intro r h
    obtain ⟨base, hbase, hr⟩ := List.mem_filterMap.1 h
    exact congrArg wanted (spec_of_baseRelation? ho hbase hr).2.1
  · intro r h
    obtain ⟨call, -, hr⟩ := List.mem_filterMap.1 h
    exact hkinds _ (spec_of_callRelation? hr).2.1

/-- The relationships of objects that start at an object are its own. -/
theorem filter_source_objectRelations (ho : m.get? id = some o) :
    (m.entries.flatMap fun entry => m.objectRelations entry.1 entry.2).filter
      (·.source == o.qualifiedName) = m.objectRelations id o := by
  have hnodup : (m.entries.map (·.2.qualifiedName)).Nodup := m.names_entries ▸ m.objects.names_nodup
  have hentries : ∀ entry ∈ m.entries, m.get? entry.1 = some entry.2 :=
    fun entry hentry => mem_entries_iff.1 hentry
  obtain ⟨before, after, hsplit⟩ := List.append_of_mem (mem_entries_iff.2 ho)
  rw [hsplit] at hnodup hentries ⊢
  rw [List.map_append, List.map_cons, List.nodup_middle, List.nodup_cons, ← List.map_append] at hnodup
  have hothers : ∀ entry ∈ before ++ after,
      (m.objectRelations entry.1 entry.2).filter (·.source == o.qualifiedName) = [] := by
    intro entry hentry
    rw [List.filter_eq_nil_iff]
    intro r hr hsource
    have hmem : entry ∈ before ++ (id, o) :: after := by
      rw [List.mem_append, List.mem_cons]
      exact (List.mem_append.1 hentry).imp_right .inr
    refine hnodup.1 (List.mem_map.2 ⟨entry, hentry, ?_⟩)
    rw [← source_of_mem_objectRelations (hentries entry hmem) hr]
    exact eq_of_beq hsource
  rw [List.forall_mem_append] at hothers
  rw [List.filter_flatMap, List.flatMap_append, List.flatMap_cons,
    List.flatMap_eq_nil_iff.2 hothers.1, List.flatMap_eq_nil_iff.2 hothers.2, List.nil_append,
    List.append_nil, List.filter_eq_self]
  exact fun r hr => beq_iff_eq.2 (source_of_mem_objectRelations ho hr)

/-- The relationships of some kinds that start at an object. -/
theorem countP_relations_of_source (ho : m.get? id = some o) (wanted : EdgeKind → Bool)
    (hcalls : wanted .calls = wanted .instantiates) (himports : wanted .imports = false) :
    m.relations.countP (fun r => wanted r.kind && r.source == o.qualifiedName) =
      (if wanted .calls then o.calls.length else 0) +
        if wanted .inherits then (basesOf o).length else 0 := by
  have hrest : (m.imports.flatMap m.importRelations).countP
      (fun r => wanted r.kind && r.source == o.qualifiedName) = 0 := by
    rw [List.countP_eq_zero]
    intro r hr
    obtain ⟨i, -, hr⟩ := List.mem_flatMap.1 hr
    obtain ⟨target, -, rfl⟩ := List.mem_map.1 hr
    rw [himports, Bool.false_and]
    exact Bool.false_ne_true
  rw [relations_eq, List.countP_append, hrest, Nat.add_zero, ← List.countP_filter,
    filter_source_objectRelations ho, countP_objectRelations ho wanted hcalls]

theorem countP_relations_imports (m : CodeModel) :
    m.relations.countP (·.kind == .imports) = (m.imports.map (·.targets.length)).sum := by
  have hobjects : (m.entries.flatMap fun entry => m.objectRelations entry.1 entry.2).countP
      (·.kind == .imports) = 0 := by
    rw [List.countP_eq_zero]
    intro r hr
    obtain ⟨entry, hentry, hr⟩ := List.mem_flatMap.1 hr
    have hnone := countP_objectRelations (mem_entries_iff.1 hentry) (· == .imports) rfl
    exact List.countP_eq_zero.1 hnone r hr
  rw [relations_eq, List.countP_append, hobjects, Nat.zero_add, List.countP_flatMap]
  refine congrArg List.sum (List.map_congr_left fun i _ => ?_)
  rw [Function.comp_apply, countP_of_forall_eq (b := true), if_pos rfl, importRelations,
    List.length_map]
  intro r hr
  obtain ⟨target, -, rfl⟩ := List.mem_map.1 hr
  rfl

end CodeModel

/-! ### Nodes -/

namespace Graph

variable {g : Graph} {m : CodeModel}

/-- New names are put at the end, each with its kind. -/
theorem nodes_foldl_addNode (objects : List CodeObject)
    (h : (g.nodes.map (·.name) ++ objects.map (·.qualifiedName)).Nodup) :
    (objects.foldl (fun g o => g.addNode o.qualifiedName (.object o.kind)) g).nodes =
      g.nodes ++ objects.map (·.node) := by
  induction objects generalizing g with
  | nil => rw [List.foldl_nil, List.map_nil, List.append_nil]
  | cons o objects ih =>
    rw [List.map_cons] at h
    have hnew : ¬(g.node? o.qualifiedName).isSome := by
      rw [node?, List.find?_isSome]
      rintro ⟨node, hnode, hname⟩
      exact (List.nodup_append.1 h).2.2 _ (List.mem_map_of_mem hnode) _ List.mem_cons_self
        (eq_of_beq hname)
    have hadded : (g.addNode o.qualifiedName (.object o.kind)).nodes = g.nodes ++ [o.node] := by
      rw [addNode, if_neg hnew]
      rfl
    rw [List.foldl_cons, ih, hadded, List.append_assoc, List.map_cons, List.singleton_append]
    rw [hadded, List.map_append, List.append_assoc]
    exact h

/-- Relationships only add nodes for names outside the file. -/
theorem nodes_foldl_addEdge (g : Graph) (relations : List Relation) :
    ∃ externals, (relations.foldl addEdge g).nodes = g.nodes ++ externals ∧
      ∀ node ∈ externals, node.kind = .external := by
  have hadd (g : Graph) (name : String) : ∃ externals,
      (g.addNode name .external).nodes = g.nodes ++ externals ∧
        ∀ node ∈ externals, node.kind = .external := by
    rw [addNode]
    split
    · exact ⟨[], by simp, by simp⟩
    · exact ⟨[⟨name, .external⟩], rfl, by simp⟩
  induction relations generalizing g with
  | nil => exact ⟨[], by simp, by simp⟩
  | cons r relations ih =>
    obtain ⟨first, hfirst, hfirst'⟩ := hadd g r.source
    obtain ⟨second, hsecond, hsecond'⟩ := hadd (g.addNode r.source .external) r.target
    obtain ⟨rest, hrest, hrest'⟩ := ih (g.addEdge r)
    refine ⟨first ++ second ++ rest, ?_, ?_⟩
    · rw [List.foldl_cons, hrest, addEdge, nodes_countEdge, hsecond, hfirst]
      simp
    · simp only [List.forall_mem_append]
      exact ⟨⟨hfirst', hsecond'⟩, hrest'⟩

/-- The nodes are those of the objects and then those of names outside the file. -/
theorem nodes_ofModel (m : CodeModel) :
    ∃ externals, (ofModel m).nodes = m.objects.toList.map (·.node) ++ externals ∧
      ∀ node ∈ externals, node.kind = .external := by
  obtain ⟨externals, hnodes, hkinds⟩ := nodes_foldl_addEdge
    (m.objects.toList.foldl (fun g o => g.addNode o.qualifiedName (.object o.kind)) empty)
    m.relations
  have hobjects := nodes_foldl_addNode (g := empty) m.objects.toList m.objects.names_nodup
  exact ⟨externals, hnodes.trans (congrArg (· ++ externals) hobjects), hkinds⟩

/-- The graph of a model has all that is in the model. -/
theorem isComplete_ofModel (m : CodeModel) : (ofModel m).IsComplete m := by
  have hedges := hasEdges_ofModel m
  refine ⟨nodes_ofModel m, fun o ho => ?_, fun o ho => ?_, ?_, fun e he => ?_⟩
  · obtain ⟨id, ho⟩ := CodeModel.mem_toList_iff.1 ho
    rw [hedges.count]
    exact CodeModel.countP_relations_of_source ho EdgeKind.isCall rfl rfl
  · obtain ⟨id, ho⟩ := CodeModel.mem_toList_iff.1 ho
    rw [hedges.count]
    exact (CodeModel.countP_relations_of_source ho (· == .inherits) rfl rfl).trans
      (Nat.zero_add _)
  · rw [hedges.count]
    exact m.countP_relations_imports
  · obtain ⟨r, hr, hkey, hresolved⟩ := hedges.exists_relation he
    rw [← hkey, ← hresolved]
    exact CodeModel.isTyped_of_mem_relations hr

end Graph

end SourceCorpus
