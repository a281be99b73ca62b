import SourceCorpus.Proofs.Extraction.Calls
import SourceCorpus.Proofs.Extraction.QualifiedNames
import SourceCorpus.Proofs.Graph.Completeness
import SourceCorpus.Proofs.Graph.Neighbours

/-!
Names of things outside the file among the objects of the file. Main statement: they are kept apart
exactly if no object has the name of something that is imported, of a call or a base that an import
carries out of the file, or of a base that is no class.
-/

namespace SourceCorpus

namespace CodeModel

def isRewritten (m : CodeModel) (name : String) : Bool :=
  (m.importBindings.lookup (splitHead name).1).isSome

/-- What the name stands for outside the file, if it refers to nothing in the file and an import has
a say in it. A name that no import rewrites could only be that of the module. -/
def foreignName? (m : CodeModel) (scope : ObjectId) (name : String) : Option String :=
  match m.resolveInFile? scope name with
  | none => if m.isRewritten name || name == moduleName then some (m.externalName name) else none
  | some _ => none

def foreignBase? (m : CodeModel) (o : CodeObject) (base : String) : Option String :=
  match m.resolveInFile? (scopeOfStatement o) (stripSubscript base) with
  | none => m.foreignName? (scopeOfStatement o) (stripSubscript base)
  | some found => if m.kindOf? found.id = some .class then none else some (stripSubscript base)

/-- The names of things outside the file that might be spelled like objects. -/
def foreignNames (m : CodeModel) : List String :=
  (m.imports.flatMap fun i => i.targets.map (Naming.absoluteName m.file)) ++
    m.entries.flatMap fun entry =>
      entry.2.calls.filterMap (fun call => m.foreignName? entry.1 call.callee) ++
        (basesOf entry.2).filterMap (m.foreignBase? entry.2)

def Relates (m : CodeModel) (wanted : EdgeKind → Bool) (source target : String) : Prop :=
  ∃ r ∈ m.relations, r.resolved ∧ wanted r.kind ∧ r.source = source ∧ r.target = target

instance (m : CodeModel) (name : String) : Decidable (m.HasObject name) :=
  inferInstanceAs (Decidable (∃ _ ∈ _, _))

end CodeModel

namespace Graph

/-- What is outside the file has nodes of its own, which are not among the neighbours of objects. -/
structure KeepsApart (g : Graph) (m : CodeModel) : Prop where
  edges : ∀ e ∈ g.edges, e.resolved ↔ m.HasObject e.target
  nodes : ∀ r ∈ m.relations, r.resolved = false → g.node? r.target = some ⟨r.target, .external⟩
  callers : ∀ o ∈ m.objects.toList, ∀ name,
    name ∈ g.callers o.qualifiedName ↔ m.Relates (·.isCall) name o.qualifiedName
  subclasses : ∀ o ∈ m.objects.toList, ∀ name,
    name ∈ g.subclasses o.qualifiedName ↔ m.Relates (· == .inherits) name o.qualifiedName
  callees : ∀ o ∈ m.objects.toList, ∀ name, m.HasObject name →
    (name ∈ g.callees o.qualifiedName ↔ m.Relates (·.isCall) o.qualifiedName name)

end Graph

/-! ### Unresolved relationships -/

namespace CodeModel

variable {m : CodeModel} {id scope : ObjectId} {o : CodeObject} {name name' : String} {r : Relation}

theorem externalName_of_not_isRewritten (h : m.isRewritten name = false) :
    m.externalName name = name := by
  rw [isRewritten, Option.isSome_eq_false_iff, Option.isNone_iff_eq_none] at h
  rw [externalName]
  simp only [h]

/-- A name that no import rewrites would be found if it were that of an object. -/
theorem foreignName?_of_hasObject (hmodule : ∀ o, m.get? moduleId = some o → o.qualifiedName = moduleName)
    (hnone : m.resolveInFile? scope name = none) (hobject : m.HasObject (m.externalName name)) :
    m.foreignName? scope name = some (m.externalName name) := by
  rw [foreignName?, hnone]
  refine if_pos ?_
  rw [Bool.or_eq_true, beq_iff_eq, or_iff_not_imp_left, Bool.not_eq_true]
  intro hrewritten
  rw [externalName_of_not_isRewritten hrewritten] at hobject
  obtain ⟨o, ho, rfl⟩ := hobject
  obtain ⟨i, ho⟩ := mem_toList_iff.1 ho
  by_cases hi : i = moduleId
  · exact hmodule o (hi ▸ ho)
  · exact absurd rfl (qualifiedName_ne_of_resolveInFile? hnone ho hi)

theorem mem_foreignNames_iff : name ∈ m.foreignNames ↔
    (∃ i ∈ m.imports, ∃ target ∈ i.targets, Naming.absoluteName m.file target = name) ∨
    ∃ id o, m.get? id = some o ∧
      ((∃ call ∈ o.calls, m.foreignName? id call.callee = some name) ∨
        ∃ base ∈ basesOf o, m.foreignBase? o base = some name) := by
  simp only [foreignNames, List.mem_append, List.mem_flatMap, List.mem_map, List.mem_filterMap,
    Prod.exists, mem_entries_iff]

theorem foreignName?_eq_some (h : m.foreignName? scope name = some name') :
    m.resolveInFile? scope name = none ∧ m.externalName name = name' := by
  rw [foreignName?] at h
  split at h
  next hnone => exact ⟨hnone, Option.some.inj (Option.ite_none_right_eq_some.1 h).2⟩
  next => cases h

/-- A foreign name is the target of a relationship that leaves the file. -/
theorem exists_relation_of_mem_foreignNames (h : name ∈ m.foreignNames) :
    ∃ r ∈ m.relations, r.resolved = false ∧ r.target = name := by
  rcases mem_foreignNames_iff.1 h with ⟨i, hi, target, htarget, rfl⟩ |
    ⟨id, o, ho, ⟨call, hcall, hname⟩ | ⟨base, hbase, hname⟩⟩
  · exact ⟨_, mem_relations_iff.2 (.inr (.inr ⟨i, hi, target, htarget, rfl⟩)), rfl, rfl⟩
  · obtain ⟨hnone, rfl⟩ := foreignName?_eq_some hname
    rcases m.callRelation?_cases id o call with ⟨-, hr⟩ | ⟨found, target, hfound, -, -⟩
    · exact ⟨_, mem_relations_iff.2 (.inl ⟨id, o, ho, call, hcall, hr⟩), rfl, rfl⟩
    · rw [hnone] at hfound
      cases hfound
  · rw [foreignBase?] at hname
    rcases m.baseRelation?_cases o base with ⟨hnone, hr⟩ | ⟨found, hfound, hkind, hr⟩ |
      ⟨found, target, hfound, htarget, hclass, -⟩
    · rw [hnone] at hname
      obtain ⟨-, rfl⟩ := foreignName?_eq_some hname
      exact ⟨_, mem_relations_iff.2 (.inr (.inl ⟨id, o, ho, base, hbase, hr⟩)), rfl, rfl⟩
    · simp only [hfound, if_neg hkind, Option.some_inj] at hname
      exact ⟨_, mem_relations_iff.2 (.inr (.inl ⟨id, o, ho, base, hbase, hr⟩)), rfl, hname⟩
    · have hkind : m.kindOf? found.id = some .class := by rw [kindOf?, htarget, Option.map_some, hclass]
      simp only [hfound, if_pos hkind] at hname
      cases hname

/-- A relationship that leaves the file and arrives at an object nevertheless has a foreign name for
its target. -/
theorem mem_foreignNames_of_hasObject
    (hmodule : ∀ o, m.get? moduleId = some o → o.qualifiedName = moduleName)
    (hr : r ∈ m.relations) (hresolved : r.resolved = false) (hobject : m.HasObject r.target) :
    r.target ∈ m.foreignNames := by
  rw [mem_foreignNames_iff]
  rcases mem_relations_iff.1 hr with ⟨id, o, ho, call, hcall, hrelation⟩ |
    ⟨id, o, ho, base, hbase, hrelation⟩ | ⟨i, hi, target, htarget, rfl⟩
  · rcases m.callRelation?_cases id o call with ⟨hnone, hcases⟩ | ⟨found, target, -, -, hcases⟩
    · obtain rfl := Option.some.inj (hcases.symm.trans hrelation)
      exact .inr ⟨id, o, ho, .inl ⟨call, hcall, foreignName?_of_hasObject hmodule hnone hobject⟩⟩
    · obtain rfl := Option.some.inj (hcases.symm.trans hrelation)
      cases hresolved
  · rcases m.baseRelation?_cases o base with ⟨hnone, hcases⟩ | ⟨found, hfound, hkind, hcases⟩ |
      ⟨found, target, -, -, -, hcases⟩
    · obtain rfl := Option.some.inj (hcases.symm.trans hrelation)
      refine .inr ⟨id, o, ho, .inr ⟨base, hbase, ?_⟩⟩
      rw [foreignBase?, hnone]
      exact foreignName?_of_hasObject hmodule hnone hobject
    · obtain rfl := Option.some.inj (hcases.symm.trans hrelation)
      refine .inr ⟨id, o, ho, .inr ⟨base, hbase, ?_⟩⟩
      simp only [foreignBase?, hfound, if_neg hkind]
      rfl
    · obtain rfl := Option.some.inj (hcases.symm.trans hrelation)
      cases hresolved
  · exact .inl ⟨i, hi, target, htarget, rfl⟩

end CodeModel

/-! ### Nodes and neighbours -/

namespace Graph

variable {m : CodeModel} {r : Relation}

/-- An end of a relationship that is no object is an external node. -/
theorem node?_ofModel_of_not_hasObject (hr : r ∈ m.relations) (h : ¬m.HasObject r.target) :
    (ofModel m).node? r.target = some ⟨r.target, .external⟩ := by
  obtain ⟨externals, hnodes, hkinds⟩ := nodes_ofModel m
  obtain ⟨node, hnode⟩ := Option.isSome_iff_exists.1 (has_ofModel hr).target
  rw [node?] at hnode
  have hname : node.name = r.target := by simpa using List.find?_some hnode
  have hmem : node ∈ (ofModel m).nodes := List.mem_of_find?_eq_some hnode
  rw [hnodes, List.mem_append, List.mem_map] at hmem
  rcases hmem with ⟨o, ho, rfl⟩ | hexternal
  · exact absurd ⟨o, ho, hname⟩ h
  · rw [node?, hnode, Option.some_inj, ← hname, ← hkinds node hexternal]

/-- The node of an object is not external. -/
theorem node?_ofModel_of_hasObject {name : String} (h : m.HasObject name) :
    (ofModel m).node? name ≠ some ⟨name, .external⟩ := by
  obtain ⟨externals, hnodes, -⟩ := nodes_ofModel m
  obtain ⟨o, ho, rfl⟩ := h
  have hfound : ((m.objects.toList.map (·.node)).find? (·.name == o.qualifiedName)).isSome := by
    rw [List.find?_isSome]
    exact ⟨o.node, List.mem_map_of_mem ho, beq_self_eq_true _⟩
  obtain ⟨node, hnode⟩ := Option.isSome_iff_exists.1 hfound
  obtain ⟨o', -, rfl⟩ := List.mem_map.1 (List.mem_of_find?_eq_some hnode)
  rw [node?, hnodes, List.find?_append, hnode, Option.some_or]
  simp [CodeObject.node]

theorem mem_sourcesOf_ofModel {wanted : EdgeKind → Bool} {source target : String} :
    source ∈ (ofModel m).sourcesOf wanted target ↔
      ∃ r ∈ m.relations, wanted r.kind ∧ r.source = source ∧ r.target = target :=
  mem_sourcesOf.trans ((hasEdges_ofModel m).joins_iff _)

theorem mem_targetsOf_ofModel {wanted : EdgeKind → Bool} {source target : String} :
    target ∈ (ofModel m).targetsOf wanted source ↔
      ∃ r ∈ m.relations, wanted r.kind ∧ r.source = source ∧ r.target = target :=
  mem_targetsOf.trans ((hasEdges_ofModel m).joins_iff _)

/-- If relationships leave the file only for names that no object has, an object is related to
another one only inside the file. -/
theorem relates_iff (h : ∀ r ∈ m.relations, r.resolved = false → ¬m.HasObject r.target)
    (wanted : EdgeKind → Bool) {source target : String} (htarget : m.HasObject target) :
    (∃ r ∈ m.relations, wanted r.kind ∧ r.source = source ∧ r.target = target) ↔
      m.Relates wanted source target := by
  refine exists_congr fun r => and_congr_right fun hr => ⟨fun hends => ⟨?_, hends⟩, And.right⟩
  refine Bool.not_eq_false _ ▸ fun hresolved => h r hr hresolved (hends.2.2 ▸ htarget)

/-- The graph of a model keeps things outside the file apart exactly if they have names of their own. -/
theorem keepsApart_ofModel_iff
    (hmodule : ∀ o, m.get? CodeModel.moduleId = some o → o.qualifiedName = moduleName) :
    (ofModel m).KeepsApart m ↔ ∀ name ∈ m.foreignNames, ¬m.HasObject name := by
  constructor
  · intro h name hname hobject
    obtain ⟨r, hr, hresolved, rfl⟩ := CodeModel.exists_relation_of_mem_foreignNames hname
    exact node?_ofModel_of_hasObject hobject (h.nodes r hr hresolved)
  · intro h
    have houtside : ∀ r ∈ m.relations, r.resolved = false → ¬m.HasObject r.target :=
      fun r hr hresolved hobject =>
        h _ (CodeModel.mem_foreignNames_of_hasObject hmodule hr hresolved hobject) hobject
    refine ⟨fun e he => ?_, fun r hr hresolved => ?_, fun o ho name => ?_, fun o ho name => ?_,
      fun o ho name hname => ?_⟩
    · obtain ⟨r, hr, hkey, hresolved⟩ := (hasEdges_ofModel m).exists_relation he
      have htarget : r.target = e.target := congrArg EdgeKey.target hkey
      rw [← hresolved, ← htarget]
      refine ⟨(CodeModel.isTyped_of_mem_relations hr).target, fun hobject => ?_⟩
      exact Bool.not_eq_false _ ▸ fun hfalse => houtside r hr hfalse hobject
    · exact node?_ofModel_of_not_hasObject hr (houtside r hr hresolved)
    · exact mem_sourcesOf_ofModel.trans (relates_iff houtside EdgeKind.isCall ⟨o, ho, rfl⟩)
    · exact mem_sourcesOf_ofModel.trans (relates_iff houtside (· == .inherits) ⟨o, ho, rfl⟩)
    · exact mem_targetsOf_ofModel.trans (relates_iff houtside EdgeKind.isCall hname)

end Graph

namespace Extraction

open Syntax

variable {file source : String} {m : CodeModel}

/-- In the graph of a file, names of things outside stay apart from the objects exactly if no object
has one of the names. -/
theorem keepsApart_iff (h : extract file source = .ok m) :
    (Graph.ofModel m).KeepsApart m ↔ ∀ name ∈ m.foreignNames, ¬m.HasObject name :=
  Graph.keepsApart_ofModel_iff fun _ ho => qualifiedName_module h ho

/-- What is imported under names that the file does not define stays apart. -/
theorem keepsApart_of_new_names :
    let source := "import numpy as np\nclass A(np.Base):\n    pass\ndef f(x):\n    np.array(A())\n"
    ∃ m, extract "t.py" source = .ok m ∧ m.foreignNames = ["numpy", "numpy.Base", "numpy.array"] ∧
      (Graph.ofModel m).KeepsApart m := by
  intro source
  let m := modelOf "t.py" source.toList (parse source.toList)
  obtain ⟨hproblem, hnames, happart⟩ : (parse source.toList).hasProblem = false ∧
      m.foreignNames = ["numpy", "numpy.Base", "numpy.array"] ∧
      ∀ name ∈ m.foreignNames, ¬m.HasObject name := by decide +kernel
  have hextract : extract "t.py" source = .ok m := extract_eq_ok_iff.2 ⟨hproblem, rfl⟩
  exact ⟨m, hextract, hnames, (keepsApart_iff hextract).2 happart⟩

/-- A call of what an import binds arrives at the function of the file that has its name. -/
theorem not_keepsApart_of_same_name :
    let source := "import g as h\ndef g():\n    pass\ndef f():\n    h()\n"
    ∃ m, extract "t.py" source = .ok m ∧ ¬(Graph.ofModel m).KeepsApart m ∧
      (Graph.ofModel m).node? "g" = some ⟨"g", .object .function⟩ ∧
      (Graph.ofModel m).edge? "f" "g" .calls = some ⟨"f", "g", .calls, false, 1, 5⟩ ∧
      (Graph.ofModel m).callers "g" = ["f"] := by
  intro source
  let m := modelOf "t.py" source.toList (parse source.toList)
  obtain ⟨hproblem, hobject, hnode, hedge, hcallers⟩ :
      (parse source.toList).hasProblem = false ∧ m.HasObject "g" ∧
      (Graph.ofModel m).node? "g" = some ⟨"g", .object .function⟩ ∧
      (Graph.ofModel m).edge? "f" "g" .calls = some ⟨"f", "g", .calls, false, 1, 5⟩ ∧
      (Graph.ofModel m).callers "g" = ["f"] := by decide +kernel
  have hextract : extract "t.py" source = .ok m := extract_eq_ok_iff.2 ⟨hproblem, rfl⟩
  refine ⟨m, hextract, fun happart => ?_, hnode, hedge, hcallers⟩
  have hmem := ((Graph.hasEdges_ofModel m).indexed.edge?_eq_some_iff.1 hedge).1
  exact Bool.false_ne_true ((happart.edges _ hmem).2 hobject)

end Extraction

end SourceCorpus
