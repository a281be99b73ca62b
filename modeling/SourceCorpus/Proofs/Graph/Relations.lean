import SourceCorpus.Graph.Build
import SourceCorpus.Proofs.Graph.Resolution

/-!
The relationships of a model. Main statement: every call of an object and every base of a class is
one relationship, whose target is an object if the name refers to one, and a name outside the file if
it does not.
-/

namespace SourceCorpus

namespace CodeModel

variable {m : CodeModel} {id : ObjectId} {o : CodeObject} {call : CallSite} {base : String}
  {r : Relation}

/-! ### Objects with their places -/

theorem mem_entries_iff : (id, o) ∈ m.entries ↔ m.get? id = some o := by
  have hget : m.get? id = m.objects.toList[id]? := Array.getElem?_toList.symm
  rw [hget, ← List.mem_zipIdx_iff_getElem? (x := (o, id)), entries]
  simp

theorem names_entries (m : CodeModel) :
    m.entries.map (·.2.qualifiedName) = m.objects.toList.map (·.qualifiedName) := by
  rw [entries, List.map_map]
  exact (List.map_map (f := Prod.fst)).symm.trans (congrArg _ (List.zipIdx_map_fst 0 _))

theorem mem_toList_iff : o ∈ m.objects.toList ↔ ∃ id, m.get? id = some o := by
  rw [List.mem_iff_getElem?]
  exact exists_congr fun id => by rw [← Array.getElem?_toList.symm]; rfl

/-! ### Calls -/

def callOutside (m : CodeModel) (o : CodeObject) (call : CallSite) : Relation :=
  ⟨o.qualifiedName, m.externalName call.callee, .calls, false, call.line⟩

def callInside (o : CodeObject) (call : CallSite) (found : Found) (target : CodeObject) : Relation :=
  ⟨o.qualifiedName, target.qualifiedName,
    if found.allClasses && target.kind == .class then .instantiates else .calls, true, call.line⟩

/-- A call is a relationship, inside the file or to the outside. -/
theorem callRelation?_cases (m : CodeModel) (id : ObjectId) (o : CodeObject) (call : CallSite) :
    (m.resolveInFile? id call.callee = none ∧
      m.callRelation? id o call = some (m.callOutside o call)) ∨
    ∃ found target, m.resolveInFile? id call.callee = some found ∧ m.get? found.id = some target ∧
      m.callRelation? id o call = some (callInside o call found target) := by
  cases hfound : m.resolveInFile? id call.callee with
  | none => exact .inl ⟨rfl, by rw [callRelation?, resolve, hfound]; rfl⟩
  | some found =>
    obtain ⟨target, htarget⟩ := Option.isSome_iff_exists.1 (isObject_of_resolveInFile? hfound)
    exact .inr ⟨found, target, rfl, htarget, by rw [callRelation?, resolve, hfound]; simp [htarget, callInside]⟩

/-! ### Bases -/

def baseOutside (o : CodeObject) (target : String) : Relation :=
  ⟨o.qualifiedName, target, .inherits, false, o.span.startLine⟩

def baseInside (o target : CodeObject) : Relation :=
  ⟨o.qualifiedName, target.qualifiedName, .inherits, true, o.span.startLine⟩

/-- A base is a relationship: to the outside, to a name that is no class, or to a class. -/
theorem baseRelation?_cases (m : CodeModel) (o : CodeObject) (base : String) :
    (m.resolveInFile? (scopeOfStatement o) (stripSubscript base) = none ∧
      m.baseRelation? o base = some (baseOutside o (m.externalName (stripSubscript base)))) ∨
    (∃ found, m.resolveInFile? (scopeOfStatement o) (stripSubscript base) = some found ∧
      m.kindOf? found.id ≠ some .class ∧
      m.baseRelation? o base = some (baseOutside o (stripSubscript base))) ∨
    ∃ found target, m.resolveInFile? (scopeOfStatement o) (stripSubscript base) = some found ∧
      m.get? found.id = some target ∧ target.kind = .class ∧
      m.baseRelation? o base = some (baseInside o target) := by
  rw [baseRelation?, baseTarget?, resolve]
  cases hfound : m.resolveInFile? (scopeOfStatement o) (stripSubscript base) with
  | none => exact .inl ⟨rfl, rfl⟩
  | some found =>
    obtain ⟨target, htarget⟩ := Option.isSome_iff_exists.1 (isObject_of_resolveInFile? hfound)
    by_cases hclass : m.kindOf? found.id = some .class
    · have hkind : target.kind = .class := by simpa [kindOf?, htarget] using hclass
      exact .inr (.inr ⟨found, target, rfl, htarget, hkind, by simp [hclass, htarget, baseInside]⟩)
    · exact .inr (.inl ⟨found, rfl, hclass, by simp [hclass, baseOutside]⟩)

/-! ### All relationships -/

theorem relations_eq (m : CodeModel) : m.relations =
    m.entries.flatMap (fun entry => m.objectRelations entry.1 entry.2) ++
      m.imports.flatMap m.importRelations := rfl

theorem mem_relations_of_call (ho : m.get? id = some o) (hcall : call ∈ o.calls)
    (h : m.callRelation? id o call = some r) : r ∈ m.relations := by
  refine List.mem_append_left _ (List.mem_flatMap.2 ⟨(id, o), mem_entries_iff.2 ho, ?_⟩)
  exact List.mem_append_left _ (List.mem_filterMap.2 ⟨call, hcall, h⟩)

/-- A relationship comes from a call, a base or an import. -/
theorem mem_relations_iff : r ∈ m.relations ↔
    (∃ id o, m.get? id = some o ∧ ∃ call ∈ o.calls, m.callRelation? id o call = some r) ∨
    (∃ id o, m.get? id = some o ∧ ∃ base ∈ basesOf o, m.baseRelation? o base = some r) ∨
    ∃ i ∈ m.imports, ∃ target ∈ i.targets,
      r = ⟨moduleName, Naming.absoluteName m.file target, .imports, false, i.line⟩ := by
  rw [relations_eq, List.mem_append, List.mem_flatMap, List.mem_flatMap, ← or_assoc]
  refine or_congr ?_ ?_
  · simp only [Prod.exists, mem_entries_iff, objectRelations, List.mem_append, List.mem_filterMap,
      and_or_left, exists_or]
  · simp only [importRelations, List.mem_map, eq_comm]

end CodeModel

end SourceCorpus
