import Mathlib.Data.Nat.Find
import SourceCorpus.Proofs.Extraction.Calls
import SourceCorpus.Proofs.Extraction.Nesting

/-!
The objects of a model form a tree. Main statement: the module is its root, every other object is
numbered after the one that lists it and in a row with all that is inside it, and its kind is told by
its definition and by the object that lists it.
-/

namespace SourceCorpus

def CodeModel.HasChild (m : CodeModel) (p c : ObjectId) : Prop :=
  ∃ o, m.get? p = some o ∧ c ∈ o.children

namespace Extraction

open Syntax Tree

/-- The objects of the model are numbered from the root of a tree on, each before what is inside
it. -/
structure IsHierarchy (m : CodeModel) : Prop where
  root : ∃ o, m.get? CodeModel.moduleId = some o ∧ o.kind = .module ∧ o.parent = none ∧ o.depth = 0
  module : ∀ i o, m.get? i = some o → o.kind = .module → i = CodeModel.moduleId
  parent : ∀ i o, m.get? i = some o → i ≠ CodeModel.moduleId → ∃ p owner, p < i ∧
    o.parent = some p ∧ m.get? p = some owner ∧ i ∈ owner.children ∧ o.depth = owner.depth + 1
  children : ∀ i o, m.get? i = some o → o.children.Pairwise (· < ·) ∧
    ∀ c ∈ o.children, i < c ∧ c < m.size
  /-- All children together are the objects but the first, each once. -/
  listed : (m.objects.toList.flatMap (·.children)).Perm (List.range' 1 (m.size - 1))
  /-- An object and all that is below it are numbered in a row. -/
  interval : ∀ i < m.size, ∃ stop, ∀ j, Relation.ReflTransGen m.HasChild i j ↔ i ≤ j ∧ j < stop
  name : ∀ i o, m.get? i = some o → m.idOf? o.qualifiedName = some i

/-- The object is of the kind of its definition, which is a method if a class lists it. -/
structure HasKindOf (m : CodeModel) (owner : Tree) (o : CodeObject) : Prop where
  isClass : o.kind = .class ↔ owner.isKind .classDefinition
  isMethod : o.kind = .method ↔ owner.isKind .functionDefinition ∧
    ∃ p, o.parent.bind m.get? = some p ∧ p.kind = .class
  isFunction : o.kind = .function ↔ owner.isKind .functionDefinition ∧
    ¬∃ p, o.parent.bind m.get? = some p ∧ p.kind = .class

/-! ### Lists of children -/

section Lists

variable {objects : List CodeObject} {p i j : ObjectId} {owner o : CodeObject}

structure ListsChildren (objects : List CodeObject) : Prop where
  sorted : ∀ (i : ObjectId) (o : CodeObject), objects[i]? = some o → o.children.Pairwise (· < ·)
  mem_iff : ∀ (i : ObjectId) (o : CodeObject), objects[i]? = some o → ∀ j, j ∈ o.children ↔
    ∃ c, objects[j]? = some c ∧ c.parent = some i

theorem getElem?_withChildren (objects : List CodeObject) (i : ObjectId) :
    (withChildren objects)[i]? = objects[i]?.map fun o =>
      { o with
        children := (objects.zipIdx.filter fun (c, _) => c.parent == some i).map (·.2) } := by
  rw [withChildren, List.getElem?_map, List.getElem?_zipIdx, Option.map_map, Nat.zero_add]
  rfl

/-- All but its children is as before in an object that is given its children. -/
theorem exists_of_getElem?_withChildren (h : (withChildren objects)[i]? = some o) :
    ∃ o', objects[i]? = some o' ∧ o'.parent = o.parent ∧ o'.depth = o.depth ∧ o'.kind = o.kind := by
  rw [getElem?_withChildren, Option.map_eq_some_iff] at h
  obtain ⟨o', ho', rfl⟩ := h
  exact ⟨o', ho', rfl, rfl, rfl⟩

theorem exists_getElem?_withChildren (h : objects[i]? = some o) :
    ∃ o', (withChildren objects)[i]? = some o' ∧ o'.parent = o.parent ∧ o'.depth = o.depth ∧
      o'.kind = o.kind := by
  rw [getElem?_withChildren, h]
  exact ⟨_, rfl, rfl, rfl, rfl⟩

theorem listsChildren_withChildren (objects : List CodeObject) :
    ListsChildren (withChildren objects) := by
  refine ⟨fun i o ho => ?_, fun i o ho j => ?_⟩
  · rw [getElem?_withChildren, Option.map_eq_some_iff] at ho
    obtain ⟨o', -, rfl⟩ := ho
    have hsublist : ((objects.zipIdx.filter fun (c, _) => c.parent == some i).map (·.2)).Sublist
        (objects.zipIdx.map (·.2)) := List.filter_sublist.map _
    refine List.Pairwise.sublist hsublist ?_
    rw [List.zipIdx_map_snd]
    exact List.pairwise_lt_range' 1
  · rw [getElem?_withChildren, Option.map_eq_some_iff] at ho
    obtain ⟨o', -, rfl⟩ := ho
    simp only [List.mem_map, List.mem_filter, Prod.exists, List.mem_zipIdx_iff_getElem?, beq_iff_eq]
    constructor
    · rintro ⟨c, _, ⟨hc, hparent⟩, rfl⟩
      obtain ⟨c', hc', hparent', -⟩ := exists_getElem?_withChildren hc
      exact ⟨c', hc', hparent'.trans hparent⟩
    · rintro ⟨c, hc, hparent⟩
      obtain ⟨c', hc', hparent', -⟩ := exists_of_getElem?_withChildren hc
      exact ⟨c', j, ⟨hc', hparent'.trans hparent⟩, rfl⟩

theorem IsNested.withChildren (h : IsNested objects) : IsNested (withChildren objects) := by
  refine ⟨?_, fun i o ho => ?_⟩
  · obtain ⟨o, ho, hkind, hparent, hdepth⟩ := h.module
    obtain ⟨o', ho', hparent', hdepth', hkind'⟩ := exists_getElem?_withChildren ho
    exact ⟨o', ho', hkind'.trans hkind, hparent'.trans hparent, hdepth'.trans hdepth⟩
  · obtain ⟨o', ho', hparent, hdepth, hkind⟩ := exists_of_getElem?_withChildren ho
    obtain ⟨p, owner, hstands⟩ := h.inside i o' ho'
    obtain ⟨owner', howner, -, hdepth', hkind'⟩ := exists_getElem?_withChildren hstands.found
    refine ⟨p, owner', ⟨hparent ▸ hstands.parent, howner, hstands.lt, ?_, ?_, ?_⟩⟩
    · rw [← hdepth, hdepth', hstands.depth]
    · rw [hkind', ← hkind]
      exact hstands.kind
    · intro k c hk hki hc
      obtain ⟨c', hc', -, hdepthc, -⟩ := exists_of_getElem?_withChildren hc
      rw [hdepth', ← hdepthc]
      exact hstands.between k c' hk hki hc'

/-! ### What is below an object -/

def IsChildOf (objects : List CodeObject) (p c : ObjectId) : Prop :=
  ∃ o, objects[c]? = some o ∧ o.parent = some p

theorem IsNested.standsIn (h : IsNested objects) (ho : objects[i]? = some o)
    (hparent : o.parent = some p) : ∃ owner, StandsIn objects p owner i o := by
  cases i with
  | zero =>
    obtain ⟨module, hmodule, -, hnone, -⟩ := h.module
    rw [ho, Option.some_inj] at hmodule
    rw [← hmodule, hparent] at hnone
    cases hnone
  | succ i =>
    obtain ⟨q, owner, hstands⟩ := h.inside i o ho
    have hq : q = p := by
      rw [hstands.parent, Option.some_inj] at hparent
      exact hparent
    subst hq
    exact ⟨owner, hstands⟩

/-- The place is that of the object or behind it, and all objects on the way are deeper. -/
structure IsDeeperFrom (objects : List CodeObject) (i : ObjectId) (o : CodeObject) (j : ObjectId) :
    Prop where
  le : i ≤ j
  lt : j < objects.length
  deeper : ∀ (k : ObjectId) (c : CodeObject), i < k → k ≤ j → objects[k]? = some c → o.depth < c.depth

/-- A child of an object on the way is on the way. -/
theorem IsDeeperFrom.child {owner c : CodeObject} (h : IsDeeperFrom objects i o p)
    (ho : objects[i]? = some o) (hc : objects[j]? = some c)
    (hstands : StandsIn objects p owner j c) : IsDeeperFrom objects i o j := by
  have howner : o.depth ≤ owner.depth := by
    rcases Nat.lt_or_eq_of_le h.le with hlt | rfl
    · exact Nat.le_of_lt (h.deeper p owner hlt (Nat.le_refl p) hstands.found)
    · have heq := hstands.found
      rw [ho, Option.some_inj] at heq
      exact Nat.le_of_eq (congrArg _ heq)
  have hij : i ≤ j := Nat.le_of_lt (Nat.lt_of_le_of_lt h.le hstands.lt)
  refine ⟨hij, (List.getElem?_eq_some_iff.1 hc).1, fun k d hk hkj hd => ?_⟩
  by_cases hkp : k ≤ p
  · exact h.deeper k d hk hkp hd
  have hpk : p < k := Nat.not_le.1 hkp
  rcases Nat.lt_or_eq_of_le hkj with hlt | rfl
  · exact Nat.lt_of_le_of_lt howner (hstands.between k d hpk hlt hd)
  · rw [hc, Option.some_inj] at hd
    rw [← hd, hstands.depth]
    exact Nat.lt_succ_of_le howner

/-- The parent of an object on the way is on the way, unless that is where the way begins. -/
theorem IsDeeperFrom.parent {owner c : CodeObject} (h : IsDeeperFrom objects i o j) (hij : i < j)
    (ho : objects[i]? = some o) (hc : objects[j]? = some c)
    (hstands : StandsIn objects p owner j c) : IsDeeperFrom objects i o p := by
  have hdepth := h.deeper j c hij (Nat.le_refl j) hc
  rw [hstands.depth, Nat.lt_succ_iff] at hdepth
  refine ⟨Nat.not_lt.1 fun hpi => ?_, Nat.lt_trans hstands.lt h.lt, fun k d hk hkp => ?_⟩
  · exact absurd (hstands.between i o hpi hij ho) (Nat.not_lt.2 hdepth)
  · exact h.deeper k d hk (Nat.le_trans hkp (Nat.le_of_lt hstands.lt))

/-- The objects below one are those behind it up to the first that is not deeper. -/
theorem IsNested.reflTransGen_iff (h : IsNested objects) (ho : objects[i]? = some o) (j : ObjectId) :
    Relation.ReflTransGen (IsChildOf objects) i j ↔ IsDeeperFrom objects i o j := by
  refine ⟨fun hbelow => ?_, ?_⟩
  · induction hbelow with
    | refl =>
      refine ⟨Nat.le_refl i, (List.getElem?_eq_some_iff.1 ho).1, fun k c hk hki => ?_⟩
      exact absurd hk (Nat.not_lt.2 hki)
    | @tail p j _ hchild ih =>
      obtain ⟨c, hc, hparent⟩ := hchild
      obtain ⟨owner, hstands⟩ := h.standsIn hc hparent
      exact ih.child ho hc hstands
  -- A parent has a smaller number, so the induction is on the numbers.
  · induction j using Nat.strongRecOn with
    | ind j ih =>
      intro hdeeper
      rcases Nat.lt_or_eq_of_le hdeeper.le with hlt | rfl
      · obtain ⟨c, hc⟩ : ∃ c, objects[j]? = some c := ⟨_, List.getElem?_eq_getElem hdeeper.lt⟩
        obtain ⟨j, rfl⟩ := Nat.exists_eq_succ_of_ne_zero (Nat.ne_zero_of_lt hlt)
        obtain ⟨p, owner, hstands⟩ := h.inside j _ hc
        exact (ih p hstands.lt (hdeeper.parent hlt ho hc hstands)).tail ⟨_, hc, hstands.parent⟩
      · exact .refl

/-- What holds up to some number at most holds just below one. -/
theorem exists_forall_iff_lt {P : Nat → Prop} {n : Nat} (hdown : ∀ j k, k ≤ j → P j → P k)
    (hn : ¬P n) : ∃ stop, ∀ j, P j ↔ j < stop := by
  classical
  have hexists : ∃ j, ¬P j := ⟨n, hn⟩
  refine ⟨Nat.find hexists, fun j => ⟨fun hj => ?_, fun hj => ?_⟩⟩
  · exact Nat.not_le.1 fun hle => Nat.find_spec hexists (hdown j _ hle hj)
  · exact Decidable.not_not.1 (Nat.find_min hexists hj)

theorem IsNested.interval (h : IsNested objects) (hi : i < objects.length) :
    ∃ stop, ∀ j, Relation.ReflTransGen (IsChildOf objects) i j ↔ i ≤ j ∧ j < stop := by
  have ho : objects[i]? = some objects[i] := List.getElem?_eq_getElem hi
  obtain ⟨stop, hstop⟩ := exists_forall_iff_lt (n := objects.length)
    (P := fun j => j < objects.length ∧
      ∀ k c, i < k → k ≤ j → objects[k]? = some c → objects[i].depth < c.depth)
    (fun j k hkj hj => ⟨Nat.lt_of_le_of_lt hkj hj.1, fun l c hl hlk =>
      hj.2 l c hl (Nat.le_trans hlk hkj)⟩)
    (fun hn => Nat.lt_irrefl _ hn.1)
  refine ⟨stop, fun j => ?_⟩
  rw [h.reflTransGen_iff ho, ← hstop]
  exact ⟨fun h => ⟨h.le, h.lt, h.deeper⟩, fun h => ⟨h.1, h.2.1, h.2.2⟩⟩

/-! ### All children -/

theorem nodup_flatMap_children (hchildren : ListsChildren objects) :
    (objects.flatMap (·.children)).Nodup := by
  rw [List.nodup_flatMap]
  refine ⟨fun o ho => ?_, ?_⟩
  · obtain ⟨i, hi⟩ := List.getElem?_of_mem ho
    exact (hchildren.sorted i o hi).imp Nat.ne_of_lt
  · rw [List.pairwise_iff_getElem]
    intro i j hi hj hij
    change List.Disjoint _ _
    intro c hc hc'
    rw [hchildren.mem_iff i _ (List.getElem?_eq_getElem hi)] at hc
    rw [hchildren.mem_iff j _ (List.getElem?_eq_getElem hj)] at hc'
    obtain ⟨o, ho, hparent⟩ := hc
    obtain ⟨o', ho', hparent'⟩ := hc'
    rw [ho, Option.some_inj] at ho'
    rw [← ho', hparent, Option.some_inj] at hparent'
    exact Nat.ne_of_lt hij hparent'

theorem mem_flatMap_children (h : IsNested objects) (hchildren : ListsChildren objects)
    (c : Nat) : c ∈ objects.flatMap (·.children) ↔ 1 ≤ c ∧ c < objects.length := by
  rw [List.mem_flatMap]
  constructor
  · rintro ⟨owner, howner, hc⟩
    obtain ⟨p, hp⟩ := List.getElem?_of_mem howner
    obtain ⟨o, ho, hparent⟩ := (hchildren.mem_iff p owner hp c).1 hc
    obtain ⟨_, hstands⟩ := h.standsIn ho hparent
    exact ⟨Nat.lt_of_le_of_lt (Nat.zero_le p) hstands.lt, (List.getElem?_eq_some_iff.1 ho).1⟩
  · rintro ⟨hpos, hlt⟩
    obtain ⟨c, rfl⟩ := Nat.exists_eq_succ_of_ne_zero (Nat.ne_zero_of_lt hpos)
    have ho : objects[c + 1]? = some objects[c + 1] := List.getElem?_eq_getElem hlt
    obtain ⟨p, owner, hstands⟩ := h.inside c _ ho
    refine ⟨owner, List.mem_of_getElem? hstands.found, ?_⟩
    rw [hchildren.mem_iff p owner hstands.found]
    exact ⟨_, ho, hstands.parent⟩

theorem flatMap_children_perm (h : IsNested objects) (hchildren : ListsChildren objects) :
    (objects.flatMap (·.children)).Perm (List.range' 1 (objects.length - 1)) := by
  rw [List.perm_ext_iff_of_nodup (nodup_flatMap_children hchildren) List.nodup_range']
  intro c
  rw [mem_flatMap_children h hchildren, List.mem_range'_1]
  have hpos : 0 < objects.length := by
    obtain ⟨o, ho, -⟩ := h.module
    exact (List.getElem?_eq_some_iff.1 ho).1
  omega

end Lists

/-! ### Models -/

section Models

variable {source : List Char} {tree : Tree} {m : CodeModel}

theorem get?_eq (m : CodeModel) (i : ObjectId) : m.get? i = m.objects.toList[i]? := by
  rw [CodeModel.get?, ObjectTable.get?, ObjectTable.toList, Array.getElem?_toList]

theorem size_eq (m : CodeModel) : m.size = m.objects.toList.length := by
  rw [CodeModel.size, ObjectTable.size, ObjectTable.toList, Array.length_toList]

theorem hasChild_eq (hnested : IsNested m.objects.toList)
    (hchildren : ListsChildren m.objects.toList) : m.HasChild = IsChildOf m.objects.toList := by
  funext p c
  refine propext ⟨?_, ?_⟩
  · rintro ⟨o, ho, hc⟩
    rw [get?_eq] at ho
    exact (hchildren.mem_iff p o ho c).1 hc
  · rintro ⟨o, ho, hparent⟩
    obtain ⟨owner, hstands⟩ := hnested.standsIn ho hparent
    refine ⟨owner, ?_, (hchildren.mem_iff p owner hstands.found c).2 ⟨o, ho, hparent⟩⟩
    rw [get?_eq]
    exact hstands.found

theorem isHierarchy_of_isNested (hnested : IsNested m.objects.toList)
    (hchildren : ListsChildren m.objects.toList) : IsHierarchy m := by
  refine ⟨?_, fun i o ho hkind => ?_, fun i o ho hi => ?_, fun i o ho => ⟨?_, fun c hc => ?_⟩, ?_,
    fun i hi => ?_, fun i o => ObjectTable.idOf?_qualifiedName⟩
  · obtain ⟨o, ho, hmodule⟩ := hnested.module
    refine ⟨o, ?_, hmodule⟩
    rw [get?_eq]
    exact ho
  · rw [get?_eq] at ho
    cases i with
    | zero => rfl
    | succ i =>
      obtain ⟨p, owner, hstands⟩ := hnested.inside i o ho
      exact absurd hkind (kind_ne_module_of_admits hstands.kind)
  · rw [get?_eq] at ho
    obtain ⟨i, rfl⟩ := Nat.exists_eq_succ_of_ne_zero hi
    obtain ⟨p, owner, hstands⟩ := hnested.inside i o ho
    refine ⟨p, owner, hstands.lt, hstands.parent, ?_, ?_, hstands.depth⟩
    · rw [get?_eq]
      exact hstands.found
    · rw [hchildren.mem_iff p owner hstands.found]
      exact ⟨o, ho, hstands.parent⟩
  · rw [get?_eq] at ho
    exact hchildren.sorted i o ho
  · rw [get?_eq] at ho
    obtain ⟨child, hchild, hparent⟩ := (hchildren.mem_iff i o ho c).1 hc
    obtain ⟨_, hstands⟩ := hnested.standsIn hchild hparent
    rw [size_eq]
    exact ⟨hstands.lt, (List.getElem?_eq_some_iff.1 hchild).1⟩
  · rw [size_eq]
    exact flatMap_children_perm hnested hchildren
  · rw [size_eq] at hi
    rw [hasChild_eq hnested hchildren]
    exact hnested.interval hi

theorem isNested_modelOf (file : String) (source : List Char) (tree : Tree) :
    IsNested (modelOf file source tree).objects.toList := by
  rw [toList_objects_modelOf]
  let facts := factsOfAll source .value .top tree.children
  let module := moduleObject file source (docstringOf? source tree.children) facts
  have hfacts : AllBelongIn module.kind facts :=
    isClosed_allBelongIn.all (fun t _ => isClosed_allBelongIn.holdsOf t) .value .top
  have hmodule : IsNested [module] := ⟨⟨module, rfl, rfl, rfl, rfl⟩, fun i o ho => by cases ho⟩
  have hopen : IsOpen [module] CodeModel.moduleId module := isOpen_last [] module
  exact (deepens_addFacts facts hfacts hmodule hopen).isNested.withChildren

/-- Objects of classes are those of class statements. -/
theorem isClass_modelOf (file : String) (h : IsStatement tree) (hmodule : tree.isKind .module) :
    List.Forall₂ (fun owner o => o.kind = .class ↔ owner.isKind .classDefinition) (owners tree)
      (modelOf file source tree).objects.toList := by
  refine forall₂_owners_modelOf file h hmodule (fun _ _ _ ho => ho) ?_ fun entry d o _ hentry ho => ?_
  · refine iff_of_false (fun hkind => by cases hkind) ?_
    rw [isKind, beq_iff_eq] at hmodule
    rw [isKind, hmodule]
    decide
  · rw [CodeObject.kind, ho.payload, kind_payloadOf]
    exact hentry.isClass

/-- An object of a model is the module, or of a kind that its parent admits. -/
theorem isModule_or_admits (hnested : IsNested m.objects.toList) {o : CodeObject}
    (ho : o ∈ m.objects.toList) : o.kind = .module ∨
      ∃ owner, o.parent.bind m.get? = some owner ∧ Admits owner.kind o.kind := by
  obtain ⟨i, hi⟩ := List.getElem?_of_mem ho
  cases i with
  | zero =>
    obtain ⟨module, hmodule, hkind, -⟩ := hnested.module
    rw [hi, Option.some_inj] at hmodule
    exact .inl (hmodule ▸ hkind)
  | succ i =>
    obtain ⟨p, owner, hstands⟩ := hnested.inside i o hi
    refine .inr ⟨owner, ?_, hstands.kind⟩
    rw [hstands.parent, Option.bind_some, get?_eq]
    exact hstands.found

theorem isKind_functionDefinition_iff {t : Tree} :
    t.isKind .functionDefinition ↔ t.isDefinition ∧ ¬t.isKind .classDefinition := by
  have hkind (kind : Kind) : (kind == .functionDefinition) = true ↔
      kind.isDefinition ∧ ¬(kind == .classDefinition) = true := by
    cases kind <;> decide
  cases t with
  | node kind role extent children => exact hkind kind
  | error => exact ⟨(nomatch ·), fun h => nomatch h.1⟩
  | missing => exact ⟨(nomatch ·), fun h => nomatch h.1⟩

theorem hasKindOf_of_isObjectOf {owner : Tree} {o : CodeObject} (hobject : IsObjectOf source owner o)
    (hclass : o.kind = .class ↔ owner.isKind .classDefinition)
    (hparent : o.kind = .module ∨
      ∃ p, o.parent.bind m.get? = some p ∧ Admits p.kind o.kind) : HasKindOf m owner o := by
  have hfunction : owner.isKind .functionDefinition ↔ o.kind ≠ .module ∧ o.kind ≠ .class := by
    rw [isKind_functionDefinition_iff, ← hclass, ne_eq, hobject.kind, Bool.not_eq_false]
  rcases hparent with hmodule | ⟨p, hp, hkind⟩
  · exact ⟨hclass, by simp [hfunction, hmodule], by simp [hfunction, hmodule]⟩
  · have hlisted : (∃ p', o.parent.bind m.get? = some p' ∧ p'.kind = .class) ↔
        p.kind = .class := by simp [hp]
    rw [Admits] at hkind
    refine ⟨hclass, ?_, ?_⟩
    · rw [hfunction, hlisted]
      grind
    · rw [hfunction, hlisted]
      grind

variable {file source : String} {m : CodeModel}

theorem isNested_of_extract (h : extract file source = .ok m) : IsNested m.objects.toList := by
  obtain ⟨-, rfl⟩ := extract_eq_ok_iff.1 h
  exact isNested_modelOf ..

theorem listsChildren_of_extract (h : extract file source = .ok m) :
    ListsChildren m.objects.toList := by
  obtain ⟨-, rfl⟩ := extract_eq_ok_iff.1 h
  rw [toList_objects_modelOf]
  exact listsChildren_withChildren _

theorem hierarchy_of_extract (h : extract file source = .ok m) : IsHierarchy m :=
  isHierarchy_of_isNested (isNested_of_extract h) (listsChildren_of_extract h)

theorem haveKinds_of_extract (h : extract file source = .ok m) :
    List.Forall₂ (fun owner o => IsObjectOf source.toList owner o ∧ HasKindOf m owner o)
      (owners (parse source.toList)) m.objects.toList := by
  obtain ⟨hproblem, hm⟩ := extract_eq_ok_iff.1 h
  obtain ⟨hstatement, hmodule⟩ := isStatement_parse hproblem
  rw [hm]
  let m' := modelOf file source.toList (parse source.toList)
  have hobjects : RecordsCalls isRecorded source.toList _ m'.objects.toList :=
    recordsCalls_modelOf file hstatement hmodule
  have hclasses : List.Forall₂ _ _ m'.objects.toList := isClass_modelOf file hstatement hmodule
  have hparents : ∀ o ∈ m'.objects.toList, o.kind = .module ∨
      ∃ owner, o.parent.bind m'.get? = some owner ∧ Admits owner.kind o.kind :=
    fun o => isModule_or_admits (isNested_modelOf file _ _)
  have hkinds := ((List.forall₂_and_left _ _).2 ⟨hparents, hclasses.flip⟩).flip
  refine hobjects.mp (fun owner o ho hkind => ?_) hkinds
  exact ⟨ho.1, hasKindOf_of_isObjectOf ho.1 hkind.2 hkind.1⟩

/-- The objects of an accepted text form a tree, one for the module and one for each definition, and
are of the kinds of these. -/
theorem isHierarchy_of_extract {file source : String} {m : CodeModel}
    (h : extract file source = .ok m) :
    IsHierarchy m ∧ List.Forall₂ (fun owner o =>
      IsObjectOf source.toList owner o ∧ HasKindOf m owner o) (owners (parse source.toList))
      m.objects.toList :=
  ⟨hierarchy_of_extract h, haveKinds_of_extract h⟩

/-- A class with methods of one name, and functions in a method and beside the class. -/
theorem isHierarchy_of_class :
    let source := "class C:\n    def f(self):\n        def g(): pass\n    def f(self): pass\ndef f(): pass\n"
    ∃ m, extract "t.py" source = .ok m ∧ IsHierarchy m ∧
      List.Forall₂ (fun owner o => IsObjectOf source.toList owner o ∧ HasKindOf m owner o)
        (owners (parse source.toList)) m.objects.toList ∧
      m.objects.toList.map (fun o => (o.qualifiedName, o.kind, o.children)) =
        [("<module>", .module, [1, 5]), ("C", .class, [2, 4]), ("C.f", .method, [3]),
          ("C.f.g", .function, []), ("C.f#2", .method, []), ("f", .function, [])] := by
  intro source
  have hextract : extract "t.py" source =
      .ok (modelOf "t.py" source.toList (parse source.toList)) :=
    extract_eq_ok_iff.2 ⟨by decide +kernel, rfl⟩
  obtain ⟨hhierarchy, hkinds⟩ := isHierarchy_of_extract hextract
  exact ⟨_, hextract, hhierarchy, hkinds, by decide +kernel⟩

end Models

end Extraction

end SourceCorpus
