import Mathlib.Data.List.TakeWhile
import SourceCorpus.Proofs.Extraction.Hierarchy

/-!
What is below an object. Main statement: the search for it comes to an end, and finds the objects
whose parents lead to the object, which are numbered in a row behind it.
-/

namespace SourceCorpus

namespace CodeModel

def HasParent (m : CodeModel) (c p : ObjectId) : Prop :=
  ∃ o, m.get? c = some o ∧ o.parent = some p

/-- The objects are all those whose parents lead to the object with the number, each once and in
order. -/
def AreBelow (m : CodeModel) (id : ObjectId) (found : List CodeObject) : Prop :=
  ∃ ids : List ObjectId, ids.Pairwise (· < ·) ∧
    (∀ j, j ∈ ids ↔ j ≠ id ∧ Relation.ReflTransGen m.HasParent j id) ∧
    List.Forall₂ (fun j o => m.get? j = some o) ids found

/-- The search below every object comes to an end and finds what is below the object: all that stands
behind it up to the first that is not deeper. Below the module are all other objects. -/
structure FindsDescendants (m : CodeModel) : Prop where
  ends : ∀ id, m.descend? [] (m.childrenOf id) = some (m.descendantsOf id)
  below : ∀ id, m.AreBelow id (m.descendantsOf id)
  interval : ∀ id o, m.get? id = some o →
    m.descendantsOf id = (m.objects.toList.drop (id + 1)).takeWhile fun c => o.depth < c.depth
  ofModule : m.descendantsOf moduleId = m.objects.toList.tail

end CodeModel

namespace Extraction

variable {m : CodeModel} {objects : List CodeObject} {i j p stop : Nat} {o : CodeObject}
  {ids : List ObjectId}

/-! ### What is below, by numbers -/

theorem IsNested.lt_of_isChildOf (h : IsNested objects) (hchild : IsChildOf objects p j) : p < j := by
  obtain ⟨o, ho, hparent⟩ := hchild
  obtain ⟨_, hstands⟩ := h.standsIn ho hparent
  exact hstands.lt

theorem IsNested.le_of_reflTransGen (h : IsNested objects)
    (hbelow : Relation.ReflTransGen (IsChildOf objects) i j) : i ≤ j := by
  induction hbelow with
  | refl => exact Nat.le_refl i
  | tail _ hchild ih => exact Nat.le_trans ih (Nat.le_of_lt (h.lt_of_isChildOf hchild))

/-- What is below an object has its parent there as well, or the object is its parent. -/
theorem IsNested.le_parent (h : IsNested objects)
    (hbelow : Relation.ReflTransGen (IsChildOf objects) i j) (hij : i ≠ j)
    (hchild : IsChildOf objects p j) : i ≤ p := by
  rcases hbelow.cases_tail with rfl | ⟨q, hq, o, ho, hparent⟩
  · exact absurd rfl hij
  · obtain ⟨o', ho', hparent'⟩ := hchild
    rw [ho', Option.some_inj] at ho
    rw [← ho, hparent', Option.some_inj] at hparent
    exact hparent ▸ h.le_of_reflTransGen hq

/-- Nothing is below a number that no object has. -/
theorem IsNested.eq_of_reflTransGen (h : IsNested objects) (hi : objects[i]? = none)
    (hbelow : Relation.ReflTransGen (IsChildOf objects) i j) : j = i := by
  rcases hbelow.cases_head with rfl | ⟨c, ⟨o, ho, hparent⟩, -⟩
  · rfl
  · obtain ⟨owner, hstands⟩ := h.standsIn ho hparent
    rw [hstands.found] at hi
    cases hi

def IsRow (objects : List CodeObject) (i stop : Nat) : Prop :=
  ∀ j, Relation.ReflTransGen (IsChildOf objects) i j ↔ i ≤ j ∧ j < stop

theorem IsRow.lt (h : IsRow objects i stop) : i < stop := ((h i).1 .refl).2

/-! ### What waits -/

/-- The numbers are, in order, those from `j` on of objects whose parents come before `j`. -/
structure Wait (objects : List CodeObject) (stop j : Nat) (ids : List ObjectId) : Prop where
  sorted : ids.Pairwise (· < ·)
  mem_iff : ∀ c, c ∈ ids ↔ j ≤ c ∧ c < stop ∧ ∃ p < j, IsChildOf objects p c

/-- At first the children of the object wait. -/
theorem wait_children (hnested : IsNested objects) (hchildren : ListsChildren objects)
    (ho : objects[i]? = some o) (hrow : IsRow objects i stop) :
    Wait objects stop (i + 1) o.children := by
  refine ⟨hchildren.sorted i o ho, fun c => ?_⟩
  rw [hchildren.mem_iff i o ho]
  constructor
  · intro hchild
    have hlt := hnested.lt_of_isChildOf hchild
    exact ⟨hlt, ((hrow c).1 (.single hchild)).2, i, Nat.lt_succ_self i, hchild⟩
  · rintro ⟨hlt, hstop, p, hp, hchild⟩
    have hbelow := (hrow c).2 ⟨Nat.le_of_lt hlt, hstop⟩
    obtain rfl : p = i := Nat.le_antisymm (Nat.le_of_lt_succ hp)
      (hnested.le_parent hbelow (Nat.ne_of_lt hlt) hchild)
    exact hchild

/-- The children of an object come before all that waited with it. -/
theorem Wait.lt_of_child (h : Wait objects stop j ids) (hnested : IsNested objects)
    (hj : j < objects.length) {c d : ObjectId} (hd : d ∈ ids) (hdj : d ≠ j)
    (hchild : IsChildOf objects j c) : c < d := by
  obtain ⟨hjd, -, p, hp, hparent⟩ := (h.mem_iff d).1 hd
  obtain ⟨next, hnext⟩ : ∃ next, IsRow objects j next := hnested.interval hj
  have hc : c < next := ((hnext c).1 (.single hchild)).2
  -- If it stood in the row, it would be below the object, and so would its parent.
  refine Nat.lt_of_lt_of_le hc (Nat.not_lt.1 fun hdnext => Nat.not_le.2 hp ?_)
  exact hnested.le_parent ((hnext d).2 ⟨hjd, hdnext⟩) hdj.symm hparent

/-- The next object is the first that waits; what it contains waits behind it from then on. -/
theorem Wait.step (h : Wait objects stop j ids) (hnested : IsNested objects)
    (hchildren : ListsChildren objects) (hrow : IsRow objects i stop) (hij : i < j) (hj : j < stop)
    (ho : objects[j]? = some o) :
    ∃ rest, ids = j :: rest ∧ Wait objects stop (j + 1) (o.children ++ rest) := by
  have hbelow := (hrow j).2 ⟨Nat.le_of_lt hij, hj⟩
  have hmem : j ∈ ids := by
    obtain ⟨p, -, hchild⟩ := hbelow.cases_tail.resolve_left (Nat.ne_of_gt hij)
    exact (h.mem_iff j).2 ⟨Nat.le_refl j, hj, p, hnested.lt_of_isChildOf hchild, hchild⟩
  -- What waits is sorted and nothing in it comes before the object, so the object waits first.
  obtain ⟨rest, rfl⟩ : ∃ rest, ids = j :: rest := by
    cases ids with
    | nil => cases hmem
    | cons k rest =>
      have hjk : j ≤ k := ((h.mem_iff k).1 List.mem_cons_self).1
      rcases List.mem_cons.1 hmem with rfl | hrest
      · exact ⟨rest, rfl⟩
      · exact absurd (List.rel_of_pairwise_cons h.sorted hrest) (Nat.not_lt.2 hjk)
  have hrest : ∀ c ∈ rest, j < c := fun c => List.rel_of_pairwise_cons h.sorted
  refine ⟨rest, rfl, ?_, fun c => ?_⟩
  · refine List.pairwise_append.2 ⟨hchildren.sorted j o ho, h.sorted.of_cons, fun c hc d hd => ?_⟩
    exact h.lt_of_child hnested (List.getElem?_eq_some_iff.1 ho).1 (List.mem_cons_of_mem j hd)
      (Nat.ne_of_gt (hrest d hd)) ((hchildren.mem_iff j o ho c).1 hc)
  · rw [List.mem_append, hchildren.mem_iff j o ho]
    constructor
    · rintro (hchild | hc)
      · exact ⟨hnested.lt_of_isChildOf hchild, ((hrow c).1 (hbelow.tail hchild)).2, j,
          Nat.lt_succ_self j, hchild⟩
      · obtain ⟨-, hstop, p, hp, hparent⟩ := (h.mem_iff c).1 (List.mem_cons_of_mem j hc)
        exact ⟨hrest c hc, hstop, p, Nat.lt_succ_of_lt hp, hparent⟩
    · rintro ⟨hjc, hstop, p, hp, hparent⟩
      rcases Nat.lt_succ_iff_lt_or_eq.1 hp with hp | rfl
      · have hc := (h.mem_iff c).2 ⟨Nat.le_of_lt hjc, hstop, p, hp, hparent⟩
        exact .inr ((List.mem_cons.1 hc).resolve_left (Nat.ne_of_gt hjc))
      · exact .inl hparent

/-! ### The search -/

/-- With the objects waiting that are not found yet but have their parents found, the search finds
all objects that are left of the row, in order. -/
theorem Wait.descend? (h : Wait m.objects.toList stop j ids) (hnested : IsNested m.objects.toList)
    (hchildren : ListsChildren m.objects.toList) (hrow : IsRow m.objects.toList i stop)
    (hij : i < j) (hj : j ≤ stop) (found : List CodeObject) :
    m.descend? found (ids.filterMap m.get?) =
      some (found.reverse ++ (m.objects.toList.take stop).drop j) := by
  induction hleft : stop - j generalizing j ids found with
  | zero =>
    obtain rfl : j = stop := by omega
    have hnone : ids = [] := List.eq_nil_iff_forall_not_mem.2 fun c hc => by
      obtain ⟨hle, hlt, -⟩ := (h.mem_iff c).1 hc
      exact Nat.not_lt.2 hle hlt
    have hdrop : (m.objects.toList.take j).drop j = [] :=
      List.drop_eq_nil_of_le (List.length_take_le ..)
    rw [hnone, List.filterMap_nil, CodeModel.descend?, hdrop, List.append_nil]
  | succ n ih =>
    have hlt : j < stop := by omega
    have hlength : j < m.objects.toList.length := by
      obtain ⟨p, -, o, ho, -⟩ :=
        ((hrow j).2 ⟨Nat.le_of_lt hij, hlt⟩).cases_tail.resolve_left (Nat.ne_of_gt hij)
      exact (List.getElem?_eq_some_iff.1 ho).1
    have ho : m.objects.toList[j]? = some m.objects.toList[j] := List.getElem?_eq_getElem hlength
    obtain ⟨rest, rfl, hnext⟩ := h.step hnested hchildren hrow hij hlt ho
    have hget : m.get? j = some m.objects.toList[j] := (get?_eq m j).trans ho
    have hdrop : (m.objects.toList.take stop).drop j =
        m.objects.toList[j] :: (m.objects.toList.take stop).drop (j + 1) := by
      rw [List.drop_eq_getElem_cons (by rw [List.length_take]; omega), List.getElem_take]
    rw [List.filterMap_cons_some hget, CodeModel.descend?, ← List.filterMap_append,
      ih hnext (Nat.lt_succ_of_lt hij) hlt _ (by omega), List.reverse_cons, hdrop,
      List.append_assoc, List.singleton_append]

/-- The row of an object ends at the last object at most. -/
theorem IsRow.le_length (h : IsRow objects i stop) (hi : i < objects.length) :
    stop ≤ objects.length := by
  have hlt := h.lt
  obtain ⟨last, rfl⟩ := Nat.exists_eq_succ_of_ne_zero (Nat.ne_zero_of_lt hlt)
  have hlast := (h last).2 ⟨Nat.le_of_lt_succ hlt, Nat.lt_succ_self last⟩
  rcases hlast.cases_tail with rfl | ⟨_, -, _, ho, -⟩
  · exact hi
  · exact (List.getElem?_eq_some_iff.1 ho).1

theorem descend?_childrenOf (hnested : IsNested m.objects.toList)
    (hchildren : ListsChildren m.objects.toList) (ho : m.get? i = some o)
    (hrow : IsRow m.objects.toList i stop) :
    m.descend? [] (m.childrenOf i) = some ((m.objects.toList.take stop).drop (i + 1)) := by
  have hwait := wait_children hnested hchildren ((get?_eq m i).symm.trans ho) hrow
  rw [CodeModel.childrenOf, ho]
  exact hwait.descend? hnested hchildren hrow (Nat.lt_succ_self i) hrow.lt []

theorem descend?_childrenOf_of_none (ho : m.get? i = none) :
    m.descend? [] (m.childrenOf i) = some [] := by
  rw [CodeModel.childrenOf, ho]
  exact CodeModel.descend?.eq_1 m []

/-! ### What the search finds -/

theorem reflTransGen_hasParent_iff :
    Relation.ReflTransGen m.HasParent j i ↔
      Relation.ReflTransGen (IsChildOf m.objects.toList) i j := by
  have hswap : m.HasParent = Function.swap (IsChildOf m.objects.toList) := by
    funext c p
    simp only [CodeModel.HasParent, get?_eq, Function.swap, IsChildOf]
  rw [hswap, Relation.reflTransGen_swap]

/-- The numbers behind the first of a row belong to what is below the object. -/
theorem IsRow.areBelow (h : IsRow m.objects.toList i stop) (hi : i < m.objects.toList.length) :
    m.AreBelow i ((m.objects.toList.take stop).drop (i + 1)) := by
  have hstop := h.le_length hi
  refine ⟨List.range' (i + 1) (stop - (i + 1)), List.pairwise_lt_range' 1, fun j => ?_, ?_⟩
  · rw [reflTransGen_hasParent_iff, h j, List.mem_range'_1, Nat.add_sub_of_le h.lt]
    exact ⟨fun ⟨hij, hj⟩ => ⟨Nat.ne_of_gt hij, Nat.le_of_lt hij, hj⟩,
      fun ⟨hne, hij, hj⟩ => ⟨Nat.lt_of_le_of_ne hij hne.symm, hj⟩⟩
  · rw [List.forall₂_iff_get]
    refine ⟨by simp [hstop], fun k hk hk' => ?_⟩
    simp only [List.get_eq_getElem, List.getElem_range', List.getElem_drop, List.getElem_take,
      Nat.one_mul, get?_eq]
    exact List.getElem?_eq_getElem _

/-- A row goes on while the objects are deeper than its first. -/
theorem IsRow.drop_take_eq (h : IsRow objects i stop) (hnested : IsNested objects)
    (ho : objects[i]? = some o) :
    (objects.take stop).drop (i + 1) =
      (objects.drop (i + 1)).takeWhile fun c => o.depth < c.depth := by
  have hdeeper (k : Nat) : IsDeeperFrom objects i o k ↔ i ≤ k ∧ k < stop :=
    (hnested.reflTransGen_iff ho k).symm.trans (h k)
  have hrow : ∀ c ∈ (objects.take stop).drop (i + 1), o.depth < c.depth := by
    intro c hc
    obtain ⟨k, hk⟩ := List.getElem?_of_mem hc
    rw [List.getElem?_drop, List.getElem?_take] at hk
    split at hk
    next hlt =>
      have hle : i < i + 1 + k := by omega
      exact ((hdeeper _).2 ⟨Nat.le_of_lt hle, hlt⟩).deeper _ c hle (Nat.le_refl _) hk
    next => cases hk
  -- The object behind the row is no deeper: otherwise it would belong to the row.
  have hbehind : ∀ c, objects[stop]? = some c → ¬o.depth < c.depth := by
    intro c hc hlt
    have hnext : IsDeeperFrom objects i o stop := by
      refine ⟨Nat.le_of_lt h.lt, (List.getElem?_eq_some_iff.1 hc).1, fun k d hik hk hd => ?_⟩
      rcases Nat.lt_or_eq_of_le hk with hk | rfl
      · exact ((hdeeper k).2 ⟨Nat.le_of_lt hik, hk⟩).deeper k d hik (Nat.le_refl k) hd
      · rw [hc, Option.some_inj] at hd
        rwa [← hd]
    exact Nat.lt_irrefl stop ((hdeeper stop).1 hnext).2
  have hlength : i + 1 ≤ (objects.take stop).length := by
    rw [List.length_take]
    exact Nat.le_min.2 ⟨h.lt, (List.getElem?_eq_some_iff.1 ho).1⟩
  have hend : (objects.drop stop).takeWhile (fun c => o.depth < c.depth) = [] := by
    refine List.takeWhile_eq_nil_iff.2 fun hlt => ?_
    rw [List.get_eq_getElem, decide_eq_true_iff]
    refine hbehind _ ?_
    rw [← List.getElem?_eq_getElem, List.getElem?_drop, Nat.add_zero]
  conv_rhs => rw [← List.take_append_drop stop objects, List.drop_append_of_le_length hlength]
  rw [List.takeWhile_append_of_pos (by simpa using hrow), hend, List.append_nil]

/-- All objects stand in the row of the module. -/
theorem IsNested.isRow_module (h : IsNested objects) :
    IsRow objects CodeModel.moduleId objects.length := by
  obtain ⟨module, hmodule, -, -, hdepth⟩ := h.module
  refine fun j => (h.reflTransGen_iff hmodule j).trans ⟨fun hj => ⟨hj.le, hj.lt⟩, fun hj => ?_⟩
  refine ⟨hj.1, hj.2, fun k c hk _ hc => ?_⟩
  obtain ⟨k, rfl⟩ := Nat.exists_eq_succ_of_ne_zero (Nat.ne_zero_of_lt hk)
  obtain ⟨_, _, hstands⟩ := h.inside k c hc
  rw [hdepth, hstands.depth]
  exact Nat.succ_pos _

/-! ### Models -/

theorem findsDescendants_of_isNested (hnested : IsNested m.objects.toList)
    (hchildren : ListsChildren m.objects.toList) : m.FindsDescendants := by
  have hnone {i : ObjectId} (ho : m.get? i = none) : m.descendantsOf i = [] := by
    rw [CodeModel.descendantsOf, descend?_childrenOf_of_none ho, Option.getD_some]
  have hsome {i : ObjectId} {o : CodeObject} (ho : m.get? i = some o) :
      ∃ stop, IsRow m.objects.toList i stop := by
    rw [get?_eq] at ho
    exact hnested.interval (List.getElem?_eq_some_iff.1 ho).1
  have hrow {i stop : ObjectId} {o : CodeObject} (ho : m.get? i = some o)
      (hrow : IsRow m.objects.toList i stop) :
      m.descendantsOf i = (m.objects.toList.take stop).drop (i + 1) := by
    rw [CodeModel.descendantsOf, descend?_childrenOf hnested hchildren ho hrow, Option.getD_some]
  refine ⟨fun id => ?_, fun id => ?_, fun id o ho => ?_, ?_⟩
  · cases ho : m.get? id with
    | none => rw [hnone ho, descend?_childrenOf_of_none ho]
    | some o =>
      obtain ⟨stop, hstop⟩ := hsome ho
      rw [hrow ho hstop, descend?_childrenOf hnested hchildren ho hstop]
  · cases ho : m.get? id with
    | none =>
      rw [hnone ho]
      refine ⟨[], .nil, fun j => ⟨(nomatch ·), fun ⟨hne, hbelow⟩ => absurd ?_ hne⟩, .nil⟩
      exact hnested.eq_of_reflTransGen ((get?_eq m id).symm.trans ho)
        (reflTransGen_hasParent_iff.1 hbelow)
    | some o =>
      obtain ⟨stop, hstop⟩ := hsome ho
      rw [hrow ho hstop]
      rw [get?_eq] at ho
      exact hstop.areBelow (List.getElem?_eq_some_iff.1 ho).1
  · obtain ⟨stop, hstop⟩ := hsome ho
    rw [hrow ho hstop]
    rw [get?_eq] at ho
    exact hstop.drop_take_eq hnested ho
  · obtain ⟨module, hmodule, -⟩ := hnested.module
    have hmodule : m.get? CodeModel.moduleId = some module := (get?_eq m _).trans hmodule
    rw [hrow hmodule hnested.isRow_module, List.take_length, CodeModel.moduleId, Nat.zero_add,
      List.drop_one]

/-- The search below the objects of an accepted text finds the objects that their parents lead from. -/
theorem findsDescendants {file source : String} {m : CodeModel} (h : extract file source = .ok m) :
    m.FindsDescendants :=
  findsDescendants_of_isNested (isNested_of_extract h) (listsChildren_of_extract h)

/-- A class with nested definitions, behind a function and before another. -/
theorem findsDescendants_of_class :
    let source := "def f(): pass\nclass C:\n    def g(self):\n        def h(): pass\n    class D:\n        def k(self): pass\ndef l(): pass\n"
    ∃ m, extract "t.py" source = .ok m ∧ m.FindsDescendants ∧
      (m.descendantsOf 2).map (·.qualifiedName) = ["C.g", "C.g.h", "C.D", "C.D.k"] := by
  intro source
  have hextract : extract "t.py" source =
      .ok (modelOf "t.py" source.toList (Syntax.parse source.toList)) :=
    extract_eq_ok_iff.2 ⟨by decide +kernel, rfl⟩
  have hfinds := findsDescendants hextract
  obtain ⟨o, ho, hdepth⟩ := Option.map_eq_some_iff.1
    (show ((modelOf "t.py" source.toList (Syntax.parse source.toList)).get? 2).map (·.depth) = some 1
      by decide +kernel)
  refine ⟨_, hextract, hfinds, ?_⟩
  rw [hfinds.interval 2 o ho, hdepth]
  decide +kernel

end Extraction

end SourceCorpus
