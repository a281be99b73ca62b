import Mathlib.Data.List.Nodup
import Mathlib.Data.List.Perm.Subperm
import Std.Data.String.ToNat
import SourceCorpus.Extraction.Arena

/-!
Names of objects. Main statements: a unique name is not taken, and a table of objects whose names
differ has all of them, in their order.
-/

namespace SourceCorpus.Extraction

variable {a : Arena} {base : String}

namespace Arena

def names (a : Arena) : List String := a.objects.toList.map (·.qualifiedName)

theorem hasName_eq_true_iff {name : String} : a.hasName name ↔ name ∈ a.names := by
  rw [hasName, names, ← Array.any_toList, List.any_eq_true, List.mem_map]
  simp only [beq_iff_eq]

def candidate (base : String) (suffix : Nat) : String := base ++ "#" ++ toString suffix

theorem candidate_injective : (candidate base).Injective := by
  intro i j h
  exact Nat.repr_injective ((String.append_right_inj _).1 h)

/-- The name for the definition with the number. The first one has the name itself. -/
def numbered (base : String) (number : Nat) : String :=
  if number ≤ 1 then base else candidate base number

/-- The search ends at a taken name only if all the names that it tried are taken. -/
theorem candidate_mem_of_numberedName_mem {tries suffix : Nat}
    (h : a.numberedName base tries suffix ∈ a.names) :
    ∀ i ≤ tries, candidate base (suffix + i) ∈ a.names := by
  induction tries generalizing suffix with
  | zero =>
    intro i hi
    rw [Nat.le_zero] at hi
    rw [hi]
    exact h
  | succ tries ih =>
    rw [numberedName] at h
    by_cases htaken : a.hasName (candidate base suffix)
    · rw [candidate] at htaken
      rw [if_pos htaken] at h
      intro i hi
      cases i with
      | zero => exact hasName_eq_true_iff.1 htaken
      | succ i =>
        have hnext := ih h i (Nat.le_of_succ_le_succ hi)
        rwa [Nat.add_right_comm] at hnext
    · rw [candidate] at htaken
      rw [if_neg htaken] at h
      exact absurd (hasName_eq_true_iff.2 h) htaken

theorem numberedName_not_mem (suffix : Nat) :
    a.numberedName base a.objects.size suffix ∉ a.names := by
  intro h
  have htaken := candidate_mem_of_numberedName_mem h
  let tried := (List.range (a.objects.size + 1)).map fun i => candidate base (suffix + i)
  have hnodup : tried.Nodup := by
    refine List.Nodup.map ?_ List.nodup_range
    intro i j hij
    exact Nat.add_left_cancel (candidate_injective hij)
  have hsub : tried ⊆ a.names := by
    intro name hname
    obtain ⟨i, hi, rfl⟩ := List.mem_map.1 hname
    exact htaken i (Nat.le_of_lt_succ (List.mem_range.1 hi))
  -- More names were tried than there are objects.
  have hlength := (List.subperm_of_subset hnodup hsub).length_le
  simp only [tried, names, List.length_map, List.length_range, Array.length_toList] at hlength
  omega

theorem uniqueName_not_mem (a : Arena) (base : String) : a.uniqueName base ∉ a.names := by
  rw [uniqueName]
  by_cases htaken : a.hasName base
  · rw [if_pos htaken]
    exact numberedName_not_mem 2
  · rw [if_neg htaken]
    exact fun h => htaken (hasName_eq_true_iff.2 h)

/-- The search has passed taken names only. -/
theorem exists_numberedName_eq (a : Arena) (base : String) (tries suffix : Nat) :
    ∃ number, suffix ≤ number ∧ a.numberedName base tries suffix = candidate base number ∧
      ∀ i, suffix ≤ i → i < number → candidate base i ∈ a.names := by
  induction tries generalizing suffix with
  | zero => exact ⟨suffix, Nat.le_refl _, rfl, fun i hi hlt => absurd hlt (Nat.not_lt.2 hi)⟩
  | succ tries ih =>
    rw [numberedName]
    split
    next htaken =>
      obtain ⟨number, hle, heq, hpassed⟩ := ih (suffix + 1)
      refine ⟨number, Nat.le_of_succ_le hle, heq, fun i hi hlt => ?_⟩
      rcases Nat.eq_or_lt_of_le hi with rfl | hnext
      · exact hasName_eq_true_iff.1 htaken
      · exact hpassed i hnext hlt
    next => exact ⟨suffix, Nat.le_refl _, rfl, fun i hi hlt => absurd hlt (Nat.not_lt.2 hi)⟩

/-- A unique name is a numbered one, and those with smaller numbers are taken. -/
theorem exists_uniqueName_eq (a : Arena) (base : String) :
    ∃ number, 1 ≤ number ∧ a.uniqueName base = numbered base number ∧
      ∀ i, 1 ≤ i → i < number → numbered base i ∈ a.names := by
  rw [uniqueName]
  split
  next htaken =>
    obtain ⟨number, hle, heq, hpassed⟩ := a.exists_numberedName_eq base a.objects.size 2
    refine ⟨number, by omega, ?_, fun i hi hlt => ?_⟩
    · rw [heq, numbered, if_neg (by omega)]
    · rw [numbered]
      split
      next => exact hasName_eq_true_iff.1 htaken
      next hmore => exact hpassed i (by omega) hlt
  next => exact ⟨1, Nat.le_refl 1, rfl, fun i hi hlt => absurd hlt (Nat.not_lt.2 hi)⟩

end Arena

end SourceCorpus.Extraction

namespace SourceCorpus.ObjectTable

theorem toList_insert {t : ObjectTable} {o : CodeObject}
    (h : o.qualifiedName ∉ t.toList.map (·.qualifiedName)) :
    (t.insert o).toList = t.toList ++ [o] := by
  have hnone : t.objects.findIdx? (·.qualifiedName == o.qualifiedName) = none := by
    rw [Array.findIdx?_eq_none_iff]
    intro x hx
    rw [beq_eq_false_iff_ne]
    rintro heq
    exact h (List.mem_map.2 ⟨x, by simpa [toList] using hx, heq⟩)
  unfold insert
  split
  next i hi =>
    rw [hnone] at hi
    cases hi
  next => exact Array.toList_push ..

theorem toList_foldl_insert {objects : List CodeObject} {t : ObjectTable}
    (h : ((t.toList ++ objects).map (·.qualifiedName)).Nodup) :
    (objects.foldl insert t).toList = t.toList ++ objects := by
  induction objects generalizing t with
  | nil => rw [List.foldl_nil, List.append_nil]
  | cons o objects ih =>
    have hnew : (t.insert o).toList = t.toList ++ [o] := by
      refine toList_insert fun hmem => ?_
      rw [List.map_append, List.map_cons, List.nodup_append] at h
      exact h.2.2 _ hmem _ List.mem_cons_self rfl
    rw [List.foldl_cons, ih, hnew, List.append_assoc, List.singleton_append]
    rw [hnew, List.append_assoc, List.singleton_append]
    exact h

theorem toList_ofList {objects : List CodeObject}
    (h : (objects.map (·.qualifiedName)).Nodup) : (ofList objects).toList = objects :=
  toList_foldl_insert h

/-- An object is found under its own name. -/
theorem idOf?_qualifiedName {t : ObjectTable} {i : ObjectId} {o : CodeObject}
    (h : t.get? i = some o) : t.idOf? o.qualifiedName = some i := by
  obtain ⟨hi, rfl⟩ := Array.getElem?_eq_some_iff.1 h
  rw [idOf?, Array.findIdx?_eq_some_iff_getElem]
  refine ⟨hi, beq_self_eq_true _, fun j hji hname => ?_⟩
  have hj : j < t.objects.size := Nat.lt_trans hji hi
  have hsame : (t.objects.toList.map (·.qualifiedName))[j]? =
      (t.objects.toList.map (·.qualifiedName))[i]? := by
    simpa [hj, hi] using hname
  refine Nat.ne_of_lt hji ((List.getElem?_inj ?_ t.names_nodup).1 hsame)
  simpa using hj

end SourceCorpus.ObjectTable
