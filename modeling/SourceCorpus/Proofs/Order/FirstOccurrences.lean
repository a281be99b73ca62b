import Mathlib.Data.List.Induction
import Mathlib.Data.List.Nodup
import Mathlib.Data.List.Perm.Lattice
import SourceCorpus.Model.CodeModel

/-!
Values listed once each, in the order in which they occur first. Main statement: there is one such
list, and `firstOccurrences` makes it.
-/

namespace SourceCorpus

variable {α β : Type} [BEq α] [BEq β]

/-- The list has each of the values once, in the order of their first occurrences. -/
structure ListsFirst (list values : List α) : Prop where
  nodup : list.Nodup
  mem_iff : ∀ a, a ∈ list ↔ a ∈ values
  ordered : list.Pairwise fun a b => values.idxOf a < values.idxOf b

/-- What lists the values so is determined by them. -/
theorem ListsFirst.eq {list other values : List α} (h : ListsFirst list values)
    (h' : ListsFirst other values) : list = other := by
  refine List.Perm.eq_of_pairwise (fun a b _ _ hab hba => absurd hba (Nat.lt_asymm hab))
    h.ordered h'.ordered ?_
  exact (List.perm_ext_iff_of_nodup h.nodup h'.nodup).2 fun a =>
    (h.mem_iff a).trans (h'.mem_iff a).symm

theorem firstOccurrences_append (xs ys : List α) :
    firstOccurrences (xs ++ ys) = ys.foldl pushUnique (firstOccurrences xs) :=
  List.foldl_append

theorem firstOccurrences_concat (values : List α) (a : α) :
    firstOccurrences (values ++ [a]) = pushUnique (firstOccurrences values) a :=
  firstOccurrences_append values [a]

variable [LawfulBEq α] [LawfulBEq β]

theorem mem_firstOccurrences {values : List α} {a : α} :
    a ∈ firstOccurrences values ↔ a ∈ values := by
  rw [firstOccurrences_eq_eraseDups, List.mem_eraseDups]

theorem pushUnique_of_mem {values : List α} {a : α} (h : a ∈ values) :
    pushUnique values a = values :=
  if_pos (List.contains_iff_mem.2 h)

theorem pushUnique_of_notMem {values : List α} {a : α} (h : a ∉ values) :
    pushUnique values a = values ++ [a] :=
  if_neg fun hcontains => h (List.contains_iff_mem.1 hcontains)

/-- A value that was listed before adds nothing, and a new one comes last. -/
theorem listsFirst_firstOccurrences (values : List α) :
    ListsFirst (firstOccurrences values) values := by
  induction values using List.reverseRecOn with
  | nil => exact ⟨List.nodup_nil, fun _ => Iff.rfl, List.Pairwise.nil⟩
  | append_singleton values a ih =>
    have hbefore : ∀ b ∈ firstOccurrences values,
        (values ++ [a]).idxOf b = values.idxOf b := fun b hb =>
      List.idxOf_append_of_mem ((ih.mem_iff b).1 hb)
    have hordered : (firstOccurrences values).Pairwise fun b c =>
        (values ++ [a]).idxOf b < (values ++ [a]).idxOf c :=
      ih.ordered.imp_of_mem fun {b c} hb hc hlt => by rwa [hbefore b hb, hbefore c hc]
    rw [firstOccurrences_concat]
    by_cases h : a ∈ firstOccurrences values
    · rw [pushUnique_of_mem h]
      refine ⟨ih.nodup, fun b => ?_, hordered⟩
      rw [List.mem_append, List.mem_singleton, ih.mem_iff]
      exact ⟨Or.inl, fun hb => hb.elim id fun heq => heq ▸ (ih.mem_iff a).1 h⟩
    · rw [pushUnique_of_notMem h]
      refine ⟨?_, fun b => by rw [List.mem_append, List.mem_append, ih.mem_iff], ?_⟩
      · exact ih.nodup.append (List.nodup_singleton a) (List.disjoint_singleton.2 h)
      · refine List.pairwise_append.2 ⟨hordered, List.pairwise_singleton _ a, fun b hb c hc => ?_⟩
        have hold : b ∈ values := (ih.mem_iff b).1 hb
        have hnew : a ∉ values := fun ha => h ((ih.mem_iff a).2 ha)
        rw [List.mem_singleton.1 hc, hbefore b hb, List.idxOf_append_of_notMem hnew]
        exact Nat.lt_add_right _ (List.idxOf_lt_length_iff.2 hold)

theorem listsFirst_iff {list values : List α} :
    ListsFirst list values ↔ list = firstOccurrences values :=
  ⟨fun h => h.eq (listsFirst_firstOccurrences values),
    fun h => h ▸ listsFirst_firstOccurrences values⟩

theorem firstOccurrences_of_nodup {values : List α} (h : values.Nodup) :
    firstOccurrences values = values := by
  induction values using List.reverseRecOn with
  | nil => rfl
  | append_singleton values a ih =>
    rw [List.nodup_append] at h
    have hnew : a ∉ values := fun ha => h.2.2 a ha a (List.mem_singleton_self a) rfl
    rw [firstOccurrences_concat, ih h.1, pushUnique_of_notMem hnew]

theorem firstOccurrences_firstOccurrences (values : List α) :
    firstOccurrences (firstOccurrences values) = firstOccurrences values :=
  firstOccurrences_of_nodup (listsFirst_firstOccurrences values).nodup

/-- Values may be dropped that occur again in front of what comes later. -/
theorem firstOccurrences_firstOccurrences_append (xs ys : List α) :
    firstOccurrences (firstOccurrences xs ++ ys) = firstOccurrences (xs ++ ys) := by
  rw [firstOccurrences_append, firstOccurrences_firstOccurrences, firstOccurrences_append]

/-- Values may be dropped that occur again before they are projected. -/
theorem firstOccurrences_map_firstOccurrences (f : α → β) (values : List α) :
    firstOccurrences ((firstOccurrences values).map f) = firstOccurrences (values.map f) := by
  induction values using List.reverseRecOn with
  | nil => rfl
  | append_singleton values a ih =>
    rw [List.map_append, List.map_singleton, firstOccurrences_concat,
      firstOccurrences_concat (values.map f)]
    by_cases h : a ∈ firstOccurrences values
    · have hmem : f a ∈ firstOccurrences (values.map f) :=
        mem_firstOccurrences.2 (List.mem_map_of_mem (mem_firstOccurrences.1 h))
      rw [pushUnique_of_mem h, pushUnique_of_mem hmem, ih]
    · rw [pushUnique_of_notMem h, List.map_append, List.map_singleton, firstOccurrences_concat, ih]

end SourceCorpus
