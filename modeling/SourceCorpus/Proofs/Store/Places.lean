import SourceCorpus.Proofs.Disk.Files
import SourceCorpus.Proofs.Text.Pieces
import SourceCorpus.Store.Directory

/-!
The places of the files that stand for a source file. If the source files have clean relative paths,
no two files of a directory store share a place, drafts included.
-/

namespace SourceCorpus

namespace Path

/-- A relative path of names only: no empty segment, no `.` and no `..`. -/
def IsClean (path : String) : Prop :=
  ∀ segment ∈ Text.splitChar '/' path.toList, segment ∉ [[], ['.'], ['.', '.']]

instance (path : String) : Decidable (IsClean path) :=
  inferInstanceAs (Decidable (∀ segment ∈ _, _))

/-- What may stand behind a path so that only its last name gets longer. -/
def IsEnding (ending : String) : Prop := '/' ∉ ending.toList ∧ 3 ≤ ending.toList.length

instance (ending : String) : Decidable (IsEnding ending) := inferInstanceAs (Decidable (_ ∧ _))

theorem IsClean.append {path ending : String} (h : IsClean path) (he : IsEnding ending) :
    IsClean (path ++ ending) := by
  obtain ⟨pieces, last, hs, hs'⟩ := Text.splitChar_append he.1 path.toList
  rw [IsClean, String.toList_append, hs']
  rw [IsClean, hs] at h
  intro segment hsegment
  obtain hmem | hlast := List.mem_append.1 hsegment
  · exact h segment (List.mem_append_left _ hmem)
  · have hlength : 3 ≤ segment.length := by
      rw [List.mem_singleton.1 hlast, List.length_append]
      exact Nat.le_add_left_of_le he.2
    intro hbad
    simp only [List.mem_cons, List.not_mem_nil, or_false] at hbad
    obtain rfl | rfl | rfl := hbad <;> simp at hlength

theorem IsClean.leading?_eq_none {path : String} (h : IsClean path) :
    leading? path.toList = none := by
  rw [IsClean] at h
  generalize path.toList = cs at h
  rw [leading?.eq_def]
  split
  · exact absurd (h [] (by simp [Text.splitChar])) (by simp)
  · exact absurd (h ['.'] (by decide)) (by simp)
  · exact absurd (h ['.'] (by simp [Text.splitChar])) (by simp)
  · rfl

/-- The components of a clean path are its segments. -/
theorem IsClean.components_eq {path : String} (h : IsClean path) :
    components path.toList = (Text.splitChar '/' path.toList).map .normal := by
  rw [components, h.leading?_eq_none]
  have hsegments : ∀ segment ∈ Text.splitChar '/' path.toList,
      Component.ofSegment? segment = some (.normal segment) := by
    intro segment hsegment
    have hnames := h segment hsegment
    simp only [List.mem_cons, List.not_mem_nil, or_false, not_or] at hnames
    simp [Component.ofSegment?, hnames]
  rw [List.filterMap_congr hsegments, List.filterMap_eq_map']
  rfl

end Path

theorem Place.foldl_step_normal (root : Place) (names : List (List Char)) :
    (names.map Path.Component.normal).foldl Place.step root = root ++ names.map String.ofList := by
  induction names generalizing root with
  | nil => simp
  | cons name names ih => simp [ih, Place.step]

namespace DirectoryStore

open SourceCorpus.Path Change

theorem placeOf_eq {file ending : String} (h : IsClean file) (he : IsEnding ending)
    (root : Place) : placeOf root file ending =
      root ++ (Text.splitChar '/' (file ++ ending).toList).map String.ofList := by
  rw [placeOf, Place.follow, (h.append he).components_eq, Place.foldl_step_normal]

theorem placeOf_ne_nil {file ending : String} (h : IsClean file) (he : IsEnding ending)
    (root : Place) : placeOf root file ending ≠ [] := by
  rw [placeOf_eq h he]
  simp [Text.splitChar_ne_nil]

/-- Clean paths lead to the same place only if they are the same. -/
theorem append_eq_of_placeOf_eq {file file' ending ending' : String} {root : Place}
    (h : IsClean file) (he : IsEnding ending) (h' : IsClean file') (he' : IsEnding ending')
    (hp : placeOf root file ending = placeOf root file' ending') :
    file ++ ending = file' ++ ending' := by
  rw [placeOf_eq h he, placeOf_eq h' he'] at hp
  have hnames := List.map_injective_iff.2 (fun a b hab => by simpa using congrArg String.toList hab)
    (List.append_cancel_left hp)
  exact String.toList_injective (Text.splitChar_injective '/' hnames)

theorem placeOf_inj {file file' ending : String} {root : Place} (h : IsClean file)
    (h' : IsClean file') (he : IsEnding ending) :
    placeOf root file ending = placeOf root file' ending ↔ file = file' := by
  refine ⟨fun hp => ?_, fun hf => hf ▸ rfl⟩
  have hnames := append_eq_of_placeOf_eq h he h' he hp
  apply String.toList_injective
  simpa using congrArg String.toList hnames

/-- Endings of which none is the end of the other keep places apart, whatever the files. -/
theorem placeOf_ne {file file' ending ending' : String} (root : Place) (h : IsClean file)
    (he : IsEnding ending) (h' : IsClean file') (he' : IsEnding ending')
    (hne : ¬ending.toList <:+ ending'.toList) (hne' : ¬ending'.toList <:+ ending.toList) :
    placeOf root file ending ≠ placeOf root file' ending' := by
  intro hp
  have hnames := congrArg String.toList (append_eq_of_placeOf_eq h he h' he' hp)
  rw [String.toList_append, String.toList_append] at hnames
  have hs : ending.toList <:+ file'.toList ++ ending'.toList := hnames ▸ List.suffix_append _ _
  exact (List.suffix_or_suffix_of_suffix hs (List.suffix_append _ _)).elim hne hne'

theorem draftPlace_placeOf {file ending : String} (h : IsClean file) (he : IsEnding ending)
    (root : Place) : draftPlace (placeOf root file ending) = placeOf root file (ending ++ ".tmp") := by
  have hdot : '/' ∉ ".tmp".toList := by decide
  obtain ⟨pieces, last, hs, hs'⟩ := Text.splitChar_append hdot (file ++ ending).toList
  have he' : IsEnding (ending ++ ".tmp") := by
    refine ⟨?_, ?_⟩
    · simp only [String.toList_append, List.mem_append, not_or]
      exact ⟨he.1, hdot⟩
    · rw [String.toList_append, List.length_append]
      exact Nat.le_add_right_of_le he.2
  have hlong : (file ++ (ending ++ ".tmp")).toList = (file ++ ending).toList ++ ".tmp".toList := by
    simp
  rw [placeOf_eq h he, placeOf_eq h he', hlong, hs, hs',
    List.map_append, List.map_append, ← List.append_assoc, ← List.append_assoc, List.map_singleton,
    List.map_singleton, Disk.draftPlace_append, String.ofList_append]
  rfl

end DirectoryStore

end SourceCorpus
