import SourceCorpus.Proofs.Json.RoundTrip
import SourceCorpus.Proofs.Store.Places
import SourceCorpus.Proofs.Text.Trimming

/-!
A save as the replacement of three files, one after the other. What a directory store answers about
a file depends on two files only, and a save changes those of its own file as far as it gets.
-/

namespace SourceCorpus

theorem toOption_eq_some_iff {ε α : Type} {e : Except ε α} {a : α} :
    e.toOption = some a ↔ e = .ok a := by
  cases e <;> simp [Except.toOption]

/-- Gives the files their texts in order, up to the first that cannot be replaced, and tells how
many were. -/
def Disk.replaceAll (d : Disk) : List (Place × String) → Disk × Nat
  | [] => (d, 0)
  | (p, text) :: writes =>
    match d.run (Change.replaceFile p text) with
    | (d, true) => let (d, made) := d.replaceAll writes; (d, made + 1)
    | (d, false) => (d, 0)

namespace Disk

open Change

theorem replaceAll_cons (d : Disk) (p : Place) (text : String) (writes : List (Place × String)) :
    d.replaceAll ((p, text) :: writes) =
      if (d.run (replaceFile p text)).2 then
        (((d.run (replaceFile p text)).1.replaceAll writes).1,
          ((d.run (replaceFile p text)).1.replaceAll writes).2 + 1)
      else ((d.run (replaceFile p text)).1, 0) := by
  rw [replaceAll]
  rcases d.run (replaceFile p text) with ⟨d, _ | _⟩ <;> rfl

theorem replaceAll_le (d : Disk) (writes : List (Place × String)) :
    (d.replaceAll writes).2 ≤ writes.length := by
  induction writes generalizing d with
  | nil => exact Nat.le_refl 0
  | cons w writes ih =>
    rw [replaceAll_cons]
    split
    · exact Nat.succ_le_succ (ih _)
    · exact Nat.zero_le _

/-- Replacing files one after the other is a run of all the changes in a row. -/
theorem run_flatMap_replaceFile (d : Disk) (writes : List (Place × String)) :
    d.run (writes.flatMap fun w => replaceFile w.1 w.2) =
      ((d.replaceAll writes).1, decide ((d.replaceAll writes).2 = writes.length)) := by
  induction writes generalizing d with
  | nil => rfl
  | cons w writes ih =>
    rw [List.flatMap_cons, run_append, replaceAll_cons]
    by_cases h : (d.run (replaceFile w.1 w.2)).2
    · simp [h, ih]
    · simp only [h, if_false, Bool.false_eq_true, List.length_cons]
      exact Prod.ext rfl (by simpa using h)

/-- A file is left alone by the replacement of others. -/
theorem file?_replaceAll_of_ne {writes : List (Place × String)} (hne : ∀ w ∈ writes, w.1 ≠ [])
    (d : Disk) {q : Place} (hq : ∀ w ∈ writes, q ≠ w.1 ∧ q ≠ draftPlace w.1) :
    (d.replaceAll writes).1.file? q = d.file? q := by
  induction writes generalizing d with
  | nil => rfl
  | cons w writes ih =>
    have hw := hq w (by simp)
    have hfirst : (d.run (replaceFile w.1 w.2)).1.file? q = d.file? q := by
      rw [file?_run_replaceFile (hne w (by simp)) d w.2 hw.2, if_neg fun h => hw.1 h.2]
    rw [replaceAll_cons]
    split
    · rw [← hfirst]
      exact ih (fun w h => hne w (by simp [h])) _ fun w h => hq w (by simp [h])
    · exact hfirst

/-- A file that is replaced has its new text once it was its turn. -/
theorem file?_replaceAll_append (before after : List (Place × String)) {p : Place} (text : String)
    (hne : ∀ w ∈ before ++ (p, text) :: after, w.1 ≠ []) (d : Disk)
    (hp : p ≠ draftPlace p)
    (hq : ∀ w ∈ before ++ after, p ≠ w.1 ∧ p ≠ draftPlace w.1) :
    (d.replaceAll (before ++ (p, text) :: after)).1.file? p =
      if before.length < (d.replaceAll (before ++ (p, text) :: after)).2 then some (.text text)
      else d.file? p := by
  -- The writes before it leave the file alone, and so do those after it.
  induction before generalizing d with
  | nil =>
    have hfirst := file?_run_replaceFile (hne (p, text) (by simp)) d text hp
    rw [List.nil_append, replaceAll_cons]
    split
    · next h =>
      rw [file?_replaceAll_of_ne (fun w h => hne w (by simp [h])) _ fun w h => hq w (by simp [h]),
        hfirst]
      simp [h]
    · next h =>
      rw [hfirst]
      simp [h]
  | cons w before ih =>
    have hw := hq w (by simp)
    have hfirst : (d.run (replaceFile w.1 w.2)).1.file? p = d.file? p := by
      rw [file?_run_replaceFile (hne w (by simp)) d w.2 hw.2, if_neg fun h => hw.1 h.2]
    rw [List.cons_append, replaceAll_cons]
    split
    · rw [ih (fun w h => hne w (by simp [h])) _ fun w h => hq w (by simp [h]), hfirst]
      simp
    · simpa using hfirst

end Disk

namespace DirectoryStore

open SourceCorpus.Path Change

def endings : List String := [".graph.json", ".sha256", ".instruct.json"]

theorem isEnding_of_mem {ending : String} (h : ending ∈ endings) : IsEnding ending := by
  revert ending
  decide

theorem isEnding_draft_of_mem {ending : String} (h : ending ∈ endings) :
    IsEnding (ending ++ ".tmp") := by
  revert ending
  decide

/-- Files of different source files, or with different endings, are kept apart. -/
theorem placeOf_eq_iff {file file' ending ending' : String} (root : Place) (h : IsClean file)
    (h' : IsClean file') (he : ending ∈ endings) (he' : ending' ∈ endings) :
    placeOf root file ending = placeOf root file' ending' ↔ file = file' ∧ ending = ending' := by
  by_cases heq : ending = ending'
  · subst heq
    simp [placeOf_inj h h' (isEnding_of_mem he)]
  · have hapart : ∀ e ∈ endings, ∀ e' ∈ endings, e ≠ e' → ¬e.toList <:+ e'.toList := by decide
    simp only [heq, and_false, iff_false]
    exact placeOf_ne root h (isEnding_of_mem he) h' (isEnding_of_mem he')
      (hapart _ he _ he' heq) (hapart _ he' _ he (Ne.symm heq))

theorem placeOf_ne_draftPlace {file file' ending ending' : String} (root : Place)
    (h : IsClean file) (h' : IsClean file') (he : ending ∈ endings) (he' : ending' ∈ endings) :
    placeOf root file ending ≠ draftPlace (placeOf root file' ending') := by
  have hapart : ∀ e ∈ endings, ∀ e' ∈ endings, ¬e.toList <:+ (e' ++ ".tmp").toList ∧
      ¬(e' ++ ".tmp").toList <:+ e.toList := by decide
  rw [draftPlace_placeOf h' (isEnding_of_mem he')]
  exact placeOf_ne root h (isEnding_of_mem he) h' (isEnding_draft_of_mem he')
    (hapart _ he _ he').1 (hapart _ he _ he').2

def saveWrites (root : Place) (a : Artifact) : List (Place × String) :=
  [(graphPlace root a.file, fileText a.graph.sorted),
    (fingerprintPlace root a.file, a.fingerprint ++ "\n"),
    (recordsPlace root a.file, fileText (Record.listToJson a.records))]

theorem saveChanges_eq (root : Place) (a : Artifact) :
    saveChanges root a = (saveWrites root a).flatMap fun w => replaceFile w.1 w.2 := by
  simp [saveChanges, saveWrites, saveGraph, saveFingerprint, saveRecords]

theorem save_eq_replaceAll (s : DirectoryStore) (a : Artifact) :
    DatasetStore.save s a =
      ({ s with disk := (s.disk.replaceAll (saveWrites s.root a)).1 },
        decide ((s.disk.replaceAll (saveWrites s.root a)).2 = 3)) := by
  change s.run (saveChanges s.root a) = _
  rw [saveChanges_eq, run, Disk.run_flatMap_replaceFile]
  rfl

theorem exists_ending_of_mem {root : Place} {a : Artifact} {w : Place × String}
    (h : w ∈ saveWrites root a) : ∃ e ∈ endings, w.1 = placeOf root a.file e := by
  simp only [saveWrites, List.mem_cons, List.not_mem_nil, or_false] at h
  obtain rfl | rfl | rfl := h
  · exact ⟨".graph.json", by decide, rfl⟩
  · exact ⟨".sha256", by decide, rfl⟩
  · exact ⟨".instruct.json", by decide, rfl⟩

theorem ne_nil_of_mem_saveWrites {root : Place} {a : Artifact} (ha : IsClean a.file)
    {w : Place × String} (h : w ∈ saveWrites root a) : w.1 ≠ [] := by
  obtain ⟨e, he, hw⟩ := exists_ending_of_mem h
  exact hw ▸ placeOf_ne_nil ha (isEnding_of_mem he) root

/-- A save touches no file of another source file, and each of its own files once. -/
theorem ne_of_mem_saveWrites {root : Place} {a : Artifact} {file ending : String}
    (ha : IsClean a.file) (hf : IsClean file) (he : ending ∈ endings) {w : Place × String}
    (h : w ∈ saveWrites root a) (hne : a.file = file → w.1 ≠ placeOf root a.file ending) :
    placeOf root file ending ≠ w.1 ∧ placeOf root file ending ≠ draftPlace w.1 := by
  obtain ⟨e, hmem, hw⟩ := exists_ending_of_mem h
  refine ⟨fun heq => ?_, hw ▸ placeOf_ne_draftPlace root hf ha he hmem⟩
  obtain ⟨rfl, rfl⟩ := (placeOf_eq_iff root hf ha he hmem).1 (heq.trans hw)
  exact hne rfl hw

theorem saveWrites_pairwise (root : Place) {a : Artifact} (ha : IsClean a.file) :
    (saveWrites root a).Pairwise fun v w => v.1 ≠ w.1 := by
  have hne : ∀ e ∈ endings, ∀ e' ∈ endings, e ≠ e' →
      placeOf root a.file e ≠ placeOf root a.file e' := fun e he e' he' hee' h =>
    hee' ((placeOf_eq_iff root ha ha he he').1 h).2
  simp only [saveWrites, List.pairwise_cons, List.mem_cons, List.not_mem_nil, or_false,
    forall_eq_or_imp, forall_eq, List.Pairwise.nil, and_true, IsEmpty.forall_iff, implies_true]
  exact ⟨⟨hne _ (by decide) _ (by decide) (by decide), hne _ (by decide) _ (by decide) (by decide)⟩,
    hne _ (by decide) _ (by decide) (by decide)⟩

/-- What a save that stops after at most `stop` files leaves of one kind of file: the one of its own
source file is replaced if the save got so far. -/
theorem file?_take_saveWrites (before : List (Place × String)) {after : List (Place × String)}
    {root : Place} {a : Artifact} {file ending text : String} (ha : IsClean a.file)
    (hf : IsClean file) (he : ending ∈ endings)
    (hsplit : saveWrites root a = before ++ (placeOf root a.file ending, text) :: after)
    (d : Disk) (stop : Nat) :
    (d.replaceAll ((saveWrites root a).take stop)).1.file? (placeOf root file ending) =
      if a.file = file ∧ before.length < (d.replaceAll ((saveWrites root a).take stop)).2 then
        some (.text text)
      else d.file? (placeOf root file ending) := by
  have hnil : ∀ w ∈ (saveWrites root a).take stop, w.1 ≠ [] := fun w hw =>
    ne_nil_of_mem_saveWrites ha (List.mem_of_mem_take hw)
  have hpairs := saveWrites_pairwise root ha
  rw [hsplit] at hpairs
  have hbefore : ∀ w ∈ before, w.1 ≠ placeOf root a.file ending := fun w hw =>
    (List.pairwise_append.1 hpairs).2.2 w hw _ List.mem_cons_self
  have hafter : ∀ w ∈ after, w.1 ≠ placeOf root a.file ending := fun w hw =>
    ((List.pairwise_cons.1 (List.pairwise_append.1 hpairs).2.1).1 w hw).symm
  have hmem : ∀ w ∈ before ++ after, w ∈ saveWrites root a := fun w hw => by
    rw [hsplit]
    simp only [List.mem_append, List.mem_cons] at hw ⊢
    tauto
  -- Either the save may reach the file of its own source file, or nothing it writes is that file.
  by_cases hown : a.file = file ∧ before.length < stop
  · obtain ⟨rfl, hstop⟩ := hown
    have htake : (saveWrites root a).take stop =
        before ++ (placeOf root a.file ending, text) :: after.take (stop - before.length - 1) := by
      obtain ⟨n, rfl⟩ := Nat.exists_eq_add_of_lt hstop
      rw [hsplit, Nat.add_assoc, List.take_length_add_append, List.take_succ_cons,
        Nat.add_sub_cancel_left, Nat.add_sub_cancel]
    rw [htake] at hnil ⊢
    rw [Disk.file?_replaceAll_append before _ text hnil d
      (placeOf_ne_draftPlace root ha ha he he)]
    · simp
    · intro w hw
      obtain hw | hw := List.mem_append.1 hw
      · exact ne_of_mem_saveWrites ha ha he (hmem w (by simp [hw])) fun _ => hbefore w hw
      · have hw := List.mem_of_mem_take hw
        exact ne_of_mem_saveWrites ha ha he (hmem w (by simp [hw])) fun _ => hafter w hw
  · rw [if_neg, Disk.file?_replaceAll_of_ne hnil]
    · intro w hw
      refine ne_of_mem_saveWrites ha hf he (List.mem_of_mem_take hw) fun hfile => ?_
      have hstop : stop ≤ before.length := Nat.le_of_not_lt fun h => hown ⟨hfile, h⟩
      rw [hsplit, List.take_append_of_le_length hstop] at hw
      exact hbefore w (List.mem_of_mem_take hw)
    · have hle := Disk.replaceAll_le d ((saveWrites root a).take stop)
      rw [List.length_take] at hle
      intro h
      exact hown ⟨h.1, by omega⟩

theorem file?_recordsPlace_take {a : Artifact} {file : String} (root : Place)
    (ha : IsClean a.file) (hf : IsClean file) (d : Disk) (stop : Nat) :
    (d.replaceAll ((saveWrites root a).take stop)).1.file? (recordsPlace root file) =
      if a.file = file ∧ 3 ≤ (d.replaceAll ((saveWrites root a).take stop)).2 then
        some (.text (fileText (Record.listToJson a.records)))
      else d.file? (recordsPlace root file) :=
  file?_take_saveWrites [_, _] ha hf (by decide) rfl d stop

theorem file?_fingerprintPlace_take {a : Artifact} {file : String} (root : Place)
    (ha : IsClean a.file) (hf : IsClean file) (d : Disk) (stop : Nat) :
    (d.replaceAll ((saveWrites root a).take stop)).1.file? (fingerprintPlace root file) =
      if a.file = file ∧ 2 ≤ (d.replaceAll ((saveWrites root a).take stop)).2 then
        some (.text (a.fingerprint ++ "\n"))
      else d.file? (fingerprintPlace root file) :=
  file?_take_saveWrites [_] ha hf (by decide) rfl d stop

/-! ### What the store answers -/

theorem holds_eq (s : DirectoryStore) (file : String) :
    DatasetStore.holds s file = (s.disk.file? (recordsPlace s.root file)).isSome :=
  Disk.isFile_eq _ _

theorem load_toOption (s : DirectoryStore) (file : String) :
    (DatasetStore.load s file).toOption =
      (s.disk.readText (recordsPlace s.root file)).toOption.bind Record.listOfText? := by
  change (s.load file).toOption = _
  unfold load
  split
  · next h => simp [h, Except.toOption]
  · next h => simp [h, Except.toOption]
  · next text h =>
    rw [h]
    cases hrecords : Record.listOfText? text <;> simp [hrecords, Except.toOption]

theorem fingerprint?_eq (s : DirectoryStore) (file : String) :
    DatasetStore.fingerprint? s file =
      (s.disk.readText (fingerprintPlace s.root file)).toOption.map Text.trim := by
  change s.fingerprint? file = _
  unfold fingerprint?
  split <;> simp_all [Except.toOption]

end DirectoryStore

end SourceCorpus
