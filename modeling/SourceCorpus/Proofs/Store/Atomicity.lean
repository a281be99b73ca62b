import SourceCorpus.Proofs.Disk.Stops
import SourceCorpus.Proofs.Store.Exchange

/-!
Saves that stop on the way, and what is told of the files afterwards. Main statement: wherever a save
stops, the store tells of all files what it told before, or what it tells after a completed save, as
long as no file that stands for one of them is below another or below a draft.
-/

namespace SourceCorpus.DirectoryStore

open Change SourceCorpus.Path

def TellsSame (s s' : DirectoryStore) (file : String) : Prop :=
  DatasetStore.holds s' file = DatasetStore.holds s file ∧
    DatasetStore.load s' file = DatasetStore.load s file

/-- What becomes of a store if a save of the artifact leaves it behind. -/
structure KeepsOldOrNew (files : Set String) (a : Artifact) (complete : Bool)
    (s s' : DirectoryStore) : Prop where
  interrupted : complete = false → ∀ file ∈ files, TellsSame s s' file
  completed : complete = true → DatasetStore.save s a = (s', true)
  told : complete = true →
    DatasetStore.holds s' a.file = true ∧ DatasetStore.load s' a.file = .ok a.records
  others : ∀ file ∈ files, file ≠ a.file → TellsSame s s' file
  /-- No part of the records is ever loaded. -/
  whole : ∀ file ∈ files, ∀ records, DatasetStore.load s' file = .ok records →
    DatasetStore.load s file = .ok records ∨ file = a.file ∧ records = a.records
  stays : ∀ file ∈ files, DatasetStore.holds s file = true → DatasetStore.holds s' file = true
  loadable : ∀ file ∈ files, (DatasetStore.load s file).isOk = true →
    (DatasetStore.load s' file).isOk = true
  absent : complete = false → a.file ∈ files → DatasetStore.holds s a.file = false →
    DatasetStore.holds s' a.file = false

variable {root : Place} {files : Set String} {a : Artifact} {file : String} {d d' : Disk}
  {changes : List Change} {complete : Bool} {s : DirectoryStore} {p : Place}

/-! ### The places of a save -/

/-- All that a save does before the records take their place. -/
def draftChanges (root : Place) (a : Artifact) : List Change :=
  saveGraph root a ++ saveFingerprint root a ++
    [.makeDirectory (recordsPlace root a.file).dropLast,
      .write (draftPlace (recordsPlace root a.file)) (.text (fileText (Record.listToJson a.records)))]

theorem saveChanges_eq_concat (root : Place) (a : Artifact) : saveChanges root a =
    draftChanges root a ++ [.rename (draftPlace (recordsPlace root a.file)) (recordsPlace root a.file)] := by
  simp [saveChanges, draftChanges, saveRecords, replaceFile]

theorem exists_ending_of_mem_files (h : p ∈ (saveChanges root a).flatMap Change.files) :
    ∃ e ∈ endings, p = placeOf root a.file e ∨ p = draftPlace (placeOf root a.file e) := by
  rw [saveChanges_eq, List.flatMap_assoc, List.mem_flatMap] at h
  obtain ⟨w, hw, hp⟩ := h
  obtain ⟨e, he, hplace⟩ := exists_ending_of_mem hw
  refine ⟨e, he, ?_⟩
  rw [← hplace]
  simp only [replaceFile, List.flatMap_cons, Change.files, List.flatMap_nil, List.mem_append,
    List.mem_cons, List.not_mem_nil, or_false, false_or] at hp
  tauto

theorem exists_ending_of_mem_folders (h : p ∈ (saveChanges root a).flatMap Change.folders) :
    ∃ e ∈ endings, p ∈ Place.prefixes (placeOf root a.file e).dropLast := by
  rw [saveChanges_eq, List.flatMap_assoc, List.mem_flatMap] at h
  obtain ⟨w, hw, hp⟩ := h
  obtain ⟨e, he, hplace⟩ := exists_ending_of_mem hw
  refine ⟨e, he, ?_⟩
  rw [← hplace]
  simpa [replaceFile, Change.folders] using hp

/-- The records of a file are no file that the save of another touches. -/
theorem eq_of_recordsPlace_mem (ha : IsClean a.file) (hf : IsClean file)
    (h : recordsPlace root file ∈ (saveChanges root a).flatMap Change.files) : file = a.file := by
  obtain ⟨e, he, hplace | hdraft⟩ := exists_ending_of_mem_files h
  · exact ((placeOf_eq_iff root hf ha (by decide) he).1 hplace).1
  · exact absurd hdraft (placeOf_ne_draftPlace root hf ha (by decide) he)

/-- Before the records take their place, the save does not touch the old ones. -/
theorem recordsPlace_not_mem_draftChanges (root : Place) (ha : IsClean a.file) :
    recordsPlace root a.file ∉ (draftChanges root a).flatMap Change.files := by
  have hgraph : recordsPlace root a.file ≠ graphPlace root a.file := fun heq =>
    absurd ((placeOf_eq_iff root ha ha (by decide) (by decide)).1 heq).2 (by decide)
  have hfingerprint : recordsPlace root a.file ≠ fingerprintPlace root a.file := fun heq =>
    absurd ((placeOf_eq_iff root ha ha (by decide) (by decide)).1 heq).2 (by decide)
  have hdraft : ∀ e ∈ endings, recordsPlace root a.file ≠ draftPlace (placeOf root a.file e) :=
    fun e he => placeOf_ne_draftPlace root ha ha (by decide) he
  have hgraph' := hdraft ".graph.json" (by decide)
  have hfingerprint' := hdraft ".sha256" (by decide)
  have hrecords' := hdraft ".instruct.json" (by decide)
  simp only [draftChanges, saveGraph, saveFingerprint, replaceFile, List.cons_append,
    List.nil_append, List.flatMap_cons, Change.files, List.flatMap_nil, List.mem_cons,
    List.not_mem_nil, or_false, not_or]
  exact ⟨hgraph', hgraph', hgraph, hfingerprint', hfingerprint', hfingerprint, hrecords'⟩

/-! ### What is told -/

theorem tellsSame_of_keptAt {folders : List Place}
    (h : ∀ q ∈ (recordsPlace root file).prefixes, Disk.KeptAt d d' folders q)
    (hne : recordsPlace root file ≠ []) (hfolder : recordsPlace root file ∉ folders) :
    TellsSame ⟨root, d⟩ ⟨root, d'⟩ file := by
  have hplace := h _ (Place.self_mem_prefixes hne)
  have hread := Disk.readText_congr (hplace.entry?_eq hfolder) fun q hq => (h q hq).isFile_eq
  refine ⟨hplace.isFile_eq, ?_⟩
  show load _ _ = load _ _
  unfold load
  simp only [hread]

/-- Changes of a save that do not touch the records of a file change nothing of what is told of it. -/
theorem tellsSame_of_stopsAt (ha : IsClean a.file) (hf : IsClean file) (hblocks : ¬Blocks a.file file)
    (hblocks' : ¬Blocks file a.file) (hchanges : changes ⊆ saveChanges root a)
    (hne : recordsPlace root file ∉ changes.flatMap Change.files)
    (h : d.StopsAt changes d' complete) : TellsSame ⟨root, d⟩ ⟨root, d'⟩ file := by
  have hending : IsEnding ".instruct.json" := by decide
  have hsubset : ∀ places : Change → List Place,
      changes.flatMap places ⊆ (saveChanges root a).flatMap places := by
    intro places p hp
    obtain ⟨c, hc, hp⟩ := List.mem_flatMap.1 hp
    exact List.mem_flatMap.2 ⟨c, hchanges hc, hp⟩
  have hfree : ∀ e ∈ endings, ¬(a.file ++ e).toList ++ ['/'] <+: file.toList ∧
      ¬(a.file ++ (e ++ ".tmp")).toList ++ ['/'] <+: file.toList := fun e he =>
    not_or.1 fun hor => hblocks ⟨e, he, hor⟩
  -- Nothing that the save writes is on the way to the records of the file.
  have hkept : ∀ q ∈ (recordsPlace root file).prefixes,
      d.KeptAt d' (changes.flatMap Change.folders) q := by
    intro q hq
    apply h.keptAt
    intro hmem
    have hplace : q ≠ recordsPlace root file := fun heq => hne (heq ▸ hmem)
    obtain ⟨e, he, rfl | rfl⟩ := exists_ending_of_mem_files (hsubset _ hmem)
    · exact placeOf_not_mem_prefixes ha hf (isEnding_of_mem he) hending (hfree e he).1 hplace hq
    · rw [draftPlace_placeOf ha (isEnding_of_mem he)] at hq hplace
      exact placeOf_not_mem_prefixes ha hf (isEnding_draft_of_mem he) hending (hfree e he).2 hplace hq
  -- Nor are the records of the file on the way to what the save writes.
  refine tellsSame_of_keptAt hkept (placeOf_ne_nil hf hending root) fun hmem => ?_
  obtain ⟨e, he, hfolder⟩ := exists_ending_of_mem_folders (hsubset _ hmem)
  have hplace : recordsPlace root file ≠ placeOf root a.file e := by
    intro heq
    rw [heq] at hfolder
    exact Place.not_mem_prefixes_dropLast (placeOf_ne_nil ha (isEnding_of_mem he) root) hfolder
  exact placeOf_not_mem_prefixes hf ha hending (isEnding_of_mem he)
    (fun hbegins => hblocks' ⟨".instruct.json", by decide, .inl hbegins⟩) hplace
    (Place.mem_prefixes_of_dropLast hfolder)

/-- A save that is interrupted, or that is of another file, changes nothing of what is told of a file.
-/
theorem tellsSame_of_save (hclean : ∀ file ∈ files, IsClean file)
    (hapart : ∀ file ∈ files, ∀ file' ∈ files, ¬Blocks file file') (ha : a.file ∈ files)
    (hfile : file ∈ files) (hold : complete = false ∨ file ≠ a.file)
    (h : s.disk.StopsAt (saveChanges s.root a) d' complete) :
    TellsSame s { s with disk := d' } file := by
  have hblocks := hapart a.file ha file hfile
  have hblocks' := hapart file hfile a.file ha
  have hmine := fun hmem : recordsPlace s.root file ∈ (saveChanges s.root a).flatMap Change.files =>
    eq_of_recordsPlace_mem (hclean _ ha) (hclean file hfile) hmem
  rcases hold with rfl | hne
  · rw [saveChanges_eq_concat] at h hmine
    obtain ⟨complete, hdrafts⟩ := h.of_concat_rename
    have hsubset : draftChanges s.root a ⊆ saveChanges s.root a := by
      rw [saveChanges_eq_concat]
      exact List.subset_append_left _ _
    refine tellsSame_of_stopsAt (hclean _ ha) (hclean file hfile) hblocks hblocks' hsubset ?_ hdrafts
    intro hmem
    rw [List.flatMap_append, List.mem_append] at hmine
    obtain rfl : file = a.file := hmine (.inl hmem)
    exact recordsPlace_not_mem_draftChanges s.root (hclean _ ha) hmem
  · exact tellsSame_of_stopsAt (hclean _ ha) (hclean file hfile) hblocks hblocks'
      (List.Subset.refl _) (fun hmem => hne (hmine hmem)) h

/-- A completed save is told. -/
theorem told_of_save (ha : IsClean a.file) (h : (DatasetStore.save s a).2 = true) :
    DatasetStore.holds (DatasetStore.save s a).1 a.file = true ∧
      DatasetStore.load (DatasetStore.save s a).1 a.file = .ok a.records := by
  have hrecords : (DatasetStore.save s a).1.disk.file? (recordsPlace s.root a.file) =
      some (.text (fileText (Record.listToJson a.records))) := by
    rw [save_eq_replaceAll, decide_eq_true_eq] at h
    rw [save_eq_replaceAll]
    have hfile := file?_recordsPlace_take s.root ha ha s.disk 3
    rwa [List.take_of_length_le (Nat.le_refl 3), h, if_pos ⟨rfl, Nat.le_refl 3⟩] at hfile
  have hroot : (DatasetStore.save s a).1.root = s.root := rfl
  constructor
  · rw [holds_eq, hroot, hrecords]
    rfl
  · rw [← toOption_eq_some_iff, load_toOption, Disk.readText_toOption, hroot, hrecords]
    exact Record.listOfText?_pretty a.records

/-- Wherever a save stops, the store tells of all files what it told before, or what it tells after the
completed save. -/
theorem keepsOldOrNew_of_stopsAt (hclean : ∀ file ∈ files, IsClean file)
    (hapart : ∀ file ∈ files, ∀ file' ∈ files, ¬Blocks file file') (ha : a.file ∈ files)
    (h : s.disk.StopsAt (saveChanges s.root a) d' complete) :
    KeepsOldOrNew files a complete s { s with disk := d' } := by
  have hold : ∀ file ∈ files, complete = false ∨ file ≠ a.file →
      TellsSame s { s with disk := d' } file := fun file hfile hcase =>
    tellsSame_of_save hclean hapart ha hfile hcase h
  have hsave : complete = true → DatasetStore.save s a = ({ s with disk := d' }, true) := by
    rintro rfl
    show s.run (saveChanges s.root a) = _
    rw [run, h.run_eq]
  have hnew : complete = true → DatasetStore.holds { s with disk := d' } a.file = true ∧
      DatasetStore.load { s with disk := d' } a.file = .ok a.records := by
    intro hcomplete
    have htold := told_of_save (s := s) (hclean _ ha) (by rw [hsave hcomplete])
    rwa [hsave hcomplete] at htold
  -- Every file is told of as before, except the one that was saved, if that save was completed.
  have hcases : ∀ file ∈ files, TellsSame s { s with disk := d' } file ∨
      file = a.file ∧ complete = true := by
    intro file hfile
    by_cases hfile' : file = a.file
    · cases complete with
      | false => exact .inl (hold file hfile (.inl rfl))
      | true => exact .inr ⟨hfile', rfl⟩
    · exact .inl (hold file hfile (.inr hfile'))
  refine ⟨fun hstopped file hfile => hold file hfile (.inl hstopped), hsave, hnew,
    fun file hfile hne => hold file hfile (.inr hne), ?_, ?_, ?_, ?_⟩
  · intro file hfile records hload
    rcases hcases file hfile with hsame | ⟨rfl, hcomplete⟩
    · exact .inl (hsame.2 ▸ hload)
    · exact .inr ⟨rfl, Except.ok.inj (hload.symm.trans (hnew hcomplete).2)⟩
  · intro file hfile hholds
    rcases hcases file hfile with hsame | ⟨rfl, hcomplete⟩
    · exact hsame.1.trans hholds
    · exact (hnew hcomplete).1
  · intro file hfile hok
    rcases hcases file hfile with hsame | ⟨rfl, hcomplete⟩
    · rwa [hsame.2]
    · rw [(hnew hcomplete).2]
      rfl
  · intro hstopped hfile habsent
    exact (hold _ hfile (.inl hstopped)).1.trans habsent

/-! ### Saves that break off -/

def changesBeforeRecords (root : Place) (a : Artifact) : List Change :=
  saveGraph root a ++ saveFingerprint root a ++ [.makeDirectory (recordsPlace root a.file).dropLast]

/-- The disk after a save that has written a part of the records. -/
def brokenOff (d : Disk) (root : Place) (a : Artifact) (part : Content) : Disk :=
  (d.run (changesBeforeRecords root a)).1.put (draftPlace (recordsPlace root a.file)) (.file part)

theorem stopsAt_brokenOff {part : Content} (h : (d.run (changesBeforeRecords root a)).2 = true)
    (hroom : (d.run (changesBeforeRecords root a)).1.hasRoomFor
      (draftPlace (recordsPlace root a.file)) = true) :
    d.StopsAt (saveChanges root a) (brokenOff d root a part) false := by
  have hrest : (d.run (changesBeforeRecords root a)).1.StopsAt
      [.write (draftPlace (recordsPlace root a.file)) (.text (fileText (Record.listToJson a.records))),
        .rename (draftPlace (recordsPlace root a.file)) (recordsPlace root a.file)]
      (brokenOff d root a part) false := .partly part hroom
  have hstops := Disk.StopsAt.append (Prod.ext rfl h) hrest
  rwa [changesBeforeRecords, List.append_assoc] at hstops

/-- A first save that breaks off within the records changes nothing of what is told of both files. -/
theorem keepsOldOrNew_brokenOff :
    let a : Artifact := ⟨"pkg/b.py", [⟨"What is the source?", "", "x = 1\n"⟩], .null, "0"⟩
    let s : DirectoryStore := (DatasetStore.save (⟨["out"], .empty⟩ : DirectoryStore)
      ⟨"a.py", [], .null, "1"⟩).1
    let files : Set String := {file | file ∈ ["a.py", "pkg/b.py"]}
    (∀ file ∈ files, IsClean file) ∧ (∀ file ∈ files, ∀ file' ∈ files, ¬Blocks file file') ∧
      a.file ∈ files ∧
      s.disk.StopsAt (saveChanges s.root a) (brokenOff s.disk s.root a (.text "[")) false ∧
      KeepsOldOrNew files a false s { s with disk := brokenOff s.disk s.root a (.text "[") } := by
  intro a s files
  have hclean : ∀ file ∈ files, IsClean file := by
    show ∀ file ∈ ["a.py", "pkg/b.py"], IsClean file
    decide
  have hapart : ∀ file ∈ files, ∀ file' ∈ files, ¬Blocks file file' := by
    show ∀ file ∈ ["a.py", "pkg/b.py"], ∀ file' ∈ ["a.py", "pkg/b.py"], ¬Blocks file file'
    decide
  have ha : a.file ∈ files := List.mem_cons_of_mem _ List.mem_cons_self
  have hstops : s.disk.StopsAt (saveChanges s.root a) (brokenOff s.disk s.root a (.text "[")) false :=
    stopsAt_brokenOff (by decide +kernel) (by decide +kernel)
  exact ⟨hclean, hapart, ha, hstops, keepsOldOrNew_of_stopsAt hclean hapart ha hstops⟩

/-- A draft that is left behind is in the way of a file in a directory of its name, be it that the save
breaks off within the records or that they cannot take their place. The records of that file are
missing before, and after a completed save, but not then. -/
theorem draft_left_behind :
    let a : Artifact := ⟨"a.py", [], .null, "0"⟩
    let other := "a.py.instruct.json.tmp/b.py"
    let s : DirectoryStore := ⟨["out"], .empty⟩
    let s' : DirectoryStore := { s with disk := brokenOff s.disk s.root a (.text "[") }
    let blocked : DirectoryStore :=
      ⟨["out"], ⟨[(["out", "a.py.instruct.json"], .directory), (["out"], .directory)]⟩⟩
    IsClean a.file ∧ IsClean other ∧
      (∀ file ∈ [a.file, other], ∀ file' ∈ [a.file, other], ∀ e ∈ endings, ∀ e' ∈ endings,
        placeOf s.root file e <+: placeOf s.root file' e' →
          placeOf s.root file e = placeOf s.root file' e') ∧
      s.disk.StopsAt (saveChanges s.root a) s'.disk false ∧
      DatasetStore.load s other = .error (.missing other) ∧
      DatasetStore.load s' other = .error (.unreadable other .notDirectory) ∧
      (DatasetStore.save s a).2 = true ∧
      DatasetStore.load (DatasetStore.save s a).1 other = .error (.missing other) ∧
      DatasetStore.load blocked other = .error (.missing other) ∧
      (DatasetStore.save blocked a).2 = false ∧
      DatasetStore.load (DatasetStore.save blocked a).1 other =
        .error (.unreadable other .notDirectory) := by
  intro a other s s' blocked
  have hstops : s.disk.StopsAt (saveChanges s.root a) s'.disk false :=
    stopsAt_brokenOff (by decide +kernel) (by decide +kernel)
  exact ⟨by decide, by decide, by decide +kernel, hstops, by decide +kernel, by decide +kernel,
    by decide +kernel, by decide +kernel, by decide +kernel, by decide +kernel, by decide +kernel⟩

end SourceCorpus.DirectoryStore
