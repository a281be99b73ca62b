import SourceCorpus.Proofs.Store.Writes

/-!
Saves that stop halfway. The fingerprint of a file and its records may come from different saves:
each is what the latest save that got so far has written. So a dataset may count as up to date though
its records are those of an older source, and the main statement says exactly when.
-/

namespace SourceCorpus

/-- A save, and how many of its three files it has replaced: the graph, then the fingerprint, then
the records. -/
structure SaveAttempt where
  artifact : Artifact
  replaced : Nat

namespace SaveAttempt

/-- The artifact of the latest save of the file that has replaced so many files; the latest save
comes first. -/
def latest? (replaced : Nat) (attempts : List SaveAttempt) (file : String) : Option Artifact :=
  (attempts.find? fun x => x.artifact.file = file ∧ replaced ≤ x.replaced).map (·.artifact)

theorem latest?_cons (n : Nat) (x : SaveAttempt) (attempts : List SaveAttempt) (file : String) :
    latest? n (x :: attempts) file =
      if x.artifact.file = file ∧ n ≤ x.replaced then some x.artifact
      else latest? n attempts file := by
  rw [latest?, List.find?_cons]
  by_cases h : x.artifact.file = file ∧ n ≤ x.replaced
  · simp [h]
  · simp [h, latest?]

end SaveAttempt

namespace DirectoryStore

open SaveAttempt

/-- The disks that saves can leave behind, with the saves that did. Each may stop before any of its
files, be it that the disk refuses the write or that the program ends. -/
inductive Saved (root : Place) (start : Disk) : List SaveAttempt → Disk → Prop where
  | start : Saved root start [] start
  | save {attempts : List SaveAttempt} {d : Disk} (h : Saved root start attempts d) (a : Artifact)
      (ha : Path.IsClean a.file) (stop : Nat) :
      Saved root start
        (⟨a, (d.replaceAll ((saveWrites root a).take stop)).2⟩ :: attempts)
        (d.replaceAll ((saveWrites root a).take stop)).1

def IsEmptyDirectory (root : Place) (d : Disk) : Prop := ∀ names, d.file? (root ++ names) = none

variable {root : Place} {start d : Disk} {attempts : List SaveAttempt} {file : String}

theorem Saved.file?_recordsPlace (h : Saved root start attempts d)
    (hempty : IsEmptyDirectory root start) (hf : Path.IsClean file) :
    d.file? (recordsPlace root file) =
      (latest? 3 attempts file).map fun a =>
        .text (fileText (Record.listToJson a.records)) := by
  induction h with
  | start =>
    rw [recordsPlace, placeOf_eq hf (by decide)]
    exact hempty _
  | save h a ha stop ih =>
    rw [file?_recordsPlace_take root ha hf, latest?_cons, ih]
    split_ifs <;> rfl

theorem Saved.file?_fingerprintPlace (h : Saved root start attempts d)
    (hempty : IsEmptyDirectory root start) (hf : Path.IsClean file) :
    d.file? (fingerprintPlace root file) =
      (latest? 2 attempts file).map fun a => .text (a.fingerprint ++ "\n") := by
  induction h with
  | start =>
    rw [fingerprintPlace, placeOf_eq hf (by decide)]
    exact hempty _
  | save h a ha stop ih =>
    rw [file?_fingerprintPlace_take root ha hf, latest?_cons, ih]
    split_ifs <;> rfl

/-- The records that are loaded are those of the latest save that was completed. -/
theorem Saved.load_eq_ok_iff (h : Saved root start attempts d)
    (hempty : IsEmptyDirectory root start) (hf : Path.IsClean file) {records : List Record} :
    DatasetStore.load (⟨root, d⟩ : DirectoryStore) file = .ok records ↔
      ∃ a, latest? 3 attempts file = some a ∧ a.records = records := by
  rw [← toOption_eq_some_iff, load_toOption, Disk.readText_toOption,
    h.file?_recordsPlace hempty hf]
  cases latest? 3 attempts file with
  | none => simp
  | some a => simp [fileText, Record.listOfText?_pretty]

/-- The fingerprint is that of the latest save that got beyond it. -/
theorem Saved.fingerprint?_eq (h : Saved root start attempts d)
    (hempty : IsEmptyDirectory root start) (hf : Path.IsClean file) :
    DatasetStore.fingerprint? (⟨root, d⟩ : DirectoryStore) file =
      (latest? 2 attempts file).map fun a => Text.trim a.fingerprint := by
  rw [DirectoryStore.fingerprint?_eq, Disk.readText_toOption, h.file?_fingerprintPlace hempty hf]
  cases latest? 2 attempts file with
  | none => rfl
  | some a => simp [Text.trim_lineFeed]

theorem Saved.admits_iff (h : Saved root start attempts d) (hempty : IsEmptyDirectory root start)
    {f : SourceFile} (hf : Path.IsClean f.id) :
    Validity.contentHash.admits (⟨root, d⟩ : DirectoryStore) f = true ↔
      (latest? 3 attempts f.id).isSome ∧
        ∃ b, latest? 2 attempts f.id = some b ∧ Text.trim b.fingerprint = f.fingerprint := by
  rw [Validity.admits, Bool.and_eq_true, holds_eq, h.file?_recordsPlace hempty hf,
    h.fingerprint?_eq hempty hf]
  cases latest? 2 attempts f.id <;> simp

/-- Whether what the store loads for a file that it counts as up to date was saved along with the
fingerprint of the source at hand. -/
def ReusesFreshRecords (s : DirectoryStore) (attempts : List SaveAttempt) (f : SourceFile) : Prop :=
  ∀ records, Validity.contentHash.admits s f = true → DatasetStore.load s f.id = .ok records →
    ∃ x ∈ attempts, x.artifact.file = f.id ∧ x.artifact.fingerprint = f.fingerprint ∧
      x.artifact.records = records

/-- Reuse is fresh exactly if the records of the latest completed save were also saved with the
fingerprint that the latest save beyond its fingerprint has left, where that is the source's. -/
theorem reusesFreshRecords_iff (h : Saved root start attempts d)
    (hempty : IsEmptyDirectory root start) {f : SourceFile} (hf : Path.IsClean f.id) :
    ReusesFreshRecords ⟨root, d⟩ attempts f ↔
      ∀ a b, latest? 3 attempts f.id = some a → latest? 2 attempts f.id = some b →
        Text.trim b.fingerprint = f.fingerprint →
          ∃ x ∈ attempts, x.artifact.file = f.id ∧ x.artifact.fingerprint = f.fingerprint ∧
            x.artifact.records = a.records := by
  simp only [ReusesFreshRecords, h.admits_iff hempty hf, h.load_eq_ok_iff hempty hf]
  constructor
  · intro hfresh a b ha hb htrim
    exact hfresh a.records ⟨by simp [ha], b, hb, htrim⟩ ⟨a, ha, rfl⟩
  · rintro hlog records ⟨-, b, hb, htrim⟩ ⟨a, ha, rfl⟩
    exact hlog a b ha hb htrim

/-- As long as the latest save beyond its fingerprint was also the latest to be completed, reuse is
fresh. -/
theorem Saved.reusesFreshRecords_of_completed (h : Saved root start attempts d)
    (hempty : IsEmptyDirectory root start) {f : SourceFile} (hf : Path.IsClean f.id)
    (htrimmed : ∀ x ∈ attempts, Text.trim x.artifact.fingerprint = x.artifact.fingerprint)
    (hlast : latest? 2 attempts f.id = latest? 3 attempts f.id) :
    ReusesFreshRecords ⟨root, d⟩ attempts f := by
  intro records hadmits hload
  obtain ⟨-, b, hb, htrim⟩ := (h.admits_iff hempty hf).1 hadmits
  obtain ⟨a, ha, rfl⟩ := (h.load_eq_ok_iff hempty hf).1 hload
  obtain rfl : b = a := Option.some.inj (hb.symm.trans (hlast.trans ha))
  obtain ⟨x, hx, rfl⟩ := Option.map_eq_some_iff.1 ha
  have hfile := List.find?_some hx
  have hmem := List.mem_of_find?_eq_some hx
  simp only [decide_eq_true_eq] at hfile
  exact ⟨x, hmem, hfile.1, (htrimmed x hmem).symm.trans htrim, rfl⟩

/-! ### A save that stopped before its records -/

def versionOf (source : String) : Artifact :=
  ⟨"a.py", [⟨"What is the source?", "", source⟩], .null, Sha256.hex source⟩

/-- A save of one source was completed, and one of the next source has stopped before the records. -/
def interruptedSaves : List SaveAttempt := [⟨versionOf "x = 2\n", 2⟩, ⟨versionOf "x = 1\n", 3⟩]

def interruptedDisk : Disk :=
  ((Disk.empty.replaceAll (saveWrites ["out"] (versionOf "x = 1\n"))).1.replaceAll
    ((saveWrites ["out"] (versionOf "x = 2\n")).take 2)).1

theorem saved_interruptedDisk : Saved ["out"] .empty interruptedSaves interruptedDisk := by
  have hfirst := Saved.save (.start : Saved ["out"] .empty [] .empty) (versionOf "x = 1\n")
    (by decide) 3
  rw [show (Disk.empty.replaceAll ((saveWrites ["out"] (versionOf "x = 1\n")).take 3)).2 = 3 by
    decide +kernel] at hfirst
  have hsecond := hfirst.save (versionOf "x = 2\n") (by decide) 2
  rw [show ((Disk.empty.replaceAll
      ((saveWrites ["out"] (versionOf "x = 1\n")).take 3)).1.replaceAll
        ((saveWrites ["out"] (versionOf "x = 2\n")).take 2)).2 = 2 by
    decide +kernel] at hsecond
  exact hsecond

theorem isEmptyDirectory_empty (root : Place) : IsEmptyDirectory root .empty := by
  intro names
  by_cases h : root ++ names = [] <;> simp [Disk.file?, Disk.entry?, Disk.empty, h]

theorem hex_versions_ne : Sha256.hex "x = 1\n" ≠ Sha256.hex "x = 2\n" := by decide +kernel

/-- The records of the old source are then reused for the new one. -/
theorem reuses_stale_records_after_interruption :
    Saved ["out"] .empty interruptedSaves interruptedDisk ∧
      ¬ReusesFreshRecords ⟨["out"], interruptedDisk⟩ interruptedSaves ⟨"a.py", "x = 2\n"⟩ := by
  have hempty := isEmptyDirectory_empty ["out"]
  have hclean : Path.IsClean "a.py" := by decide
  refine ⟨saved_interruptedDisk, fun hfresh => ?_⟩
  have hadmits := (saved_interruptedDisk.admits_iff hempty (f := ⟨"a.py", "x = 2\n"⟩) hclean).2
    ⟨rfl, versionOf "x = 2\n", rfl, Sha256.trim_hex _⟩
  have hload := (saved_interruptedDisk.load_eq_ok_iff hempty hclean).2
    ⟨versionOf "x = 1\n", rfl, rfl⟩
  obtain ⟨x, hx, -, hfingerprint, hrecords⟩ := hfresh _ hadmits hload
  simp only [interruptedSaves, List.mem_cons, List.not_mem_nil, or_false] at hx
  obtain rfl | rfl := hx
  · simp [versionOf] at hrecords
  · exact hex_versions_ne hfingerprint

/-- Once the new source is saved to the end, the records that are reused for it are its own. -/
theorem reuses_fresh_records_after_completion :
    ∃ d, Saved ["out"] .empty (⟨versionOf "x = 2\n", 3⟩ :: interruptedSaves) d ∧
      IsEmptyDirectory ["out"] .empty ∧ Path.IsClean "a.py" ∧
        ReusesFreshRecords ⟨["out"], d⟩ (⟨versionOf "x = 2\n", 3⟩ :: interruptedSaves)
          ⟨"a.py", "x = 2\n"⟩ := by
  have hempty := isEmptyDirectory_empty ["out"]
  have hclean : Path.IsClean "a.py" := by decide
  have h := saved_interruptedDisk.save (versionOf "x = 2\n") hclean 3
  rw [show (interruptedDisk.replaceAll ((saveWrites ["out"] (versionOf "x = 2\n")).take 3)).2 = 3 by
    decide +kernel] at h
  refine ⟨_, h, hempty, hclean, (reusesFreshRecords_iff h hempty hclean).2 fun a b ha _ _ => ?_⟩
  obtain rfl : versionOf "x = 2\n" = a := Option.some.inj ha
  exact ⟨_, List.mem_cons_self, rfl, rfl, rfl⟩

end DirectoryStore

end SourceCorpus
