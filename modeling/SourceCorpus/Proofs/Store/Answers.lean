import SourceCorpus.Proofs.Store.Writes
import SourceCorpus.Store.Memory

/-!
What stores answer about a file, and how saves change it. Both kinds of store are faithful: a
completed save of a file is answered from then on, and nothing else changes the answers.
-/

namespace SourceCorpus

structure Answers where
  holds : Bool
  /-- The stored records, if they can be read. -/
  records? : Option (List Record)
  fingerprint? : Option String
  deriving DecidableEq

namespace DatasetStore

variable {σ : Type} [DatasetStore σ]

def answers (s : σ) (file : String) : Answers :=
  ⟨holds s file, (load s file).toOption, fingerprint? s file⟩

end DatasetStore

namespace Answers

def ofArtifact (a : Artifact) : Answers := ⟨true, some a.records, some a.fingerprint⟩

end Answers

open DatasetStore

/-- A store that answers what it was given last. -/
class FaithfulStore (σ : Type) [DatasetStore σ] where
  /-- The names of files that the store keeps apart. -/
  IsName : String → Prop
  answers_save (s : σ) {a : Artifact} (ha : IsName a.file)
    (ht : Text.trim a.fingerprint = a.fingerprint) (hs : (save s a).2 = true) :
    answers (save s a).1 a.file = .ofArtifact a
  answers_save_of_ne (s : σ) {a : Artifact} {file : String} (ha : IsName a.file)
    (hf : IsName file) (hne : a.file ≠ file) : answers (save s a).1 file = answers s file
  answers_saveCorpus (s : σ) (c : Corpus) {file : String} (hf : IsName file) :
    answers (saveCorpus s c).1 file = answers s file

/-! ### Memory -/

namespace MemoryStore

theorem holding?_save (s : MemoryStore) (a : Artifact) (file : String) :
    (s.save a).holding? file =
      if a.file = file then some ⟨(Record.listToJson a.records).compact, a.graph, a.fingerprint⟩
      else s.holding? file := by
  rw [holding?, save, List.lookup_cons]
  by_cases h : a.file = file
  · simp [h]
  · rw [beq_eq_false_iff_ne.2 (Ne.symm h), if_neg h]
    rfl

theorem answers_eq (s : MemoryStore) (file : String) :
    answers s file = ⟨(s.holding? file).isSome,
      (s.holding? file).bind fun h => Record.listOfText? h.records,
      (s.holding? file).map (·.fingerprint)⟩ := by
  have hload : (s.load file).toOption =
      (s.holding? file).bind fun h => Record.listOfText? h.records := by
    unfold load
    cases s.holding? file with
    | none => rfl
    | some holding => cases h : Record.listOfText? holding.records <;> simp [h, Except.toOption]
  rw [← hload]
  rfl

instance : FaithfulStore MemoryStore where
  IsName _ := True
  answers_save s a _ _ _ := by
    change answers (s.save a) a.file = _
    rw [answers_eq, holding?_save, if_pos rfl]
    simp [Record.listOfText?_compact, Answers.ofArtifact]
  answers_save_of_ne s a file _ _ hne := by
    change answers (s.save a) file = _
    rw [answers_eq, answers_eq, holding?_save, if_neg hne]
  answers_saveCorpus _ _ _ _ := rfl

end MemoryStore

/-! ### A directory -/

namespace DirectoryStore

open SourceCorpus.Path Change

/-- The answers depend on two files. -/
theorem answers_congr {s s' : DirectoryStore} {file : String}
    (hr : s.disk.file? (recordsPlace s.root file) = s'.disk.file? (recordsPlace s'.root file))
    (hf : s.disk.file? (fingerprintPlace s.root file) =
      s'.disk.file? (fingerprintPlace s'.root file)) : answers s file = answers s' file := by
  simp only [answers, holds_eq, load_toOption, fingerprint?_eq, Disk.readText_toOption, hr, hf]

/-- A file that stands for a source file is none of those in the directory itself that have another
ending. -/
theorem placeOf_ne_append {file ending name : String} (h : IsClean file) (he : IsEnding ending)
    (hne : ¬ending.toList <:+ name.toList) (root : Place) :
    placeOf root file ending ≠ root ++ [name] := by
  obtain ⟨pieces, last, -, hs⟩ := Text.splitChar_append he.1 file.toList
  rw [placeOf_eq h he, String.toList_append, hs]
  intro heq
  have hnames := List.append_cancel_left heq
  have hlast := congrArg List.getLast? hnames
  rw [List.map_append, List.map_singleton, List.getLast?_append, List.getLast?_singleton] at hlast
  obtain rfl : String.ofList (last ++ ending.toList) = name := Option.some.inj hlast
  exact hne (by simp)

theorem file?_run_replaceFile_append {file ending name : String} (h : IsClean file)
    (he : IsEnding ending) (hne : ¬ending.toList <:+ name.toList)
    (hdraft : ¬ending.toList <:+ (name ++ ".tmp").toList) (root : Place) (d : Disk)
    (text : String) :
    (d.run (replaceFile (root ++ [name]) text)).1.file? (placeOf root file ending) =
      d.file? (placeOf root file ending) := by
  have hq : placeOf root file ending ≠ draftPlace (root ++ [name]) := by
    rw [Disk.draftPlace_append]
    exact placeOf_ne_append h he hdraft root
  rw [Disk.file?_run_replaceFile (by simp) d text hq,
    if_neg fun hw => placeOf_ne_append h he hne root hw.2]

/-- Storing a corpus leaves the files that stand for source files alone. -/
theorem file?_saveCorpus {file ending : String} (h : IsClean file) (he : ending ∈ endings)
    (s : DirectoryStore) (c : Corpus) :
    (saveCorpus s c).1.disk.file? (placeOf s.root file ending) =
      s.disk.file? (placeOf s.root file ending) := by
  have hending := isEnding_of_mem he
  have hapart : ∀ e ∈ endings, ∀ name ∈ ["instruct.json", "train.json"],
      ¬e.toList <:+ name.toList ∧ ¬e.toList <:+ (name ++ ".tmp").toList := by decide
  have hinstruct := hapart _ he "instruct.json" (by decide)
  have htrain := hapart _ he "train.json" (by decide)
  have hcorpus := file?_run_replaceFile_append h hending hinstruct.1 hinstruct.2 s.root s.disk
    (fileText (Record.listToJson c.instruct))
  change (s.disk.run (s.corpusChanges c)).1.file? _ = _
  rw [corpusChanges, corpusPlace, Disk.run_append]
  split
  · rw [← hcorpus]
    generalize (s.disk.run (replaceFile (s.root ++ ["instruct.json"])
      (fileText (Record.listToJson c.instruct)))).1 = d
    unfold trainChanges
    split
    · exact file?_run_replaceFile_append h hending htrain.1 htrain.2 s.root d _
    · split
      · cases hremove : d.applied? (.removeFile (trainPlace s.root)) with
        | none => rw [Disk.run_cons_none hremove]
        | some d' =>
          rw [Disk.run_cons_some hremove, Disk.run, Disk.file?_removeFile? hremove, trainPlace,
            if_neg (placeOf_ne_append h hending htrain.1 s.root)]
      · rfl
  · exact hcorpus

theorem save_fst (s : DirectoryStore) (a : Artifact) :
    (save s a).1 = { s with disk := (s.disk.replaceAll ((saveWrites s.root a).take 3)).1 } := by
  rw [save_eq_replaceAll]
  rfl

theorem save_snd (s : DirectoryStore) (a : Artifact) :
    (save s a).2 = decide ((s.disk.replaceAll ((saveWrites s.root a).take 3)).2 = 3) := by
  rw [save_eq_replaceAll]
  rfl

theorem answers_of_file? {s : DirectoryStore} {file fingerprint : String} {records : List Record}
    (hr : s.disk.file? (recordsPlace s.root file) =
      some (.text (fileText (Record.listToJson records))))
    (hf : s.disk.file? (fingerprintPlace s.root file) = some (.text (fingerprint ++ "\n"))) :
    answers s file = ⟨true, some records, some (Text.trim fingerprint)⟩ := by
  simp [answers, holds_eq, load_toOption, fingerprint?_eq, Disk.readText_toOption, hr, hf,
    fileText, Record.listOfText?_pretty, Text.trim_lineFeed]

instance : FaithfulStore DirectoryStore where
  IsName := IsClean
  answers_save s a ha ht hs := by
    rw [save_snd, decide_eq_true_eq] at hs
    rw [Answers.ofArtifact, ← ht, save_fst]
    apply answers_of_file?
    · rw [file?_recordsPlace_take s.root ha ha, if_pos ⟨rfl, by omega⟩]
    · rw [file?_fingerprintPlace_take s.root ha ha, if_pos ⟨rfl, by omega⟩]
  answers_save_of_ne s a file ha hf hne := by
    rw [save_fst]
    apply answers_congr
    · rw [file?_recordsPlace_take s.root ha hf, if_neg fun h => hne h.1]
    · rw [file?_fingerprintPlace_take s.root ha hf, if_neg fun h => hne h.1]
  answers_saveCorpus s c file hf :=
    answers_congr (file?_saveCorpus hf (by decide) s c) (file?_saveCorpus hf (by decide) s c)

end DirectoryStore

end SourceCorpus
