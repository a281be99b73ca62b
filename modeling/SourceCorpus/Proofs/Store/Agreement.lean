import SourceCorpus.Proofs.Store.Exchange
import SourceCorpus.Proofs.Store.Interruption

/-!
The two kinds of store agree. Main statement: if the files that a directory store writes are not in each
other's way, it answers the same as a store in memory after any saves, which is what was saved last.
-/

namespace SourceCorpus

open DatasetStore

inductive StoreOperation where
  | save (a : Artifact)
  | saveCorpus (c : Corpus)

namespace StoreOperation

def artifact? : StoreOperation → Option Artifact
  | save a => some a
  | saveCorpus _ => none

variable {σ : Type} [DatasetStore σ]

def perform (s : σ) : StoreOperation → σ × Bool
  | save a => DatasetStore.save s a
  | saveCorpus c => DatasetStore.saveCorpus s c

def performAll (s : σ) : List StoreOperation → σ × Bool
  | [] => (s, true)
  | op :: ops => ((performAll (op.perform s).1 ops).1,
      (op.perform s).2 && (performAll (op.perform s).1 ops).2)

def lastSaved? (ops : List StoreOperation) (file : String) : Option Artifact :=
  ((ops.filterMap (·.artifact?)).filter (·.file == file)).getLast?

def IsWithin (files : Set String) (op : StoreOperation) : Prop :=
  ∀ a ∈ op.artifact?, a.file ∈ files ∧ ∃ source, a.fingerprint = Sha256.hex source

end StoreOperation

structure Replies where
  holds : Bool
  load : Except PriorFault (List Record)
  fingerprint? : Option String

namespace Replies

def of {σ : Type} [DatasetStore σ] (s : σ) (file : String) : Replies :=
  ⟨DatasetStore.holds s file, DatasetStore.load s file, DatasetStore.fingerprint? s file⟩

/-- What is to be told of a file for which this was saved last. -/
def expected (file : String) : Option Artifact → Replies
  | none => ⟨false, .error (.missing file), none⟩
  | some a => ⟨true, .ok a.records, some a.fingerprint⟩

end Replies

namespace DirectoryStore

def IsTarget (root : Place) (files : Set String) (p : Place) : Prop :=
  p = corpusPlace root ∨ p = trainPlace root ∨
    ∃ file ∈ files, ∃ ending ∈ endings, p = placeOf root file ending

/-- The files have clean names, and nothing that is written for them is a directory on the way to
something else. -/
structure StandApart (root : Place) (files : Set String) : Prop where
  clean : ∀ file ∈ files, Path.IsClean file
  apart : ∀ p q, IsTarget root files p → IsTarget root files q → p <+: q → p = q

/-- Nothing is in the directory, which can be made if it is not there. -/
structure IsFresh (root : Place) (d : Disk) : Prop where
  below : ∀ names ≠ [], d.entry? (root ++ names) = none
  above : ∀ p ∈ root.prefixes, d.isFile p = false

end DirectoryStore

/-- A store that replies as expected after all operations, and in which no operation changes what is
told of a file that it does not save. -/
structure KeepsLast {σ : Type} [DatasetStore σ] (s : σ) (files : Set String)
    (ops : List StoreOperation) : Prop where
  replies : ∀ file ∈ files, Replies.of (StoreOperation.performAll s ops).1 file =
    .expected file (StoreOperation.lastSaved? ops file)
  others : ∀ before op after, ops = before ++ op :: after → ∀ file ∈ files,
    (∀ a ∈ op.artifact?, a.file ≠ file) →
      Replies.of (StoreOperation.performAll s (before ++ [op])).1 file =
        Replies.of (StoreOperation.performAll s before).1 file

namespace StoreOperation

variable {σ : Type} [DatasetStore σ] {s : σ} {op : StoreOperation} {ops before after : List StoreOperation}
  {file : String} {files : Set String}

/-! ### Operations in a row -/

theorem performAll_append (s : σ) (before after : List StoreOperation) :
    performAll s (before ++ after) = ((performAll (performAll s before).1 after).1,
      (performAll s before).2 && (performAll (performAll s before).1 after).2) := by
  induction before generalizing s with
  | nil => rw [List.nil_append, performAll, Bool.true_and]
  | cons op before ih => rw [List.cons_append, performAll, ih, performAll, Bool.and_assoc]

theorem lastSaved?_append (before after : List StoreOperation) (file : String) :
    lastSaved? (before ++ after) file = (lastSaved? after file).or (lastSaved? before file) := by
  rw [lastSaved?, List.filterMap_append, List.filter_append, List.getLast?_append]
  rfl

theorem lastSaved?_singleton_of_ne (h : ∀ a ∈ op.artifact?, a.file ≠ file) :
    lastSaved? [op] file = none := by
  cases op with
  | save a => simp [lastSaved?, artifact?, h a rfl]
  | saveCorpus c => rfl

theorem keepsLast_of_replies
    (h : ∀ before after, ops = before ++ after → ∀ file ∈ files,
      Replies.of (performAll s before).1 file = .expected file (lastSaved? before file)) :
    KeepsLast s files ops := by
  refine ⟨h ops [] (List.append_nil ops).symm, ?_⟩
  rintro before op after rfl file hfile hop
  rw [h (before ++ [op]) after (by simp) file hfile, h before _ rfl file hfile, lastSaved?_append,
    lastSaved?_singleton_of_ne hop, Option.none_or]

/-- What a faithful store answers is what was saved last, or what it has answered before. -/
theorem answers_performAll [FaithfulStore σ] (hops : ∀ op ∈ ops, op.IsWithin files)
    (hfiles : ∀ file ∈ files, FaithfulStore.IsName σ file) (hfile : file ∈ files) (s : σ)
    (hcomplete : (performAll s ops).2 = true) :
    answers (performAll s ops).1 file =
      ((lastSaved? ops file).map Answers.ofArtifact).getD (answers s file) := by
  induction ops using List.reverseRecOn with
  | nil => rfl
  | append_singleton before op ih =>
    rw [performAll_append, performAll, performAll, Bool.and_true, Bool.and_eq_true] at hcomplete
    have hbefore := ih (fun op hop => hops op (List.mem_append_left _ hop)) hcomplete.1
    have hop := hops op (List.mem_append_right _ (List.mem_singleton_self op))
    rw [performAll_append, performAll, performAll, lastSaved?_append]
    cases op with
    | saveCorpus c =>
      exact (FaithfulStore.answers_saveCorpus _ c (hfiles file hfile)).trans hbefore
    | save a =>
      obtain ⟨ha, source, hsource⟩ := hop a rfl
      by_cases hsame : a.file = file
      · have htrim : Text.trim a.fingerprint = a.fingerprint := hsource ▸ Sha256.trim_hex source
        have hlast : lastSaved? [save a] file = some a := by simp [lastSaved?, artifact?, hsame]
        rw [hlast, Option.some_or, Option.map_some, Option.getD_some, ← hsame]
        exact FaithfulStore.answers_save _ (hfiles _ ha) htrim hcomplete.2
      · have hlast : lastSaved? [save a] file = none :=
          lastSaved?_singleton_of_ne fun b hb => Option.some.inj hb ▸ hsame
        rw [hlast, Option.none_or, ← hbefore]
        exact FaithfulStore.answers_save_of_ne _ (hfiles _ ha) (hfiles file hfile) hsame

/-- Replies are as expected if the answers are and what was never saved is missing. -/
theorem replies_eq_expected {last : Option Artifact}
    (h : answers s file = (last.map Answers.ofArtifact).getD ⟨false, none, none⟩)
    (hmissing : last = none → load s file = .error (.missing file)) :
    Replies.of s file = .expected file last := by
  cases last with
  | none =>
    obtain ⟨hholds, -, hfingerprint⟩ := Answers.mk.inj h
    rw [Replies.of, hholds, hmissing rfl, hfingerprint, Replies.expected]
  | some a =>
    obtain ⟨hholds, hload, hfingerprint⟩ := Answers.mk.inj h
    rw [Replies.of, hholds, toOption_eq_some_iff.1 hload, hfingerprint, Replies.expected]

end StoreOperation

open StoreOperation

/-! ### Memory -/

namespace MemoryStore

theorem answers_empty (file : String) : answers empty file = ⟨false, none, none⟩ := rfl

theorem performAll_snd (s : MemoryStore) (ops : List StoreOperation) : (performAll s ops).2 = true := by
  induction ops generalizing s with
  | nil => rfl
  | cons op ops ih =>
    rw [performAll, ih, Bool.and_true]
    cases op <;> rfl

theorem load_eq_missing {s : MemoryStore} {file : String} (h : DatasetStore.holds s file = false) :
    DatasetStore.load s file = .error (.missing file) := by
  have hnone : s.holding? file = none := Option.isNone_iff_eq_none.1 (Option.isSome_eq_false_iff.1 h)
  change s.load file = _
  rw [load, hnone]

theorem keepsLast {files : Set String} {ops : List StoreOperation}
    (hops : ∀ op ∈ ops, op.IsWithin files) : KeepsLast empty files ops := by
  refine keepsLast_of_replies fun before after hsplit file hfile => ?_
  have hbefore : ∀ op ∈ before, op.IsWithin files := fun op hop =>
    hops op (hsplit ▸ List.mem_append_left after hop)
  have hanswers := answers_performAll hbefore (fun _ _ => trivial) hfile empty (performAll_snd _ _)
  rw [answers_empty] at hanswers
  refine replies_eq_expected hanswers fun hnone => load_eq_missing ?_
  rw [hnone] at hanswers
  exact congrArg Answers.holds hanswers

end MemoryStore

/-! ### Replacements in a directory -/

namespace Disk

open Change

variable {d : Disk} {p q : Place} {text : String}

/-- Files are nowhere but where they were and where one was put. -/
theorem isFile_of_replaced (hp : p ≠ []) (hcomplete : (d.run (replaceFile p text)).2 = true)
    (h : (d.run (replaceFile p text)).1.isFile q = true) : q = p ∨ d.isFile q = true := by
  by_cases hq : q = p
  · exact .inl hq
  right
  by_cases hdraft : q = draftPlace p
  · obtain ⟨hentry, hdone⟩ := run_replaceFile d hp text
    rw [hdone, decide_eq_true_eq] at hcomplete
    rw [isFile, hentry, hcomplete, Replacing.entryAfter, if_neg hq, if_pos hdraft] at h
    cases h
  · rw [isFile_eq, file?_run_replaceFile hp d text hdraft, if_neg fun hput => hq hput.2] at h
    rwa [isFile_eq]

/-- Directories are nowhere but where they were and on the way to the file. -/
theorem isDirectory_of_replaced (hp : p ≠ [])
    (hcomplete : (d.run (replaceFile p text)).2 = true)
    (h : (d.run (replaceFile p text)).1.isDirectory q = true) :
    q ∈ Place.prefixes p.dropLast ∨ d.isDirectory q = true := by
  obtain ⟨hentry, hdone⟩ := run_replaceFile d hp text
  rw [hdone, decide_eq_true_eq] at hcomplete
  rw [isDirectory, hentry, hcomplete, Replacing.entryAfter] at h
  by_cases hq : q ∈ Place.prefixes p.dropLast
  · exact .inl hq
  rw [entryWithFolders, if_neg hq] at h
  right
  split at h
  next => cases h
  next =>
    split at h
    next => cases h
    next => exact h

theorem isFile_of_without (h : (d.without p).isFile q = true) : d.isFile q = true := by
  rw [isFile_eq, file?_without] at h
  rw [isFile_eq]
  split at h
  next => cases h
  next => exact h

theorem isDirectory_of_without (hq : q ≠ []) (h : (d.without p).isDirectory q = true) :
    d.isDirectory q = true := by
  rw [isDirectory, entry?_without, if_neg hq] at h
  split at h
  next => cases h
  next => exact h

end Disk

namespace DirectoryStore

open Change SourceCorpus.Path

variable {root : Place} {files : Set String} {d : Disk} {p q : Place} {file : String}
  {s : DirectoryStore} {ops : List StoreOperation}

structure IsTidy (root : Place) (files : Set String) (d : Disk) : Prop where
  file : ∀ q, root <+: q → d.isFile q = true → IsTarget root files q
  directory : ∀ q, root <+: q → q ≠ root → d.isDirectory q = true →
    ∃ p, IsTarget root files p ∧ q <+: p ∧ q ≠ p
  above : ∀ q ∈ root.prefixes, d.isFile q = false

theorem IsFresh.isTidy (h : IsFresh root d) : IsTidy root files d := by
  refine ⟨?_, ?_, h.above⟩
  · rintro q ⟨names, rfl⟩ hfile
    by_cases hnames : names = []
    · rw [hnames, List.append_nil] at hfile
      by_cases hroot : root = []
      · rw [hroot, Disk.isFile_eq, Disk.file?_nil] at hfile
        cases hfile
      · rw [h.above root (Place.self_mem_prefixes hroot)] at hfile
        cases hfile
    · rw [Disk.isFile, h.below names hnames] at hfile
      cases hfile
  · rintro q ⟨names, rfl⟩ hne hdirectory
    have hnames : names ≠ [] := fun hnil => hne (by rw [hnil, List.append_nil])
    rw [Disk.isDirectory, h.below names hnames] at hdirectory
    cases hdirectory

/-- What is written is below the directory. -/
theorem StandApart.exists_names (h : StandApart root files) (hp : IsTarget root files p) :
    ∃ names ≠ [], p = root ++ names := by
  rcases hp with rfl | rfl | ⟨file, hfile, ending, hending, rfl⟩
  · exact ⟨_, List.cons_ne_nil _ _, rfl⟩
  · exact ⟨_, List.cons_ne_nil _ _, rfl⟩
  · rw [placeOf_eq (h.clean file hfile) (isEnding_of_mem hending)]
    exact ⟨_, by simp [Text.splitChar_ne_nil], rfl⟩

theorem StandApart.ne_nil (h : StandApart root files) (hp : IsTarget root files p) : p ≠ [] := by
  obtain ⟨names, hnames, rfl⟩ := h.exists_names hp
  simp [hnames]

theorem IsTidy.run_replaceFile (h : IsTidy root files d) (hapart : StandApart root files)
    (hp : IsTarget root files p) {text : String}
    (hcomplete : (d.run (replaceFile p text)).2 = true) :
    IsTidy root files (d.run (replaceFile p text)).1 := by
  have hne := hapart.ne_nil hp
  refine ⟨fun q hq hfile => ?_, fun q hq hroot hdirectory => ?_, fun q hq => ?_⟩
  · rcases Disk.isFile_of_replaced hne hcomplete hfile with rfl | hfile
    · exact hp
    · exact h.file q hq hfile
  · rcases Disk.isDirectory_of_replaced hne hcomplete hdirectory with hmem | hdirectory
    · have hfolder := (Place.mem_prefixes.1 hmem).2
      refine ⟨p, hp, hfolder.trans p.dropLast_prefix, ?_⟩
      rintro rfl
      exact Place.not_mem_prefixes_dropLast hne hmem
    · exact h.directory q hq hroot hdirectory
  · rw [Bool.eq_false_iff]
    intro hfile
    rcases Disk.isFile_of_replaced hne hcomplete hfile with rfl | hfile
    · obtain ⟨names, hnames, heq⟩ := hapart.exists_names hp
      have hlength := (Place.mem_prefixes.1 hq).2.length_le
      have hpos := List.length_pos_iff.2 hnames
      rw [heq, List.length_append] at hlength
      omega
    · rw [h.above q hq] at hfile
      cases hfile

theorem IsTidy.replaceAll (h : IsTidy root files d) (hapart : StandApart root files)
    {writes : List (Place × String)} (hwrites : ∀ w ∈ writes, IsTarget root files w.1)
    (hcomplete : (d.replaceAll writes).2 = writes.length) :
    IsTidy root files (d.replaceAll writes).1 := by
  induction writes generalizing d with
  | nil => exact h
  | cons w writes ih =>
    rw [List.forall_mem_cons] at hwrites
    rw [Disk.replaceAll_cons] at hcomplete ⊢
    by_cases hfirst : (d.run (replaceFile w.1 w.2)).2 = true
    · rw [if_pos hfirst] at hcomplete ⊢
      exact ih (h.run_replaceFile hapart hwrites.1 hfirst) hwrites.2 (Nat.succ_inj.1 hcomplete)
    · rw [if_neg hfirst] at hcomplete
      cases hcomplete

theorem IsTidy.without (h : IsTidy root files d) (p : Place) : IsTidy root files (d.without p) := by
  refine ⟨fun q hq hfile => h.file q hq (Disk.isFile_of_without hfile), fun q hq hroot hdirectory => ?_,
    fun q hq => ?_⟩
  · have hne : q ≠ [] := fun hnil => hroot (by
      rw [hnil] at hq
      rw [hnil, List.prefix_nil.1 hq])
    exact h.directory q hq hroot (Disk.isDirectory_of_without hne hdirectory)
  · rw [Bool.eq_false_iff]
    intro hfile
    exact Bool.false_ne_true ((h.above q hq).symm.trans (Disk.isFile_of_without hfile))

/-! ### Operations on a directory -/

theorem root_performAll (s : DirectoryStore) (ops : List StoreOperation) :
    (performAll s ops).1.root = s.root := by
  induction ops generalizing s with
  | nil => rfl
  | cons op ops ih =>
    rw [performAll, ih]
    cases op <;> rfl

theorem IsTidy.run_trainChanges (h : IsTidy s.root files d) (hapart : StandApart s.root files)
    (train : Option (List TrainRecord)) (hcomplete : (d.run (s.trainChanges train)).2 = true) :
    IsTidy s.root files (d.run (s.trainChanges train)).1 := by
  cases train with
  | some records => exact h.run_replaceFile hapart (.inr (.inl rfl)) hcomplete
  | none =>
    rw [trainChanges] at hcomplete ⊢
    by_cases hold : (s.disk.entry? (trainPlace s.root)).isSome = true
    · rw [if_pos hold] at hcomplete ⊢
      cases hremove : d.applied? (.removeFile (trainPlace s.root)) with
      | none =>
        rw [Disk.run_cons_none hremove] at hcomplete
        cases hcomplete
      | some d' =>
        rw [Disk.run_cons_some hremove]
        rw [Disk.applied?, Disk.removeFile?, Option.ite_none_right_eq_some] at hremove
        exact Option.some.inj hremove.2 ▸ h.without _
    · rw [if_neg hold]
      exact h

theorem IsTidy.saveCorpus (h : IsTidy s.root files s.disk) (hapart : StandApart s.root files)
    (c : Corpus) (hcomplete : (DatasetStore.saveCorpus s c).2 = true) :
    IsTidy s.root files (DatasetStore.saveCorpus s c).1.disk := by
  change (s.disk.run (s.corpusChanges c)).2 = true at hcomplete
  change IsTidy s.root files (s.disk.run (s.corpusChanges c)).1
  rw [corpusChanges, Disk.run_append] at hcomplete ⊢
  by_cases hcorpus : (s.disk.run (replaceFile (corpusPlace s.root)
      (fileText (Record.listToJson c.instruct)))).2 = true
  · rw [if_pos hcorpus] at hcomplete ⊢
    exact (h.run_replaceFile hapart (.inl rfl) hcorpus).run_trainChanges hapart c.train hcomplete
  · rw [if_neg hcorpus] at hcomplete
    exact absurd hcomplete hcorpus

/-- A completed operation leaves the directory tidy. -/
theorem IsTidy.perform {op : StoreOperation} (h : IsTidy s.root files s.disk)
    (hapart : StandApart s.root files) (hop : op.IsWithin files)
    (hcomplete : (op.perform s).2 = true) : IsTidy s.root files (op.perform s).1.disk := by
  cases op with
  | save a =>
    change (DatasetStore.save s a).2 = true at hcomplete
    change IsTidy s.root files (DatasetStore.save s a).1.disk
    rw [save_eq_replaceAll] at hcomplete ⊢
    refine h.replaceAll hapart (fun w hw => ?_) (of_decide_eq_true hcomplete)
    obtain ⟨ending, hending, hplace⟩ := exists_ending_of_mem hw
    exact .inr (.inr ⟨a.file, (hop a rfl).1, ending, hending, hplace⟩)
  | saveCorpus c => exact h.saveCorpus hapart c hcomplete

theorem IsTidy.performAll (h : IsTidy s.root files s.disk) (hapart : StandApart s.root files)
    (hops : ∀ op ∈ ops, op.IsWithin files)
    (hcomplete : (StoreOperation.performAll s ops).2 = true) :
    IsTidy s.root files (StoreOperation.performAll s ops).1.disk := by
  induction ops generalizing s with
  | nil => exact h
  | cons op ops ih =>
    rw [List.forall_mem_cons] at hops
    rw [StoreOperation.performAll, Bool.and_eq_true] at hcomplete
    have hroot : (op.perform s).1.root = s.root := by cases op <;> rfl
    have hfirst := h.perform hapart hops.1 hcomplete.1
    rw [← hroot] at hfirst hapart ⊢
    exact ih hfirst hapart hops.2 hcomplete.2

/-- In a tidy directory, records that are not there are missing and not out of reach. -/
theorem IsTidy.load_eq_missing (h : IsTidy s.root files s.disk) (hapart : StandApart s.root files)
    (hfile : file ∈ files) (hnone : DatasetStore.holds s file = false) :
    DatasetStore.load s file = .error (.missing file) := by
  have htarget : IsTarget s.root files (recordsPlace s.root file) :=
    .inr (.inr ⟨file, hfile, _, by decide, rfl⟩)
  obtain ⟨names, hnames, hplace⟩ := hapart.exists_names htarget
  have hbelow : s.root <+: recordsPlace s.root file := ⟨names, hplace.symm⟩
  have hroot : recordsPlace s.root file ≠ s.root := fun heq =>
    hnames (List.append_right_eq_self.1 (hplace.symm.trans heq))
  change s.disk.isFile (recordsPlace s.root file) = false at hnone
  -- A directory in the place of the records would be on the way to another target.
  have hentry : s.disk.entry? (recordsPlace s.root file) = none := by
    rw [Disk.isFile] at hnone
    cases he : s.disk.entry? (recordsPlace s.root file) with
    | none => rfl
    | some e => cases e with
      | file content => rw [he] at hnone; cases hnone
      | directory =>
        have hdirectory : s.disk.isDirectory (recordsPlace s.root file) = true := by
          rw [Disk.isDirectory, he]
          rfl
        obtain ⟨p, hp, hprefix, hne⟩ := h.directory _ hbelow hroot hdirectory
        exact absurd (hapart.apart _ _ htarget hp hprefix) hne
  -- Nor is a file on the way there, above the root or below it.
  have hway : (recordsPlace s.root file).prefixes.any s.disk.isFile = false := by
    rw [List.any_eq_false]
    intro q hq hqfile
    obtain ⟨hne, hprefix⟩ := Place.mem_prefixes.1 hq
    rcases List.prefix_or_prefix_of_prefix hprefix hbelow with habove | hinside
    · rw [h.above q (Place.mem_prefixes.2 ⟨hne, habove⟩)] at hqfile
      cases hqfile
    · have hqtarget := h.file q hinside hqfile
      rw [hapart.apart _ _ hqtarget htarget hprefix, hnone] at hqfile
      cases hqfile
  have hread : s.disk.readText (recordsPlace s.root file) = .error .notFound := by
    rw [Disk.readText, hentry]
    simp only [hway, Bool.false_eq_true, if_false]
  change s.load file = _
  rw [load, hread]

theorem IsFresh.answers_eq (h : IsFresh root d) (hfile : Path.IsClean file) :
    answers (⟨root, d⟩ : DirectoryStore) file = ⟨false, none, none⟩ := by
  have hnone : ∀ ending ∈ endings, d.file? (placeOf root file ending) = none := by
    intro ending hending
    rw [placeOf_eq hfile (isEnding_of_mem hending), Disk.file?, h.below _
      (by simp [Text.splitChar_ne_nil])]
  have hrecords := hnone ".instruct.json" (by decide)
  have hfingerprint := hnone ".sha256" (by decide)
  simp [answers, holds_eq, load_toOption, fingerprint?_eq, Disk.readText_toOption, recordsPlace,
    fingerprintPlace, hrecords, hfingerprint]

theorem keepsLast (hfresh : IsFresh root d) (hapart : StandApart root files)
    (hops : ∀ op ∈ ops, op.IsWithin files)
    (hcomplete : (performAll (⟨root, d⟩ : DirectoryStore) ops).2 = true) :
    KeepsLast (⟨root, d⟩ : DirectoryStore) files ops := by
  refine keepsLast_of_replies fun before after hsplit file hfile => ?_
  have hbefore : ∀ op ∈ before, op.IsWithin files := fun op hop =>
    hops op (hsplit ▸ List.mem_append_left after hop)
  rw [hsplit, performAll_append, Bool.and_eq_true] at hcomplete
  have hanswers := answers_performAll hbefore hapart.clean hfile _ hcomplete.1
  rw [hfresh.answers_eq (hapart.clean file hfile)] at hanswers
  refine replies_eq_expected hanswers fun hnone => ?_
  rw [hnone] at hanswers
  have htidy := IsTidy.performAll (s := ⟨root, d⟩) hfresh.isTidy hapart hbefore hcomplete.1
  have hroot := root_performAll (⟨root, d⟩ : DirectoryStore) before
  exact IsTidy.load_eq_missing (hroot.symm ▸ htidy) (hroot.symm ▸ hapart) hfile
    (congrArg Answers.holds hanswers)

end DirectoryStore

/-- A store in an empty directory and an empty store in memory reply the same after operations that
were completed: what was saved last for a file, and that it is missing if nothing was. -/
theorem stores_agree {root : Place} {d : Disk} {files : Set String} {ops : List StoreOperation}
    (hfresh : DirectoryStore.IsFresh root d) (hapart : DirectoryStore.StandApart root files)
    (hops : ∀ op ∈ ops, op.IsWithin files)
    (hcomplete : (performAll (⟨root, d⟩ : DirectoryStore) ops).2 = true) :
    KeepsLast MemoryStore.empty files ops ∧ KeepsLast (⟨root, d⟩ : DirectoryStore) files ops ∧
      ∀ file ∈ files, Replies.of (performAll MemoryStore.empty ops).1 file =
        Replies.of (performAll (⟨root, d⟩ : DirectoryStore) ops).1 file := by
  have hmemory := MemoryStore.keepsLast hops
  have hdirectory := DirectoryStore.keepsLast hfresh hapart hops hcomplete
  refine ⟨hmemory, hdirectory, fun file hfile => ?_⟩
  rw [hmemory.replies file hfile, hdirectory.replies file hfile]

namespace DirectoryStore

/-- The places for finitely many files can be compared one by one. -/
theorem standApart_of_list {root : Place} {files : List String}
    (hclean : ∀ file ∈ files, Path.IsClean file)
    (hplaces : let places := corpusPlace root :: trainPlace root ::
        files.flatMap fun file => endings.map (placeOf root file)
      ∀ p ∈ places, ∀ q ∈ places, p <+: q → p = q) : StandApart root {file | file ∈ files} := by
  have hmem : ∀ p, IsTarget root {file | file ∈ files} p → p ∈ corpusPlace root ::
      trainPlace root :: files.flatMap fun file => endings.map (placeOf root file) := by
    rintro p (rfl | rfl | ⟨file, hfile, ending, hending, rfl⟩)
    · exact List.mem_cons_self
    · exact List.mem_cons_of_mem _ List.mem_cons_self
    · exact List.mem_cons_of_mem _ (List.mem_cons_of_mem _
        (List.mem_flatMap.2 ⟨file, hfile, List.mem_map_of_mem hending⟩))
  exact ⟨hclean, fun p q hp hq => hplaces p (hmem p hp) q (hmem q hq)⟩

theorem isFresh_empty (root : Place) : IsFresh root .empty := by
  have hnone : ∀ p : Place, p ≠ [] → Disk.entry? .empty p = none := fun p hp => if_neg hp
  refine ⟨fun names hnames => hnone _ (by simp [hnames]), fun p hp => ?_⟩
  rw [Disk.isFile, hnone p (Place.mem_prefixes.1 hp).1]

end DirectoryStore

/-- Two files are saved, one of them twice, with a corpus in between and one behind; a third is not. -/
theorem stores_agree_after_saves :
    let first : Artifact := ⟨"a.py", [⟨"What is \"ß\"?", "", "😀\n\x00"⟩], .null, Sha256.hex "x = 1\n"⟩
    let second : Artifact := ⟨"pkg/b.py", [], .null, Sha256.hex ""⟩
    let ops : List StoreOperation := [.save first, .saveCorpus ⟨[], some []⟩, .save second,
      .save { first with records := [] }, .saveCorpus ⟨first.records, none⟩]
    let files : Set String := {file | file ∈ ["a.py", "pkg/b.py", "pkg/c.py"]}
    DirectoryStore.IsFresh ["out"] .empty ∧ DirectoryStore.StandApart ["out"] files ∧
      (∀ op ∈ ops, op.IsWithin files) ∧
      (performAll (⟨["out"], .empty⟩ : DirectoryStore) ops).2 = true ∧
      KeepsLast MemoryStore.empty files ops ∧
      KeepsLast (⟨["out"], .empty⟩ : DirectoryStore) files ops := by
  intro first second ops files
  have hfresh := DirectoryStore.isFresh_empty ["out"]
  have hapart : DirectoryStore.StandApart ["out"] files :=
    DirectoryStore.standApart_of_list (by decide) (by decide +kernel)
  have hsave : ∀ a : Artifact, a.file ∈ ["a.py", "pkg/b.py", "pkg/c.py"] →
      (∃ source, a.fingerprint = Sha256.hex source) → (StoreOperation.save a).IsWithin files := by
    rintro a hfile hsource b hb
    exact Option.some.inj hb ▸ ⟨hfile, hsource⟩
  have hcorpus : ∀ c, (StoreOperation.saveCorpus c).IsWithin files := fun c a ha => nomatch ha
  have hops : ∀ op ∈ ops, op.IsWithin files := by
    simp only [ops, List.forall_mem_cons]
    exact ⟨hsave first (by decide) ⟨_, rfl⟩, hcorpus _, hsave second (by decide) ⟨_, rfl⟩,
      hsave _ (by decide) ⟨_, rfl⟩, hcorpus _, List.forall_mem_nil _⟩
  have hcomplete : (performAll (⟨["out"], .empty⟩ : DirectoryStore) ops).2 = true := by
    decide +kernel
  obtain ⟨hmemory, hdirectory, -⟩ := stores_agree hfresh hapart hops hcomplete
  exact ⟨hfresh, hapart, hops, hcomplete, hmemory, hdirectory⟩

end SourceCorpus
