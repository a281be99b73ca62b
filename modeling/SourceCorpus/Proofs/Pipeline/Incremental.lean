import SourceCorpus.Proofs.Pipeline.Reuse
import SourceCorpus.Proofs.Store.Interruption

/-!
Runs without a generator. Whatever runs came before, every dataset in the store is the one that would
be made of one of the sources seen so far. So a run that uses datasets again, if only they have the
fingerprint of the source at hand, makes the same corpus as one that makes all of them anew.
-/

namespace SourceCorpus

open DatasetStore FaithfulStore

/-! ### Questions without a generator -/

def Analysis.collect (a : Analysis) (s : Assembler) (asked : Question × ObjectId) : Assembler :=
  s.add (a.instruction asked.1 asked.2) (a.input asked.2) (a.answer asked.1 asked.2)
    asked.1.feedsPrompts

namespace Inquiry

variable {i : Inquiry}

theorem ask_of_none (h : i.augmenter? = none) (a : Analysis) (s : Assembler × Tally)
    (asked : Question × ObjectId) : i.ask a s asked = (a.collect s.1 asked, s.2) := by
  rw [ask, answer, h]
  rfl

theorem foldl_ask_of_none (h : i.augmenter? = none) (a : Analysis) (s : Assembler × Tally)
    (asked : List (Question × ObjectId)) :
    asked.foldl (i.ask a) s = (asked.foldl a.collect s.1, s.2) := by
  induction asked generalizing s with
  | nil => rfl
  | cons x asked ih => rw [List.foldl_cons, List.foldl_cons, ih, ask_of_none h]

end Inquiry

def QuestionBank.artifact (b : QuestionBank) (f : SourceFile) : Except ParseError Artifact :=
  ((⟨b, none, false⟩ : Inquiry).artifact f .zero).1

def QuestionBank.records (b : QuestionBank) (f : SourceFile) : List Record :=
  ((b.artifact f).toOption.map (·.records)).getD []

theorem Inquiry.artifact_of_none {i : Inquiry} (h : i.augmenter? = none) (f : SourceFile)
    (t : Tally) : i.artifact f t = (i.bank.artifact f, t) := by
  unfold QuestionBank.artifact Inquiry.artifact
  cases Extraction.extract f.id f.source with
  | error e => rfl
  | ok m =>
    simp only [artifactOf, records, foldl_ask_of_none h,
      foldl_ask_of_none (i := ⟨i.bank, none, false⟩) rfl]
    rfl

namespace QuestionBank

variable {b : QuestionBank} {f : SourceFile}

theorem records_of_ok {a : Artifact} (h : b.artifact f = .ok a) : b.records f = a.records := by
  rw [records, h]
  rfl

theorem records_of_error {e : ParseError} (h : Extraction.extract f.id f.source = .error e) :
    b.records f = [] := by
  have hartifact : b.artifact f = .error e :=
    congrArg Prod.fst (Inquiry.artifact_error_iff.2 ⟨h, rfl⟩)
  rw [records, hartifact]
  rfl

theorem fingerprint_of_ok {a : Artifact} (h : b.artifact f = .ok a) :
    a.fingerprint = f.fingerprint := by
  have hartifact : (⟨b, none, false⟩ : Inquiry).artifact f .zero = (.ok a, .zero) := by
    rw [Inquiry.artifact_of_none rfl, h]
  exact (Inquiry.artifact_ok hartifact).2

end QuestionBank

namespace Pipeline

variable {σ : Type} [DatasetStore σ]

theorem Processed.records_eq {p : Pipeline} (hplain : p.inquiry.augmenter? = none)
    {s s' : σ × Tally} {f : SourceFile} {o : FileOutcome} (h : Processed p s f o s')
    (hfresh : ∀ records, p.stored? s.1 f = some records → records = p.inquiry.bank.records f) :
    o.records = p.inquiry.bank.records f := by
  cases h with
  | reused hs => exact hfresh _ hs
  | skipped _ he => exact (QuestionBank.records_of_error he).symm
  | generated _ ha =>
    rw [Inquiry.artifact_of_none hplain] at ha
    exact (QuestionBank.records_of_ok (congrArg Prod.fst ha)).symm

variable [FaithfulStore σ]

/-! ### Where datasets come from -/

def HoldsNothing (s : σ) : Prop := ∀ name, IsName σ name → holds s name = false

/-- Every dataset in the store is what would be kept of one of the sources. -/
def IsMadeFrom (bank : QuestionBank) (sources : List SourceFile) (s : σ) : Prop :=
  ∀ name, IsName σ name → holds s name = true →
    ∃ f ∈ sources, f.id = name ∧ ∃ a, bank.artifact f = .ok a ∧ answers s name = .ofArtifact a

theorem HoldsNothing.isMadeFrom {s : σ} (h : HoldsNothing s) (bank : QuestionBank) :
    IsMadeFrom bank [] s := by
  intro name hname hholds
  rw [h name hname] at hholds
  cases hholds

variable {bank : QuestionBank} {sources : List SourceFile}

theorem IsMadeFrom.mono {s : σ} (h : IsMadeFrom bank sources s) {more : List SourceFile}
    (hmore : ∀ f ∈ sources, f ∈ more) : IsMadeFrom bank more s := by
  intro name hname hholds
  obtain ⟨f, hf, hrest⟩ := h name hname hholds
  exact ⟨f, hmore f hf, hrest⟩

theorem IsMadeFrom.of_answers {s s' : σ} (h : IsMadeFrom bank sources s)
    (hanswers : ∀ name, IsName σ name → answers s' name = answers s name) :
    IsMadeFrom bank sources s' := by
  intro name hname hholds
  rw [hanswers name hname]
  have hsame : holds s' name = holds s name := congrArg Answers.holds (hanswers name hname)
  exact h name hname (hsame.symm.trans hholds)

theorem Processed.isMadeFrom {p : Pipeline} (hplain : p.inquiry.augmenter? = none)
    {s s' : σ × Tally} {f : SourceFile} {files : List SourceFile} {o : FileOutcome}
    (h : Processed p s f o s') (hmade : IsMadeFrom p.inquiry.bank sources s.1)
    (hf : IsName σ f.id) (hsaves : p.SavesAll s (f :: files)) :
    IsMadeFrom p.inquiry.bank (sources ++ [f]) s'.1 := by
  have hmore : IsMadeFrom p.inquiry.bank (sources ++ [f]) s.1 := hmade.mono (by simp_all)
  cases h with
  | reused => exact hmore
  | skipped => exact hmore
  | @generated a t hs ha =>
    intro name hname hholds
    by_cases hid : f.id = name
    · subst hid
      have hartifact : p.inquiry.bank.artifact f = .ok a := by
        rw [Inquiry.artifact_of_none hplain] at ha
        exact congrArg Prod.fst ha
      exact ⟨f, by simp, rfl, a, hartifact, hsaves.answers_of_artifact hf hs ha⟩
    -- The answers about all other files are as before.
    · have hanswers := (Processed.generated hs ha).answers_of_ne hf hname hid
      have hsame := congrArg Answers.holds hanswers
      rw [hanswers]
      exact hmore name hname (hsame.symm.trans hholds)

theorem isMadeFrom_processFiles {p : Pipeline} (hplain : p.inquiry.augmenter? = none)
    {s : σ × Tally} {files : List SourceFile} (hmade : IsMadeFrom p.inquiry.bank sources s.1)
    (hnames : ∀ f ∈ files, IsName σ f.id) (hsaves : p.SavesAll s files) :
    IsMadeFrom p.inquiry.bank (sources ++ files) (p.processFiles s files).2.1 := by
  induction files generalizing s sources with
  | nil =>
    rw [List.append_nil]
    exact hmade
  | cons f files ih =>
    rw [List.forall_mem_cons] at hnames
    rw [processFiles_cons, List.append_cons]
    exact ih ((p.processed s f).isMadeFrom hplain hmade hnames.1 hsaves) hnames.2 hsaves.2

/-- The stores that completed runs without a generator can leave behind, with the files that these
runs were about. -/
inductive History (bank : QuestionBank) (start : σ) : List SourceFile → σ → Prop where
  | start : History bank start [] start
  | run {sources files : List SourceFile} {s : σ} {s' : σ × Tally} {t : Tally} {r : Report}
      (h : History bank start sources s) {p : Pipeline} (hbank : p.inquiry.bank = bank)
      (hplain : p.inquiry.augmenter? = none) (hnames : ∀ f ∈ files, IsName σ f.id)
      (hids : (files.map (·.id)).Nodup) (hsaves : p.SavesAll (s, t) files)
      (hrun : p.run (s, t) files = (.ok r, s')) : History bank start (sources ++ files) s'.1

theorem History.isMadeFrom {start s : σ} (h : History bank start sources s)
    (hstart : HoldsNothing start) : IsMadeFrom bank sources s := by
  induction h with
  | start => exact hstart.isMadeFrom bank
  | run _ hbank hplain hnames _ hsaves hrun ih =>
    subst hbank
    obtain ⟨-, rfl⟩ := run_ok hrun
    exact (isMadeFrom_processFiles hplain ih hnames hsaves).of_answers fun name hname =>
      answers_saveCorpus _ _ hname

/-! ### What comes of a run -/

/-- If what may be used again is fresh, every file comes out with the records that would be made of
it. -/
theorem records_processFiles {p : Pipeline} (hplain : p.inquiry.augmenter? = none)
    {s : σ × Tally} {files : List SourceFile} (hnames : ∀ f ∈ files, IsName σ f.id)
    (hids : (files.map (·.id)).Nodup)
    (hfresh : ∀ f ∈ files, ∀ records, p.stored? s.1 f = some records →
      records = p.inquiry.bank.records f) :
    (p.processFiles s files).1.map (·.records) = files.map p.inquiry.bank.records := by
  induction files generalizing s with
  | nil => rfl
  | cons f files ih =>
    rw [List.forall_mem_cons] at hnames hfresh
    rw [List.map_cons, List.nodup_cons] at hids
    have h := p.processed s f
    rw [processFiles_cons, List.map_cons, List.map_cons, h.records_eq hplain hfresh.1]
    congr 1
    apply ih hnames.2 hids.2
    intro g hg records hstored
    have hne : f.id ≠ g.id := fun heq => hids.1 (heq ▸ List.mem_map_of_mem hg)
    -- What is stored for a later file was there before this one was processed.
    apply hfresh.2 g hg
    rw [stored?_eq] at hstored ⊢
    rwa [h.answers_of_ne hnames.1 (hnames.2 g hg) hne] at hstored

/-- A dataset with the fingerprint of a file is the one that would be made of it, if fingerprints
tell its sources apart. -/
theorem IsMadeFrom.eq_records {s : σ} (h : IsMadeFrom bank sources s) {f : SourceFile}
    (hf : IsName σ f.id)
    (hinj : ∀ g ∈ sources, g.fingerprint = f.fingerprint → g.source = f.source)
    {records : List Record} (hr : (answers s f.id).reusable? .contentHash f = some records) :
    records = bank.records f := by
  have hcases : (answers s f.id).holds = true ∧
      (answers s f.id).fingerprint? = some f.fingerprint ∧
        (answers s f.id).records? = some records := by
    simpa [Answers.reusable?, and_assoc] using hr
  obtain ⟨hholds, hfingerprint, hrecords⟩ := hcases
  obtain ⟨g, hg, hid, a, ha, hanswers⟩ := h f.id hf hholds
  rw [hanswers] at hfingerprint hrecords
  have hsame : g.fingerprint = f.fingerprint := by
    rw [← QuestionBank.fingerprint_of_ok ha]
    exact Option.some.inj hfingerprint
  -- With the identifier and the fingerprint the whole file is the same.
  obtain rfl : g = f := by
    cases g
    cases f
    exact congrArg₂ SourceFile.mk hid (hinj _ hg hsame)
  rw [QuestionBank.records_of_ok ha]
  exact (Option.some.inj hrecords).symm

/-- A run that uses datasets with the right fingerprint again makes the corpus of a run that makes
them all anew. -/
theorem incremental_corpus_eq {start s : σ} (hstart : HoldsNothing start)
    (h : History bank start sources s) {p : Pipeline} (hbank : p.inquiry.bank = bank)
    (hplain : p.inquiry.augmenter? = none) (hvalidity : p.validity = .contentHash)
    {files : List SourceFile} (hnames : ∀ f ∈ files, IsName σ f.id)
    (hids : (files.map (·.id)).Nodup)
    (hinj : ∀ g ∈ sources, ∀ f ∈ files, g.fingerprint = f.fingerprint → g.source = f.source)
    {t t' : Tally} {r r' : Report} {s' s'' : σ × Tally}
    (hrun : { p with reuse := true }.run (s, t) files = (.ok r, s'))
    (hrebuild : { p with reuse := false }.run (s, t') files = (.ok r', s'')) :
    r.corpus = r'.corpus := by
  subst hbank
  have hmade := h.isMadeFrom hstart
  have hreused := records_processFiles (p := { p with reuse := true }) hplain (s := (s, t)) hnames
    hids fun f hf records hstored => by
      rw [stored?_eq, if_pos rfl, hvalidity] at hstored
      exact hmade.eq_records (hnames f hf) (fun g hg => hinj g hg f hf) hstored
  have hrebuilt := records_processFiles (p := { p with reuse := false }) hplain (s := (s, t'))
    hnames hids fun f hf records hstored => by
      rw [stored?_eq, if_neg (by simp)] at hstored
      cases hstored
  rw [(run_ok hrun).1, (run_ok hrebuild).1, corpusOf, corpusOf, hreused, hrebuilt]

theorem holdsNothing_memory : HoldsNothing MemoryStore.empty := fun _ _ => rfl

theorem holdsNothing_directory {root : Place} {d : Disk}
    (h : DirectoryStore.IsEmptyDirectory root d) : HoldsNothing (⟨root, d⟩ : DirectoryStore) := by
  intro name hname
  rw [DirectoryStore.holds_eq, DirectoryStore.recordsPlace,
    DirectoryStore.placeOf_eq hname (by decide), h]
  rfl

/-! ### A source that has changed -/

def variablesBank : QuestionBank :=
  ⟨[⟨"file_variables", "Which variables does {filename} define?", .file, .list, false⟩]⟩

def variablesPipeline (validity : Validity) : Pipeline := ⟨⟨variablesBank, none, false⟩, validity, true⟩

def firstFiles : List SourceFile := [⟨"a.py", "x = 1\n"⟩]

/-- Later on, one file is another one and one has a syntax error. -/
def laterFiles : List SourceFile := [⟨"a.py", "y = 1\n"⟩, ⟨"b.py", "def\n"⟩]

def firstStore : MemoryStore := ((variablesPipeline .existence).run (.empty, .zero) firstFiles).2.1

/-- A run that only looks whether there is a dataset leaves the old one in the store. -/
def laterStore : MemoryStore :=
  ((variablesPipeline .existence).run (firstStore, .zero) laterFiles).2.1

theorem history_laterStore :
    History variablesBank .empty (([] ++ firstFiles) ++ laterFiles) laterStore := by
  have hfirst : History variablesBank .empty ([] ++ firstFiles) firstStore :=
    History.start.run rfl rfl (fun _ _ => trivial) (by decide) (MemoryStore.savesAll _ _ _)
      (MemoryStore.run_eq (variablesPipeline .existence) (.empty, .zero) firstFiles)
  exact hfirst.run rfl rfl (fun _ _ => trivial) (by decide) (MemoryStore.savesAll _ _ _)
    (MemoryStore.run_eq (variablesPipeline .existence) (firstStore, .zero) laterFiles)

/-- The next run that compares fingerprints makes a new dataset, as a run from nothing does. -/
theorem incremental_corpus_eq_of_change :
    ∃ r r' : Report, ∃ s' s'' : MemoryStore × Tally,
      laterStore.saves = 1 ∧
      { variablesPipeline .contentHash with reuse := true }.run (laterStore, .zero) laterFiles =
        (.ok r, s') ∧
      { variablesPipeline .contentHash with reuse := false }.run (laterStore, .zero) laterFiles =
        (.ok r', s'') ∧
      r.corpus = r'.corpus ∧
      r'.corpus.instruct = [⟨"Which variables does a.py define?", "", "y"⟩] := by
  have hrun := MemoryStore.run_eq { variablesPipeline .contentHash with reuse := true }
    (laterStore, .zero) laterFiles
  have hrebuild := MemoryStore.run_eq { variablesPipeline .contentHash with reuse := false }
    (laterStore, .zero) laterFiles
  refine ⟨_, _, _, _, ?_, hrun, hrebuild, ?_, ?_⟩
  · decide +kernel
  · exact incremental_corpus_eq holdsNothing_memory history_laterStore
      (p := variablesPipeline .contentHash) rfl rfl rfl (fun _ _ => trivial) (by decide)
      (by decide +kernel) hrun hrebuild
  · decide +kernel

end Pipeline

end SourceCorpus
