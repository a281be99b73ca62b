import Mathlib.Data.List.Forall2
import SourceCorpus.Proofs.Pipeline.Reuse

/-!
Two runs one after the other on the same files, both of which may use stored datasets again. The first
leaves every file settled: the store answers for it in such a way that the second run has nothing to
do but to use what is stored, or to find the syntax error once more.
-/

namespace SourceCorpus

open DatasetStore FaithfulStore

/-- What becomes of the file when the run is repeated. -/
def FileOutcome.again (o : FileOutcome) : FileOutcome :=
  { o with status := if o.isSkipped then o.status else .reused }

/-- The store's answers about a file leave it no other outcome, and nothing to store. -/
inductive Answers.Settled (a : Answers) (v : Validity) (f : SourceFile) : FileOutcome → Prop where
  | reused {records : List Record} (h : a.reusable? v f = some records) :
      Settled a v f ⟨f.id, .reused, records⟩
  | skipped {e : ParseError} (h : a.reusable? v f = none)
      (he : Extraction.extract f.id f.source = .error e) : Settled a v f ⟨f.id, .skipped e, []⟩

namespace Pipeline

variable {σ : Type} [DatasetStore σ]

theorem processFile_of_settled {p : Pipeline} (hreuse : p.reuse = true) {s : σ × Tally}
    {f : SourceFile} {o : FileOutcome} (h : (answers s.1 f.id).Settled p.validity f o) :
    p.processFile s f = (o, s) := by
  have hstored : p.stored? s.1 f = (answers s.1 f.id).reusable? p.validity f := by
    rw [stored?_eq, if_pos hreuse]
  cases h with
  | reused h => exact processFile_of_stored (hstored.trans h)
  | skipped h he => exact processFile_of_error (hstored.trans h) he

/-- A run on settled files leaves the store and the tally alone. -/
theorem processFiles_of_settled {p : Pipeline} (hreuse : p.reuse = true) {s : σ × Tally}
    {files : List SourceFile} {outcomes : List FileOutcome}
    (h : List.Forall₂ (fun f o => (answers s.1 f.id).Settled p.validity f o) files outcomes) :
    p.processFiles s files = (outcomes, s) := by
  induction h with
  | nil => rfl
  | cons h _ ih => rw [processFiles_cons, processFile_of_settled hreuse h, ih]

variable [FaithfulStore σ]

/-- A file is settled once it is processed. -/
theorem Processed.settled {p : Pipeline} (hreuse : p.reuse = true) {s s' : σ × Tally}
    {f : SourceFile} {o : FileOutcome} (h : Processed p s f o s') {files : List SourceFile}
    (hf : IsName σ f.id) (hsaves : p.SavesAll s (f :: files)) :
    (answers s'.1 f.id).Settled p.validity f o.again := by
  have hstored : p.stored? s.1 f = (answers s.1 f.id).reusable? p.validity f := by
    rw [stored?_eq, if_pos hreuse]
  cases h with
  | reused hs => exact .reused (hstored.symm.trans hs)
  | skipped hs he => exact .skipped (hstored.symm.trans hs) he
  | generated hs ha =>
    apply Answers.Settled.reused
    rw [hsaves.answers_of_artifact hf hs ha]
    exact Answers.reusable?_ofArtifact (Inquiry.artifact_ok ha).2 p.validity

/-- All files are settled once they are processed: what comes later leaves the answers about a file
alone. -/
theorem settled_processFiles {p : Pipeline} (hreuse : p.reuse = true) {s : σ × Tally}
    {files : List SourceFile} (hnames : ∀ f ∈ files, IsName σ f.id)
    (hids : (files.map (·.id)).Nodup) (hsaves : p.SavesAll s files) :
    List.Forall₂ (fun f o => (answers (p.processFiles s files).2.1 f.id).Settled p.validity f o)
      files ((p.processFiles s files).1.map FileOutcome.again) := by
  induction files generalizing s with
  | nil => exact .nil
  | cons f files ih =>
    rw [List.forall_mem_cons] at hnames
    rw [List.map_cons, List.nodup_cons] at hids
    have hother : ∀ g ∈ files, g.id ≠ f.id := fun g hg heq => hids.1 (heq ▸ List.mem_map_of_mem hg)
    rw [processFiles_cons, List.map_cons]
    -- The later files have other identifiers, so they do not unsettle the first one.
    refine .cons ?_ (ih hnames.2 hids.2 hsaves.2)
    rw [answers_processFiles p _ hnames.2 hnames.1 hother]
    exact (p.processed s f).settled hreuse hnames.1 hsaves

theorem corpusOf_again {p q : Pipeline}
    (h : p.inquiry.augmenter?.isSome = q.inquiry.augmenter?.isSome) (outcomes : List FileOutcome) :
    q.corpusOf (outcomes.map FileOutcome.again) = p.corpusOf outcomes := by
  rw [corpusOf, corpusOf, List.map_map, h]
  rfl

/-- A repeated run makes the same corpus, out of what is stored: whatever the first run made of a
file, the second takes from the store, and it skips the same files. The generator may answer
otherwise the second time, for it is not asked. -/
theorem rerun_stable {p q : Pipeline} (hp : p.reuse = true) (hq : q.reuse = true)
    (hvalidity : q.validity = p.validity)
    (haugmenter : p.inquiry.augmenter?.isSome = q.inquiry.augmenter?.isSome)
    {files : List SourceFile} (hnames : ∀ f ∈ files, IsName σ f.id)
    (hids : (files.map (·.id)).Nodup) {s s' s'' : σ × Tally} {t : Tally} {r r' : Report}
    (hsaves : p.SavesAll s files) (hrun : p.run s files = (.ok r, s'))
    (hrerun : q.run (s'.1, t) files = (.ok r', s'')) :
    r'.corpus = r.corpus ∧
      (q.processFiles (s'.1, t) files).1 =
        (p.processFiles s files).1.map FileOutcome.again := by
  obtain ⟨hcorpus, rfl⟩ := run_ok hrun
  have hsettled : List.Forall₂ (fun f o =>
      (answers (saveCorpus (p.processFiles s files).2.1 r.corpus).1 f.id).Settled q.validity f o)
      files ((p.processFiles s files).1.map FileOutcome.again) := by
    have hfiles := settled_processFiles hp hnames hids hsaves
    refine ((List.forall₂_and_left files _).2 ⟨hnames, hfiles⟩).imp fun f o h => ?_
    rw [answers_saveCorpus _ _ h.1, hvalidity]
    exact h.2
  have hagain := processFiles_of_settled hq (s := (_, t)) hsettled
  refine ⟨?_, by rw [hagain]⟩
  rw [(run_ok hrerun).1, hagain, corpusOf_again haugmenter, hcorpus]

def answering (text : String) : Pipeline :=
  { inquiry :=
      { bank := ⟨[⟨"file_purpose", "What is the purpose of {filename}?", .file, .purpose, true⟩]⟩
        augmenter? := some ⟨⟨"{query}", 1000, 1000, true⟩, fun _ _ => ⟨.text text, 0⟩⟩
        detailed := false }
    validity := .existence
    reuse := true }

def corruptStore : MemoryStore :=
  (MemoryStore.empty.save ⟨"a.py", [], .null, Sha256.hex "x = 1\n"⟩).corrupt "a.py"

def twoFiles : List SourceFile := [⟨"a.py", "x = 1\n"⟩, ⟨"b.py", "def\n"⟩]

/-- The first answer is kept, though the generator has another one by then. -/
theorem rerun_keeps_first_answer :
    ∃ r r' : Report, ∃ s' s'' : MemoryStore × Tally,
      (answering "It sets x.").run (corruptStore, .zero) twoFiles = (.ok r, s') ∧
      (answering "It sets y.").run (s'.1, .zero) twoFiles = (.ok r', s'') ∧
      r.corpus.instruct = [⟨"What is the purpose of a.py?", "", "It sets x."⟩] ∧
      r'.corpus = r.corpus ∧
      ((answering "It sets y.").processFiles (s'.1, .zero) twoFiles).1.map (·.isReused) =
        [true, false] := by
  have hrun := MemoryStore.run_eq (answering "It sets x.") (corruptStore, .zero) twoFiles
  have hrerun := MemoryStore.run_eq (answering "It sets y.")
    (((answering "It sets x.").run (corruptStore, .zero) twoFiles).2.1, .zero) twoFiles
  have hstable := rerun_stable (p := answering "It sets x.") (q := answering "It sets y.") rfl rfl
    rfl rfl (fun _ _ => trivial) (by decide) (MemoryStore.savesAll _ _ _) hrun hrerun
  refine ⟨_, _, _, _, hrun, hrerun, ?_, hstable.1, ?_⟩
  · decide +kernel
  · rw [hstable.2]
    decide +kernel

end Pipeline

end SourceCorpus
