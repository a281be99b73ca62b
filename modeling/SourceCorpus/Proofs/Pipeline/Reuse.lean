import Mathlib.Data.List.Nodup
import SourceCorpus.Pipeline.Files
import SourceCorpus.Proofs.Store.Answers

/-!
Runs that may use stored datasets again. What becomes of a file hangs on what the store answers about
it alone, and a run whose saves are all completed leaves a store that answers for each of its files
with what became of it.
-/

namespace SourceCorpus

open DatasetStore

namespace Answers

def reusable? (a : Answers) (v : Validity) (f : SourceFile) : Option (List Record) :=
  match v with
  | .existence => if a.holds then a.records? else none
  | .contentHash => if a.holds && a.fingerprint? == some f.fingerprint then a.records? else none

theorem reusable?_ofArtifact {a : Artifact} {f : SourceFile} (h : a.fingerprint = f.fingerprint)
    (v : Validity) : (ofArtifact a).reusable? v f = some a.records := by
  cases v <;> simp [reusable?, ofArtifact, h]

end Answers

theorem Inquiry.artifact_ok {i : Inquiry} {f : SourceFile} {t t' : Tally} {a : Artifact}
    (h : i.artifact f t = (.ok a, t')) : a.file = f.id ∧ a.fingerprint = f.fingerprint := by
  unfold Inquiry.artifact at h
  split at h
  · cases h
  · cases h
    exact ⟨rfl, rfl⟩

theorem Inquiry.artifact_error_iff {i : Inquiry} {f : SourceFile} {t t' : Tally} {e : ParseError} :
    i.artifact f t = (.error e, t') ↔ Extraction.extract f.id f.source = .error e ∧ t' = t := by
  unfold Inquiry.artifact
  split
  · next h => simp [h, eq_comm]
  · next h => simp [h]

namespace Pipeline

variable {σ : Type} [DatasetStore σ]

theorem stored?_eq (p : Pipeline) (s : σ) (f : SourceFile) :
    p.stored? s f = if p.reuse then (answers s f.id).reusable? p.validity f else none := by
  unfold stored? Validity.admits Answers.reusable? answers
  cases p.reuse <;> cases p.validity <;> simp

/-- A file whose stored records may be used again. -/
theorem processFile_of_stored {p : Pipeline} {s : σ × Tally} {f : SourceFile}
    {records : List Record} (h : p.stored? s.1 f = some records) :
    p.processFile s f = (⟨f.id, .reused, records⟩, s) := by
  simp [processFile, outcome, h, keep]

/-- A file that has a syntax error. -/
theorem processFile_of_error {p : Pipeline} {s : σ × Tally} {f : SourceFile} {e : ParseError}
    (hs : p.stored? s.1 f = none) (he : Extraction.extract f.id f.source = .error e) :
    p.processFile s f = (⟨f.id, .skipped e, []⟩, s) := by
  have hartifact : p.inquiry.artifact f s.2 = (.error e, s.2) :=
    Inquiry.artifact_error_iff.2 ⟨he, rfl⟩
  simp [processFile, outcome, hs, hartifact, keep]

/-- A file that is questioned. -/
theorem processFile_of_artifact {p : Pipeline} {s : σ × Tally} {f : SourceFile} {a : Artifact}
    {t : Tally} (hs : p.stored? s.1 f = none) (ha : p.inquiry.artifact f s.2 = (.ok a, t)) :
    p.processFile s f = (⟨f.id, .generated, a.records⟩, (save s.1 a).1, t) := by
  simp [processFile, outcome, hs, ha, keep]

/-- What can become of a file. -/
inductive Processed (p : Pipeline) (s : σ × Tally) (f : SourceFile) :
    FileOutcome → σ × Tally → Prop where
  | reused {records : List Record} (hs : p.stored? s.1 f = some records) :
      Processed p s f ⟨f.id, .reused, records⟩ s
  | skipped {e : ParseError} (hs : p.stored? s.1 f = none)
      (he : Extraction.extract f.id f.source = .error e) :
      Processed p s f ⟨f.id, .skipped e, []⟩ s
  | generated {a : Artifact} {t : Tally} (hs : p.stored? s.1 f = none)
      (ha : p.inquiry.artifact f s.2 = (.ok a, t)) :
      Processed p s f ⟨f.id, .generated, a.records⟩ ((save s.1 a).1, t)

theorem processed (p : Pipeline) (s : σ × Tally) (f : SourceFile) :
    Processed p s f (p.processFile s f).1 (p.processFile s f).2 := by
  cases hs : p.stored? s.1 f with
  | some records => rw [processFile_of_stored hs]; exact .reused hs
  | none =>
    rcases ha : p.inquiry.artifact f s.2 with ⟨e | a, t⟩
    · have he := (Inquiry.artifact_error_iff.1 ha).1
      rw [processFile_of_error hs he]
      exact .skipped hs he
    · rw [processFile_of_artifact hs ha]
      exact .generated hs ha

def SavesAll (p : Pipeline) (s : σ × Tally) : List SourceFile → Prop
  | [] => True
  | f :: files =>
    (∀ a, (p.outcome s.1 f s.2).1.2 = some a → (save s.1 a).2 = true) ∧
      SavesAll p (p.processFile s f).2 files

theorem processFiles_cons (p : Pipeline) (s : σ × Tally) (f : SourceFile)
    (files : List SourceFile) :
    p.processFiles s (f :: files) =
      ((p.processFile s f).1 :: (p.processFiles (p.processFile s f).2 files).1,
        (p.processFiles (p.processFile s f).2 files).2) := rfl

theorem run_ok {p : Pipeline} {s s' : σ × Tally} {files : List SourceFile} {r : Report}
    (h : p.run s files = (.ok r, s')) :
    r.corpus = p.corpusOf (p.processFiles s files).1 ∧
      s' = ((saveCorpus (p.processFiles s files).2.1 r.corpus).1,
        (p.processFiles s files).2.2) := by
  let report := p.reportOf (p.processFiles s files).1
    ((p.processFiles s files).2.2.failures - s.2.failures)
  have hrun : p.run s files =
      (if (saveCorpus (p.processFiles s files).2.1 report.corpus).2 then .ok report
        else .error .io,
        (saveCorpus (p.processFiles s files).2.1 report.corpus).1,
        (p.processFiles s files).2.2) := rfl
  rw [hrun, Prod.mk.injEq] at h
  obtain ⟨hreport, hstore⟩ := h
  split at hreport
  · obtain rfl : report = r := Except.ok.inj hreport
    exact ⟨rfl, hstore.symm⟩
  · cases hreport

/-! ### What a run leaves in the store -/

variable [FaithfulStore σ]

open FaithfulStore

theorem Processed.answers_of_ne {p : Pipeline} {s s' : σ × Tally} {f : SourceFile}
    {o : FileOutcome} (h : Processed p s f o s') {name : String} (hf : IsName σ f.id)
    (hname : IsName σ name) (hne : f.id ≠ name) : answers s'.1 name = answers s.1 name := by
  cases h with
  | reused => rfl
  | skipped => rfl
  | generated _ ha =>
    rw [← (Inquiry.artifact_ok ha).1] at hf hne
    exact answers_save_of_ne s.1 hf hname hne

/-- A run leaves the answers about other files as they are. -/
theorem answers_processFiles (p : Pipeline) (s : σ × Tally) {files : List SourceFile}
    {name : String} (hfiles : ∀ f ∈ files, IsName σ f.id) (hname : IsName σ name)
    (hother : ∀ f ∈ files, f.id ≠ name) :
    answers (p.processFiles s files).2.1 name = answers s.1 name := by
  induction files generalizing s with
  | nil => rfl
  | cons f files ih =>
    rw [List.forall_mem_cons] at hfiles hother
    rw [processFiles_cons, ih _ hfiles.2 hother.2]
    exact (p.processed s f).answers_of_ne hfiles.1 hname hother.1

/-- A file that was questioned is answered for by its artifact, if that was stored. -/
theorem SavesAll.answers_of_artifact {p : Pipeline} {s : σ × Tally} {f : SourceFile}
    {files : List SourceFile} (h : p.SavesAll s (f :: files)) (hf : IsName σ f.id)
    (hs : p.stored? s.1 f = none) {a : Artifact} {t : Tally}
    (ha : p.inquiry.artifact f s.2 = (.ok a, t)) :
    answers (save s.1 a).1 f.id = .ofArtifact a := by
  obtain ⟨hfile, hfingerprint⟩ := Inquiry.artifact_ok ha
  have hsaved : (save s.1 a).2 = true := h.1 a (by simp [outcome, hs, ha])
  have htrim : Text.trim a.fingerprint = a.fingerprint := by
    rw [hfingerprint]
    exact Sha256.trim_hex _
  rw [← hfile] at hf ⊢
  exact answers_save s.1 hf htrim hsaved

end Pipeline

/-- What is given to memory is always kept. -/
theorem MemoryStore.savesAll (p : Pipeline) (s : MemoryStore × Tally) (files : List SourceFile) :
    p.SavesAll s files := by
  induction files generalizing s with
  | nil => trivial
  | cons f files ih => exact ⟨fun _ _ => rfl, ih _⟩

/-- A run that keeps its datasets in memory cannot fail. -/
theorem MemoryStore.run_eq (p : Pipeline) (s : MemoryStore × Tally) (files : List SourceFile) :
    p.run s files = (.ok (p.reportOf (p.processFiles s files).1
      ((p.processFiles s files).2.2.failures - s.2.failures)), (p.run s files).2) := rfl

end SourceCorpus
