import Mathlib.Algebra.Ring.Nat
import SourceCorpus.Proofs.Pipeline.Tallies
import SourceCorpus.Proofs.Store.Exchange

/-!
Files that are independent of each other. Main statements: without a generator, or with one that goes
by its context, what becomes of a file is settled by the file and by what the store answers about it,
and the records of a file that is questioned are its answers in order.
-/

namespace SourceCorpus

open DatasetStore FaithfulStore

/-- What is settled about a file before anything is done with it. -/
structure Settlement where
  outcome : FileOutcome
  /-- What is to be stored of the file. -/
  artifact? : Option Artifact
  /-- How many requests to the generator fail. -/
  failures : Nat

/-! ### Answers in order -/

namespace Inquiry

/-- The questions of the bank in order, each with the objects of its scope in the order of the file. -/
def askedOf (i : Inquiry) (m : CodeModel) : List (Question × ObjectId) :=
  i.bank.questions.flatMap fun q =>
    ((List.range m.size).filter fun id => (m.kindOf? id).any q.scope.covers).map fun id => (q, id)

/-- The answers to the questions, each given the records before it that are quoted. -/
def answersTo (i : Inquiry) (a : Analysis) : Assembler → List (Question × ObjectId) → List Answer
  | _, [] => []
  | s, x :: asked =>
    let answer := (i.answer a x.1 x.2 (codeQa s.quotedRecords) .zero).1
    answer :: i.answersTo a
      (s.add (a.instruction x.1 x.2) (a.input x.2) answer x.1.feedsPrompts) asked

/-- The records of a file that is questioned: its answers in order, those that are applicable and not
blank. A file with a syntax error has none. -/
def answeredRecords (i : Inquiry) (f : SourceFile) : List Record :=
  match Extraction.extract f.id f.source with
  | .error _ => []
  | .ok m =>
    let a := Analysis.ofModel m
    ((i.askedOf m).zip (i.answersTo a .empty (i.askedOf m))).filterMap fun x =>
      Record.ofAnswer? (a.instruction x.1.1 x.1.2) (a.input x.1.2) x.2

theorem targets_eq (m : CodeModel) (scope : Scope) : (Analysis.ofModel m).targets scope =
    (List.range m.size).filter fun id => (m.kindOf? id).any scope.covers := by
  have hrange : List.range m.size = m.objects.toList.zipIdx.map (·.2) := by
    rw [List.zipIdx_map_snd, List.range_eq_range']
    rfl
  rw [Analysis.targets, hrange, List.filter_map]
  change ((m.entries.filter _).map _) = _
  rw [CodeModel.entries, List.filter_map, List.map_map]
  refine congrArg (List.map _) (List.filter_congr fun x hx => ?_)
  have hget : m.get? x.2 = some x.1 :=
    Array.getElem?_toList.symm.trans (List.mem_zipIdx_iff_getElem?.1 hx)
  simp [CodeModel.kindOf?, hget]

theorem questionsFor_eq (i : Inquiry) (m : CodeModel) :
    i.questionsFor (.ofModel m) = i.askedOf m := by
  simp only [questionsFor, askedOf, targets_eq]

theorem records_foldl_ask_eq {i : Inquiry} (h : i.GoesByContext) (a : Analysis) (s : Assembler)
    (t : Tally) (asked : List (Question × ObjectId)) :
    (asked.foldl (i.ask a) (s, t)).1.records = s.records ++
      (asked.zip (i.answersTo a s asked)).filterMap fun x =>
        Record.ofAnswer? (a.instruction x.1.1 x.1.2) (a.input x.1.2) x.2 := by
  induction asked generalizing s t with
  | nil => exact (List.append_nil _).symm
  | cons x asked ih =>
    have hask : (i.ask a (s, t) x).1 = s.add (a.instruction x.1 x.2) (a.input x.2)
        (i.answer a x.1 x.2 (codeQa s.quotedRecords) .zero).1 x.1.feedsPrompts := by
      rw [ask, onlyAdds_answer h a x.1 x.2 (codeQa s.quotedRecords) t]
    rw [List.foldl_cons, ← Prod.eta (i.ask a (s, t) x), ih, hask, Assembler.records_add,
      List.append_assoc, answersTo, List.zip_cons_cons, List.filterMap_cons]
    dsimp only
    cases Record.ofAnswer? (a.instruction x.1 x.2) (a.input x.2)
      (i.answer a x.1 x.2 (codeQa s.quotedRecords) .zero).1 <;> rfl

/-- The records of a file that is questioned are its answers. -/
theorem records_of_artifact {i : Inquiry} (h : i.GoesByContext) {f : SourceFile} {t : Tally}
    {artifact : Artifact} (hartifact : i.artifact f .zero = (.ok artifact, t)) :
    artifact.records = i.answeredRecords f := by
  rw [Inquiry.artifact] at hartifact
  rw [answeredRecords]
  cases hextract : Extraction.extract f.id f.source with
  | error e =>
    rw [hextract] at hartifact
    cases hartifact
  | ok m =>
    rw [hextract] at hartifact
    cases hartifact
    have hrecords := records_foldl_ask_eq h (.ofModel m) .empty .zero
      (i.questionsFor (.ofModel m))
    dsimp only
    rw [← questionsFor_eq]
    exact hrecords

end Inquiry

/-! ### What becomes of a file -/

namespace Pipeline

def reusable? (p : Pipeline) (a : Answers) (f : SourceFile) : Option (List Record) :=
  if p.reuse then a.reusable? p.validity f else none

def settle (p : Pipeline) (a : Answers) (f : SourceFile) : Settlement :=
  match p.reusable? a f with
  | some records => ⟨⟨f.id, .reused, records⟩, none, 0⟩
  | none => match p.inquiry.artifact f .zero with
    | (.error e, t) => ⟨⟨f.id, .skipped e, []⟩, none, t.failures⟩
    | (.ok artifact, t) => ⟨⟨f.id, .generated, artifact.records⟩, some artifact, t.failures⟩

variable {p : Pipeline} {a : Answers} {f : SourceFile}

theorem settle_of_reusable {records : List Record} (h : p.reusable? a f = some records) :
    p.settle a f = ⟨⟨f.id, .reused, records⟩, none, 0⟩ := by
  rw [settle, h]

theorem settle_of_error {e : ParseError} {t : Tally} (h : p.reusable? a f = none)
    (hartifact : p.inquiry.artifact f .zero = (.error e, t)) :
    p.settle a f = ⟨⟨f.id, .skipped e, []⟩, none, t.failures⟩ := by
  rw [settle, h, hartifact]

theorem settle_of_ok {artifact : Artifact} {t : Tally} (h : p.reusable? a f = none)
    (hartifact : p.inquiry.artifact f .zero = (.ok artifact, t)) :
    p.settle a f = ⟨⟨f.id, .generated, artifact.records⟩, some artifact, t.failures⟩ := by
  rw [settle, h, hartifact]

/-- The records of a file are those that are used again, or its answers. -/
theorem records_settle (h : p.inquiry.GoesByContext) (a : Answers) (f : SourceFile) :
    (p.settle a f).outcome.records =
      (p.reusable? a f).getD (p.inquiry.answeredRecords f) := by
  cases hreusable : p.reusable? a f with
  | some records => rw [settle_of_reusable hreusable, Option.getD_some]
  | none =>
    rw [Option.getD_none]
    rcases hartifact : p.inquiry.artifact f .zero with ⟨e | artifact, t⟩
    · rw [settle_of_error hreusable hartifact, Inquiry.answeredRecords,
        (Inquiry.artifact_error_iff.1 hartifact).1]
    · rw [settle_of_ok hreusable hartifact, Inquiry.records_of_artifact h hartifact]

/-- A file is stored under its own name. -/
theorem file_of_settle {artifact : Artifact} (h : (p.settle a f).artifact? = some artifact) :
    artifact.file = f.id := by
  cases hreusable : p.reusable? a f with
  | some records =>
    rw [settle_of_reusable hreusable] at h
    cases h
  | none =>
    rcases hartifact : p.inquiry.artifact f .zero with ⟨e | artifact', t⟩
    · rw [settle_of_error hreusable hartifact] at h
      cases h
    · rw [settle_of_ok hreusable hartifact] at h
      obtain rfl := Option.some.inj h
      exact (Inquiry.artifact_ok hartifact).1

/-! ### One file after the other -/

variable {σ : Type} [DatasetStore σ]

def settleIn (p : Pipeline) (s : σ) (f : SourceFile) : Settlement := p.settle (answers s f.id) f

/-- The corpus consists of the records that are used again and of the answers about the other files.
-/
theorem instruct_corpusOf_settled (h : p.inquiry.GoesByContext) (s : σ) (files : List SourceFile) :
    (p.corpusOf (files.map fun f => (p.settleIn s f).outcome)).instruct =
      (files.flatMap fun f =>
        (p.reusable? (answers s f.id) f).getD (p.inquiry.answeredRecords f)).eraseDups := by
  rw [corpusOf, Corpus.merge, List.map_map, firstOccurrences_eq_eraseDups, List.flatMap_def]
  refine congrArg (fun records : List (List Record) => records.flatten.eraseDups)
    (List.map_congr_left fun f _ => ?_)
  exact records_settle h (answers s f.id) f

def artifactsOf (p : Pipeline) (s : σ) (files : List SourceFile) : List Artifact :=
  files.filterMap fun f => (p.settleIn s f).artifact?

theorem artifactsOf_cons (p : Pipeline) (s : σ) (f : SourceFile) (files : List SourceFile) :
    p.artifactsOf s (f :: files) = (p.settleIn s f).artifact?.toList ++ p.artifactsOf s files := by
  rw [artifactsOf, List.filterMap_cons]
  cases (p.settleIn s f).artifact? <;> rfl

theorem processFile_eq (h : p.inquiry.GoesByContext) (s : σ) (t : Tally) (f : SourceFile) :
    ∃ t', t'.failures = t.failures + (p.settleIn s f).failures ∧
      p.processFile (s, t) f =
        ((p.settleIn s f).outcome, saveAll s (p.settleIn s f).artifact?.toList, t') := by
  have hstored : p.stored? s f = p.reusable? (answers s f.id) f := p.stored?_eq s f
  cases hreusable : p.reusable? (answers s f.id) f with
  | some records =>
    rw [settleIn, settle_of_reusable hreusable]
    exact ⟨t, rfl, processFile_of_stored (hstored.trans hreusable)⟩
  | none =>
    have hadds := Inquiry.onlyAdds_artifact h f t
    rcases hartifact : p.inquiry.artifact f .zero with ⟨e | artifact, u⟩
    · obtain ⟨hextract, rfl⟩ := Inquiry.artifact_error_iff.1 hartifact
      rw [settleIn, settle_of_error hreusable hartifact]
      exact ⟨t, rfl, processFile_of_error (hstored.trans hreusable) hextract⟩
    · rw [hartifact] at hadds
      rw [settleIn, settle_of_ok hreusable hartifact]
      exact ⟨t.add u, rfl, processFile_of_artifact (hstored.trans hreusable) hadds⟩

/-- The saves for one file do not matter to the others. -/
theorem settleIn_saveAll [FaithfulStore σ] {artifacts : List Artifact} {s : σ}
    (hf : IsName σ f.id) (hnames : ∀ a ∈ artifacts, IsName σ a.file)
    (hne : ∀ a ∈ artifacts, a.file ≠ f.id) :
    p.settleIn (saveAll s artifacts) f = p.settleIn s f := by
  rw [settleIn, settleIn, answers_saveAll hf hnames hne]

/-- Files of different names are processed independently of each other. -/
theorem processFiles_eq [FaithfulStore σ] (h : p.inquiry.GoesByContext) {files : List SourceFile}
    (hnames : ∀ f ∈ files, IsName σ f.id) (hids : files.Pairwise fun f g => f.id ≠ g.id) (s : σ)
    (t : Tally) : ∃ t',
      t'.failures = t.failures + (files.map fun f => (p.settleIn s f).failures).sum ∧
      p.processFiles (s, t) files =
        (files.map fun f => (p.settleIn s f).outcome, saveAll s (p.artifactsOf s files), t') := by
  induction files generalizing s t with
  | nil => exact ⟨t, rfl, rfl⟩
  | cons f files ih =>
    rw [List.forall_mem_cons] at hnames
    rw [List.pairwise_cons] at hids
    obtain ⟨t₁, ht₁, hfile⟩ := processFile_eq h s t f
    obtain ⟨t', ht', hrest⟩ := ih hnames.2 hids.2 (saveAll s (p.settleIn s f).artifact?.toList) t₁
    have hartifact : ∀ a ∈ (p.settleIn s f).artifact?.toList, a.file = f.id := fun a ha =>
      file_of_settle (Option.mem_toList.1 ha)
    have hsame : ∀ g ∈ files, p.settleIn (saveAll s (p.settleIn s f).artifact?.toList) g =
        p.settleIn s g := fun g hg =>
      settleIn_saveAll (hnames.2 g hg) (fun a ha => hartifact a ha ▸ hnames.1)
        fun a ha => hartifact a ha ▸ hids.1 g hg
    have hartifacts : p.artifactsOf (saveAll s (p.settleIn s f).artifact?.toList) files =
        p.artifactsOf s files :=
      List.filterMap_congr fun g hg => congrArg Settlement.artifact? (hsame g hg)
    rw [List.map_congr_left fun g hg => congrArg Settlement.failures (hsame g hg)] at ht'
    rw [List.map_congr_left fun g hg => congrArg Settlement.outcome (hsame g hg), hartifacts,
      ← saveAll_append, ← artifactsOf_cons] at hrest
    refine ⟨t', ?_, ?_⟩
    · rw [ht', ht₁, List.map_cons, List.sum_cons, Nat.add_assoc]
    · rw [processFiles_cons, hfile, hrest, List.map_cons]

end Pipeline

end SourceCorpus
