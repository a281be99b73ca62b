import SourceCorpus.Pipeline.Inquiry

/-!
From source files to a corpus. What the store holds of a file is used again if that is allowed and
valid; else the file is questioned and its artifact stored. Nothing that happens to one file keeps
the others from being processed.
-/

namespace SourceCorpus

/-- How source files are processed. -/
structure Pipeline where
  inquiry : Inquiry
  validity : Validity
  /-- Whether stored datasets may be used again. -/
  reuse : Bool

inductive FileStatus where
  | generated
  | reused
  | skipped (error : ParseError)
  deriving DecidableEq, Repr

/-- What became of a file. -/
structure FileOutcome where
  file : String
  status : FileStatus
  records : List Record
  deriving DecidableEq, Repr

namespace FileOutcome

def isGenerated (o : FileOutcome) : Bool := o.status matches .generated

def isReused (o : FileOutcome) : Bool := o.status matches .reused

def isSkipped (o : FileOutcome) : Bool := o.status matches .skipped _

end FileOutcome

/-- The result of a run. -/
structure Report where
  generated : Nat
  reused : Nat
  skipped : Nat
  generationFailures : Nat
  corpus : Corpus
  deriving DecidableEq, Repr

namespace Pipeline

variable {σ : Type} [DatasetStore σ]

/-- The stored records of a file, if they may be used again and can be read. -/
def stored? (p : Pipeline) (s : σ) (f : SourceFile) : Option (List Record) :=
  if p.reuse && p.validity.admits s f then (DatasetStore.load s f.id).toOption else none

/-- What becomes of a file, and what is to be stored of it. -/
def outcome (p : Pipeline) (s : σ) (f : SourceFile) (t : Tally) :
    (FileOutcome × Option Artifact) × Tally :=
  match p.stored? s f with
  | some records => ((⟨f.id, .reused, records⟩, none), t)
  | none => match p.inquiry.artifact f t with
    | (.error e, t) => ((⟨f.id, .skipped e, []⟩, none), t)
    | (.ok artifact, t) => ((⟨f.id, .generated, artifact.records⟩, some artifact), t)

/-- The store with an artifact, if there is one. What cannot be written is left out. -/
def keep (s : σ) : Option Artifact → σ
  | some artifact => (DatasetStore.save s artifact).1
  | none => s

def processFile (p : Pipeline) (s : σ × Tally) (f : SourceFile) : FileOutcome × (σ × Tally) :=
  let ((outcome, artifact?), t) := p.outcome s.1 f s.2
  (outcome, keep s.1 artifact?, t)

/-- Processes the files one after the other. -/
def processFiles (p : Pipeline) (s : σ × Tally) : List SourceFile → List FileOutcome × (σ × Tally)
  | [] => ([], s)
  | f :: files =>
    let (outcome, s) := p.processFile s f
    let (outcomes, s) := p.processFiles s files
    (outcome :: outcomes, s)

def corpusOf (p : Pipeline) (outcomes : List FileOutcome) : Corpus :=
  Corpus.merge (outcomes.map (·.records)) p.inquiry.augmenter?.isSome

def reportOf (p : Pipeline) (outcomes : List FileOutcome) (failures : Nat) : Report :=
  { generated := outcomes.countP FileOutcome.isGenerated
    reused := outcomes.countP FileOutcome.isReused
    skipped := outcomes.countP FileOutcome.isSkipped
    generationFailures := failures
    corpus := p.corpusOf outcomes }

/-- Processes the files and stores their corpus. The run fails if the corpus cannot be written. -/
def run (p : Pipeline) (s : σ × Tally) (files : List SourceFile) :
    Except RunFault Report × (σ × Tally) :=
  let (outcomes, store, t) := p.processFiles s files
  let report := p.reportOf outcomes (t.failures - s.2.failures)
  let (store, complete) := DatasetStore.saveCorpus store report.corpus
  (if complete then .ok report else .error .io, store, t)

end Pipeline

end SourceCorpus
