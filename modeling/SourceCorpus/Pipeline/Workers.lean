import SourceCorpus.Pipeline.Files

/-!
Files processed by several workers. They share a store and a generator and take turns in any order; a
worker does one thing with the store in a turn, or questions its file. What became of the files is put
back into the order of the files when all workers have finished.
-/

namespace SourceCorpus

/-- How far a worker has come with its file. -/
inductive Stage where
  | waiting
  /-- The store holds a dataset of the file, and its fingerprint is to be looked at. -/
  | comparing
  /-- The stored dataset may be used again. -/
  | loading
  /-- Nothing that is stored can be used. -/
  | questioning
  | saving (artifact : Artifact)
  | finished (outcome : FileOutcome)

def Stage.outcome? : Stage → Option FileOutcome
  | finished outcome => some outcome
  | _ => none

/-- The turn of a worker. Calls that others make of the generator may fall between its own, so that
these can have any numbers. -/
structure Turn where
  worker : Nat
  callNumber : Nat → Nat

/-- What the workers share, and how far they have come. -/
structure Workers (σ : Type) where
  store : σ
  /-- How many requests to the generator have failed. -/
  failures : Nat
  /-- The files with their stages; each file has a worker of its own. -/
  tasks : List (SourceFile × Stage)
  /-- What became of files, in the order in which their workers finished, with the places of the
  files. -/
  outcomes : List (Nat × FileOutcome)

/-- The generator, called under other numbers. -/
def Augmenter.renumbered (g : Augmenter) (number : Nat → Nat) : Augmenter :=
  { g with generator := fun n context => g.generator (number n) context }

def Inquiry.renumbered (i : Inquiry) (number : Nat → Nat) : Inquiry :=
  { i with augmenter? := i.augmenter?.map (·.renumbered number) }

namespace Workers

variable {σ : Type}

/-- Workers that have not begun. -/
def ready (store : σ) (files : List SourceFile) : Workers σ :=
  ⟨store, 0, files.map fun f => (f, .waiting), []⟩

def isDone (w : Workers σ) : Bool := w.tasks.all fun task => task.2.outcome?.isSome

/-- What became of the files, in the order of the files. -/
def inOrder (w : Workers σ) : List FileOutcome :=
  (w.outcomes.mergeSort fun a b => a.1 ≤ b.1).map (·.2)

end Workers

namespace Pipeline

variable {σ : Type} [DatasetStore σ]

/-- What a worker does in one turn: the next stage, the store, and how many requests failed. -/
def advance (p : Pipeline) (f : SourceFile) (callNumber : Nat → Nat) (s : σ) :
    Stage → Stage × σ × Nat
  | .waiting =>
    if p.reuse && DatasetStore.holds s f.id then
      match p.validity with
      | .existence => (.loading, s, 0)
      | .contentHash => (.comparing, s, 0)
    else (.questioning, s, 0)
  | .comparing =>
    if DatasetStore.fingerprint? s f.id == some f.fingerprint then (.loading, s, 0)
    else (.questioning, s, 0)
  | .loading => match DatasetStore.load s f.id with
    | .ok records => (.finished ⟨f.id, .reused, records⟩, s, 0)
    | .error _ => (.questioning, s, 0)
  | .questioning => match (p.inquiry.renumbered callNumber).artifact f .zero with
    | (.error e, t) => (.finished ⟨f.id, .skipped e, []⟩, s, t.failures)
    | (.ok artifact, t) => (.saving artifact, s, t.failures)
  | .saving artifact =>
    (.finished ⟨f.id, .generated, artifact.records⟩, (DatasetStore.save s artifact).1, 0)
  | .finished outcome => (.finished outcome, s, 0)

/-- One turn of a worker that has not finished. -/
def takeTurn (p : Pipeline) (w : Workers σ) (turn : Turn) : Workers σ :=
  match w.tasks[turn.worker]? with
  | none => w
  | some (f, stage) =>
    if stage.outcome?.isSome then w
    else
      let (stage, store, failures) := p.advance f turn.callNumber w.store stage
      { store := store
        failures := w.failures + failures
        tasks := w.tasks.set turn.worker (f, stage)
        outcomes := w.outcomes ++ stage.outcome?.toList.map fun outcome => (turn.worker, outcome) }

/-- The workers after they took turns in the given order. -/
def work (p : Pipeline) (s : σ) (files : List SourceFile) (turns : List Turn) : Workers σ :=
  turns.foldl p.takeTurn (.ready s files)

/-- Processes the files with workers that take turns in the given order, and stores their corpus. -/
def runWorkers (p : Pipeline) (s : σ) (files : List SourceFile) (turns : List Turn) :
    Except RunFault Report × σ :=
  let w := p.work s files turns
  let report := p.reportOf w.inOrder w.failures
  let (store, complete) := DatasetStore.saveCorpus w.store report.corpus
  (if complete then .ok report else .error .io, store)

end Pipeline

end SourceCorpus
