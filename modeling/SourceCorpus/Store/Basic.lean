import SourceCorpus.Config.Run
import SourceCorpus.Dataset.Corpus
import SourceCorpus.Digest.Sha256
import SourceCorpus.Failure
import SourceCorpus.Model.CodeModel

/-!
Where datasets are kept: one for each file, along with the graph of the file and a fingerprint of
its source, and the corpus of all.
-/

namespace SourceCorpus

/-- What is kept of a file. -/
structure Artifact where
  file : String
  records : List Record
  graph : Json
  /-- The fingerprint of the source that the records were made from. -/
  fingerprint : String

class DatasetStore (σ : Type) where
  holds : σ → String → Bool
  load : σ → String → Except PriorFault (List Record)
  fingerprint? : σ → String → Option String
  /-- Keeps an artifact; `false` if not all of it could be written. -/
  save : σ → Artifact → σ × Bool
  saveCorpus : σ → Corpus → σ × Bool

def SourceFile.fingerprint (f : SourceFile) : String := Sha256.hex f.source

/-- Whether the stored dataset of the file may be used again. -/
def Validity.admits {σ : Type} [DatasetStore σ] (v : Validity) (s : σ) (f : SourceFile) : Bool :=
  match v with
  | .existence => DatasetStore.holds s f.id
  | .contentHash =>
    DatasetStore.holds s f.id && DatasetStore.fingerprint? s f.id == some f.fingerprint

end SourceCorpus
