import SourceCorpus.Dataset.Record
import SourceCorpus.Model.CodeModel

/-!
The corpus of a run: the records of all its files in order, each once.
-/

namespace SourceCorpus

structure Corpus where
  instruct : List Record
  /-- The records for training; only runs with a generator have them. -/
  train : Option (List TrainRecord)
  deriving DecidableEq, Repr

namespace Corpus

def merge (perFile : List (List Record)) (withTrain : Bool) : Corpus :=
  let instruct := firstOccurrences perFile.flatten
  { instruct := instruct
    train := if withTrain then some (firstOccurrences (instruct.map Record.toTrain)) else none }

end Corpus

end SourceCorpus
