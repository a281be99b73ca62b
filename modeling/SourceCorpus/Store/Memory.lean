import SourceCorpus.Json.Printer
import SourceCorpus.Store.Basic

/-!
A store in memory. Records are kept as JSON text, so that reading them back takes the same way as
from a directory.
-/

namespace SourceCorpus

/-- What a store in memory keeps of a file. -/
structure Holding where
  /-- The JSON text of the records. -/
  records : String
  graph : Json
  fingerprint : String

structure MemoryStore where
  /-- The holdings by file, the latest first. -/
  holdings : List (String × Holding)
  corpus? : Option Corpus
  /-- How often an artifact was saved. -/
  saves : Nat

namespace MemoryStore

def empty : MemoryStore := ⟨[], none, 0⟩

def holding? (s : MemoryStore) (file : String) : Option Holding := s.holdings.lookup file

def load (s : MemoryStore) (file : String) : Except PriorFault (List Record) :=
  match s.holding? file with
  | none => .error (.missing file)
  | some holding => match Record.listOfText? holding.records with
    | some records => .ok records
    | none => .error (.corrupt file "the text does not hold records")

def save (s : MemoryStore) (a : Artifact) : MemoryStore :=
  { s with
    holdings := (a.file, ⟨(Record.listToJson a.records).compact, a.graph, a.fingerprint⟩) ::
      s.holdings
    saves := s.saves + 1 }

/-- Puts a text that holds no records in the place of the records of a file. -/
def corrupt (s : MemoryStore) (file : String) : MemoryStore :=
  match s.holding? file with
  | none => s
  | some holding =>
    { s with holdings := (file, { holding with records := "not json" }) :: s.holdings }

instance : DatasetStore MemoryStore where
  holds s file := (s.holding? file).isSome
  load := load
  fingerprint? s file := (s.holding? file).map (·.fingerprint)
  save s a := (s.save a, true)
  saveCorpus s corpus := ({ s with corpus? := some corpus }, true)

end MemoryStore

end SourceCorpus
