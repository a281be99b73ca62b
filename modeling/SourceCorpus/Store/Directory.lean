import SourceCorpus.Disk.Change
import SourceCorpus.Json.Printer
import SourceCorpus.Store.Basic

/-!
A store in a directory. Three JSON and text files stand for each source file, named after it, and
one or two for the corpus. The records of a file are written last: once they are there, so is the
rest.
-/

namespace SourceCorpus

structure DirectoryStore where
  /-- Where the directory is. -/
  root : Place
  disk : Disk

namespace DirectoryStore

/-- The place of one of the files that stand for a source file. -/
def placeOf (root : Place) (file suffix : String) : Place := root.follow (file ++ suffix)

def recordsPlace (root : Place) (file : String) : Place := placeOf root file ".instruct.json"

def graphPlace (root : Place) (file : String) : Place := placeOf root file ".graph.json"

def fingerprintPlace (root : Place) (file : String) : Place := placeOf root file ".sha256"

def corpusPlace (root : Place) : Place := root ++ ["instruct.json"]

def trainPlace (root : Place) : Place := root ++ ["train.json"]

/-- A JSON value as the text of a file. -/
def fileText (j : Json) : String := j.pretty ++ "\n"

def saveGraph (root : Place) (a : Artifact) : List Change :=
  Change.replaceFile (graphPlace root a.file) (fileText a.graph.sorted)

def saveFingerprint (root : Place) (a : Artifact) : List Change :=
  Change.replaceFile (fingerprintPlace root a.file) (a.fingerprint ++ "\n")

def saveRecords (root : Place) (a : Artifact) : List Change :=
  Change.replaceFile (recordsPlace root a.file) (fileText (Record.listToJson a.records))

/-- All that is done to keep an artifact. -/
def saveChanges (root : Place) (a : Artifact) : List Change :=
  saveGraph root a ++ saveFingerprint root a ++ saveRecords root a

def trainChanges (s : DirectoryStore) : Option (List TrainRecord) → List Change
  | some train =>
    Change.replaceFile (trainPlace s.root) (fileText (.array (train.map TrainRecord.toJson)))
  | none =>
    if (s.disk.entry? (trainPlace s.root)).isSome then [.removeFile (trainPlace s.root)] else []

/-- All that is done to keep a corpus. Records for training that are left from before do not stay.
-/
def corpusChanges (s : DirectoryStore) (c : Corpus) : List Change :=
  Change.replaceFile (corpusPlace s.root) (fileText (Record.listToJson c.instruct)) ++
    s.trainChanges c.train

/-- The store after the changes, and whether none of them failed. -/
def run (s : DirectoryStore) (changes : List Change) : DirectoryStore × Bool :=
  let (disk, complete) := s.disk.run changes
  ({ s with disk := disk }, complete)

def load (s : DirectoryStore) (file : String) : Except PriorFault (List Record) :=
  match s.disk.readText (recordsPlace s.root file) with
  | .error .notFound => .error (.missing file)
  | .error fault => .error (.unreadable file fault)
  | .ok text => match Record.listOfText? text with
    | some records => .ok records
    | none => .error (.corrupt file "the text does not hold records")

def fingerprint? (s : DirectoryStore) (file : String) : Option String :=
  match s.disk.readText (fingerprintPlace s.root file) with
  | .ok text => some (Text.trim text)
  | .error _ => none

instance : DatasetStore DirectoryStore where
  holds s file := s.disk.isFile (recordsPlace s.root file)
  load := load
  fingerprint? := fingerprint?
  save s a := s.run (saveChanges s.root a)
  saveCorpus s corpus := s.run (s.corpusChanges corpus)

end DirectoryStore

end SourceCorpus
