import SourceCorpus.Json.Parser

/-!
Records: an instruction, the name of the object that it is about, and the answer. The records of a
file are stored as a JSON array.
-/

namespace SourceCorpus

structure Record where
  instruction : String
  input : String
  output : String
  deriving DecidableEq, Repr

/-- A record without its input. -/
structure TrainRecord where
  instruction : String
  output : String
  deriving DecidableEq, Repr

namespace Record

def toTrain (r : Record) : TrainRecord := ⟨r.instruction, r.output⟩

def toJson (r : Record) : Json :=
  .object [("instruction", .string r.instruction), ("input", .string r.input),
    ("output", .string r.output)]

def ofJson? (j : Json) : Option Record :=
  match Json.record? ["instruction", "input", "output"] j with
  | some [some instruction, some input, some output] => do
    return ⟨← instruction.string?, ← input.string?, ← output.string?⟩
  | _ => none

def listToJson (records : List Record) : Json := .array (records.map toJson)

def listOfText? (text : String) : Option (List Record) := do
  (← (← Json.parse? text).array?).mapM ofJson?

end Record

def TrainRecord.toJson (r : TrainRecord) : Json :=
  .object [("instruction", .string r.instruction), ("output", .string r.output)]

end SourceCorpus
