import SourceCorpus.Dataset.Record
import SourceCorpus.Question.Answer
import SourceCorpus.Text.Blank

/-!
Collecting the records of a file. An answer without text makes no record.
-/

namespace SourceCorpus

/-- The record for an answer, if it has a text. -/
def Record.ofAnswer? (instruction input : String) (answer : Answer) : Option Record :=
  answer.output?.bind fun output =>
    let output := Text.trim output
    if output = "" then none else some ⟨instruction, input, output⟩

/-- The records of a file so far, in order. -/
structure Assembler where
  records : List Record
  /-- The places of the records that later prompts quote. -/
  quoted : List Nat
  deriving DecidableEq, Repr

namespace Assembler

def empty : Assembler := ⟨[], []⟩

def add (a : Assembler) (instruction input : String) (answer : Answer) (quoted : Bool) :
    Assembler :=
  match Record.ofAnswer? instruction input answer with
  | some record =>
    ⟨a.records ++ [record], if quoted then a.quoted ++ [a.records.length] else a.quoted⟩
  | none => a

def size (a : Assembler) : Nat := a.records.length

def quotedRecords (a : Assembler) : List Record := a.quoted.filterMap fun place => a.records[place]?

end Assembler

end SourceCorpus
