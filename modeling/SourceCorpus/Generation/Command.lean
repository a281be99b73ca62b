import SourceCorpus.Generation.Augmenter
import SourceCorpus.Programs.Basic

/-!
Generators that are programs. The prompt is the input of the program and its output is the text; a
program that does not succeed is described by its messages.
-/

namespace SourceCorpus.CommandLine

/-- The variable that tells a program to forget what was said before. -/
def resetVariable : String := "PY2DATASET_RESET"

def environmentOf (context : GenerationContext) : Environment :=
  if context.reset then [(resetVariable, "1")] else []

/-- What a program that ended in time gives. -/
def replyOf (program : String) (e : Execution) : Reply :=
  if e.status = .code 0 then
    match Utf8.decode e.output with
    | .ok text => .text text
    | .error fault => .failure (.malformedOutput ("non UTF-8 output: " ++ fault.text))
  else
    let message := Text.trim (Utf8.decodeLossy e.messages)
    .failure (.provider (program ++ " exited with " ++ e.status.text ++ ": " ++ message))

/-- What comes of running the program for the context. -/
def generate (system : System) (c : CommandLine) (context : GenerationContext) : Generation :=
  match system c (environmentOf context) (Utf8.encode context.prompt.toList) with
  | none =>
    let reason := "failed to start " ++ c.program ++ ": " ++ ReadFault.notFound.text
    ⟨.failure (.provider reason), 0⟩
  | some e => ⟨replyOf c.program e, e.milliseconds⟩

def toGenerator (system : System) (c : CommandLine) : Generator := fun _ context =>
  c.generate system context

end SourceCorpus.CommandLine
