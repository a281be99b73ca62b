import SourceCorpus.Dataset.Assembler
import SourceCorpus.Extraction.Extract
import SourceCorpus.Generation.Augmenter
import SourceCorpus.Question.Bank
import SourceCorpus.Store.Basic

/-!
Asking the questions of a bank about a file. Every question is asked about its targets in order; a
purpose that may be augmented is asked of the generator, along with what was answered before.
-/

namespace SourceCorpus

namespace Analysis

/-- The code of an object; for the module it is the whole file. -/
def objectSource (a : Analysis) (id : ObjectId) : String :=
  match a.model.get? id with
  | some o => if id = CodeModel.moduleId then a.model.source else a.model.sourceOf o
  | none => a.model.source

/-- What prompts about code of the file are made of. -/
def material (a : Analysis) (code answered : String) : PromptMaterial :=
  ⟨code, simplifySource a.model.source, a.fileSummary, answered⟩

end Analysis

/-- How the questions about a file are asked. -/
structure Inquiry where
  bank : QuestionBank
  /-- What generates purposes, if anything does. -/
  augmenter? : Option Augmenter
  /-- Whether nested objects are explained along with an object. -/
  detailed : Bool

namespace Inquiry

/-- The request for the purpose of the object that a question is about. -/
def requestFor (i : Inquiry) (a : Analysis) (q : Question) (id : ObjectId) (answered : String) :
    PurposeRequest :=
  ⟨a.instruction q id, a.material (a.objectSource id) answered, i.detailed⟩

/-- The request for the purpose of a nested object. -/
def nestedRequest (a : Analysis) (q : Question) (answered : String) (child : CodeObject) :
    PurposeRequest :=
  ⟨q.render a.model child, a.material (a.model.sourceOf child) answered, true⟩

/-- The explanation of a nested object behind its name. -/
def section? (child : CodeObject) : Except GenerationFailure String → Option String
  | .ok text => some (child.qualifiedName ++ ": " ++ text)
  | .error _ => none

/-- The sections for those of the nested objects that could be explained. -/
def explainNested (generator : Augmenter) (a : Analysis) (q : Question) (answered : String) :
    List CodeObject → Tally → List String × Tally
  | [], t => ([], t)
  | child :: children, t =>
    let (result, t) := generator.explain (nestedRequest a q answered child) t
    let (sections, t) := explainNested generator a q answered children t
    ((section? child result).toList ++ sections, t)

/-- The nested objects that are explained along with an object. -/
def nestedTargets (i : Inquiry) (a : Analysis) (id : ObjectId) : List CodeObject :=
  if i.detailed then (a.model.descendantsOf id).take Limits.maxDetailed else []

/-- The generated purpose of an object, if its own explanation succeeds. -/
def explain (i : Inquiry) (generator : Augmenter) (a : Analysis) (q : Question) (id : ObjectId)
    (answered : String) (t : Tally) : Option String × Tally :=
  match generator.explain (i.requestFor a q id answered) t with
  | (.error _, t) => (none, t)
  | (.ok text, t) =>
    let (sections, t) := explainNested generator a q answered (i.nestedTargets a id) t
    (some ("\n\n".intercalate (text :: sections)), t)

/-- The answer to a question, generated if it may be. -/
def answer (i : Inquiry) (a : Analysis) (q : Question) (id : ObjectId) (answered : String)
    (t : Tally) : Answer × Tally :=
  let given := a.answer q id
  match i.augmenter? with
  | none => (given, t)
  | some generator =>
    if q.augment && given.isPurpose then
      match i.explain generator a q id answered t with
      | (some text, t) => (.text text, t)
      | (none, t) => (given, t)
    else (given, t)

/-- Asks one question about one object, and records the answer. -/
def ask (i : Inquiry) (a : Analysis) (state : Assembler × Tally) (asked : Question × ObjectId) :
    Assembler × Tally :=
  let (q, id) := asked
  let (answer, t) := i.answer a q id (codeQa state.1.quotedRecords) state.2
  (state.1.add (a.instruction q id) (a.input id) answer q.feedsPrompts, t)

/-- The questions with their targets, in the order in which they are asked. -/
def questionsFor (i : Inquiry) (a : Analysis) : List (Question × ObjectId) :=
  i.bank.questions.flatMap fun q => (a.targets q.scope).map fun id => (q, id)

/-- The records of a file. -/
def records (i : Inquiry) (a : Analysis) (t : Tally) : List Record × Tally :=
  let (assembler, t) := (i.questionsFor a).foldl (i.ask a) (.empty, t)
  (assembler.records, t)

/-- What is kept of a file whose model is known. -/
def artifactOf (i : Inquiry) (f : SourceFile) (m : CodeModel) (t : Tally) : Artifact × Tally :=
  let a := Analysis.ofModel m
  let (records, t) := i.records a t
  (⟨f.id, records, a.graph.toJson, f.fingerprint⟩, t)

/-- What is kept of a source file, unless it has a syntax error. -/
def artifact (i : Inquiry) (f : SourceFile) (t : Tally) : Except ParseError Artifact × Tally :=
  match Extraction.extract f.id f.source with
  | .error e => (.error e, t)
  | .ok m =>
    let (artifact, t) := i.artifactOf f m t
    (.ok artifact, t)

end Inquiry

end SourceCorpus
