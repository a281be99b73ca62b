import SourceCorpus.Failure
import SourceCorpus.Json.Parser
import SourceCorpus.Question.Basic

/-!
The questions that are asked about every file, in order. A bank is built in or read from JSON, and
either way its questions have texts and identifiers of their own.
-/

namespace SourceCorpus

namespace Question

/-- The most questions that a bank may have. -/
def maxCount : Nat := 256

/-- The most bytes that the text of a question may have. -/
def maxTextBytes : Nat := 512

/-- What is wrong with a question after others with the identifiers in `earlier`. -/
def fault? (earlier : List String) (q : Question) : Option ConfigFault :=
  if Text.isAllBlank q.id.toList then some .blankQuestionId
  else if earlier.contains q.id then some (.duplicateQuestionId q.id)
  else if Text.isAllBlank q.text.toList ∨ Text.byteLength q.text.toList > maxTextBytes then
    some (.badQuestionText q.id)
  else none

/-- The first fault of the questions after others with the identifiers in `earlier`. -/
def firstFault? (earlier : List String) : List Question → Option ConfigFault
  | [] => none
  | q :: questions => (fault? earlier q) <|> (firstFault? (q.id :: earlier) questions)

/-- A question from its JSON value; one that does not say so may be augmented. -/
def ofJson? (j : Json) : Option Question :=
  match Json.record? ["id", "text", "scope", "type", "augment"] j with
  | some [some id, some text, some scope, some type, augment] => do
    return {
      id := ← id.string?
      text := ← text.string?
      scope := ← Scope.ofName? (← scope.caseName?)
      type := ← QuestionType.ofName? (← type.caseName?)
      augment := ← match augment with
        | some value => value.bool?
        | none => some true }
  | _ => none

end Question

structure QuestionBank where
  questions : List Question
  deriving DecidableEq, Repr

namespace QuestionBank

/-- The bank of the questions, if nothing is wrong with them. -/
def ofList (questions : List Question) : Except ConfigFault QuestionBank :=
  if questions.isEmpty then .error .emptyBank
  else if Question.maxCount < questions.length then
    .error (.tooManyQuestions questions.length Question.maxCount)
  else match Question.firstFault? [] questions with
    | some fault => .error fault
    | none => .ok ⟨questions⟩

def questionsOfJson? (text : String) : Option (List Question) := do
  (← (← Json.parse? text).array?).mapM Question.ofJson?

/-- The bank that a JSON text describes. -/
def ofJson (text : String) : Except RunFault QuestionBank :=
  match questionsOfJson? text with
  | none => .error .json
  | some questions => (ofList questions).mapError .config

def get? (b : QuestionBank) (id : String) : Option Question := b.questions.find? (·.id == id)

def size (b : QuestionBank) : Nat := b.questions.length

def hasAugmentable (b : QuestionBank) : Bool := b.questions.any (·.isAugmentable)

/-- The questions about a file. -/
def fileQuestions : List Question :=
  [("file_dependencies", "Dependencies in Python file: `{filename}`?", QuestionType.list),
    ("entire_code_graph", "Call code graph in Python file: `{filename}`?", .structural),
    ("file_functions", "Functions defined in Python file: `{filename}`?", .list),
    ("file_classes", "Classes defined in Python file: `{filename}`?", .list),
    ("file_constants", "Constants defined in Python file: `{filename}`?", .list),
    ("file_docstring", "Docstring of Python file: `{filename}`?", .freeText),
    ("file_summary", "Summary of Python file: `{filename}`?", .freeText),
    ("file_purpose", "Purpose of Python file: `{filename}`?", .purpose)].map
    fun (id, text, type) => ⟨id, text, .file, type, true⟩

/-- The questions of one scope, whose texts go on with the place of the object. -/
def placed (scope : Scope) (place : String) (questions : List (String × String × QuestionType)) :
    List Question :=
  questions.map fun (id, subject, type) =>
    ⟨id, subject ++ place ++ " in Python file: `{filename}`?", scope, type, true⟩

def functionQuestions : List Question :=
  placed .standalone " function: `{function_name}`"
    [("function_inputs", "Inputs to", .list),
      ("function_parameter_count", "Number of parameters of", .count),
      ("function_docstring", "Docstring of", .freeText),
      ("function_calls", "Calls made in", .list),
      ("function_callers", "Callers of", .list),
      ("function_variables", "Variables in", .list),
      ("function_returns", "Returns from", .list),
      ("function_purpose", "Purpose of", .purpose)]

def classQuestions : List Question :=
  placed .class " class: `{class_name}`"
    [("class_methods", "Methods defined in", .list),
      ("class_method_count", "Number of methods in", .count),
      ("class_docstring", "Docstring of", .freeText),
      ("class_attributes", "Attributes of", .list),
      ("class_variables", "Variables defined in", .list),
      ("class_inheritance", "Inheritance of", .structural),
      ("class_subclasses", "Subclasses of", .list),
      ("class_instantiations", "Objects instantiating", .list),
      ("class_purpose", "Purpose of", .purpose)]

def methodQuestions : List Question :=
  placed .method " method: `{method_name}` in class: `{class_name}`"
    [("method_inputs", "Inputs to", .list),
      ("method_docstring", "Docstring of", .freeText),
      ("method_calls", "Calls made in", .list),
      ("method_returns", "Returns from", .list),
      ("method_decorators", "Decorators of", .list),
      ("method_purpose", "Purpose of", .purpose)]

/-- The bank that is built in. -/
def default : QuestionBank :=
  ⟨fileQuestions ++ functionQuestions ++ classQuestions ++ methodQuestions⟩

end QuestionBank

end SourceCorpus
