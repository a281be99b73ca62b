import SourceCorpus.Model.CodeModel
import SourceCorpus.Question.Topic

/-!
Questions about the objects of a file, and the instructions that they become for an object.
-/

namespace SourceCorpus

/-- Whom a question is about. -/
inductive Scope where
  /-- The file as a whole. -/
  | file
  | «class»
  /-- Functions and methods. -/
  | function
  /-- Functions that are no methods. -/
  | standalone
  | method
  deriving DecidableEq, Repr

namespace Scope

def names : List (String × Scope) :=
  [("file", file), ("class", .class), ("function", function), ("standalone", standalone),
    ("method", method)]

def ofName? (name : String) : Option Scope := names.lookup name

/-- Whether a question of this scope is asked about objects of the kind. -/
def covers : Scope → ObjectKind → Bool
  | file, kind => kind == .module
  | «class», kind => kind == .class
  | function, kind => kind.isCallable
  | standalone, kind => kind == .function
  | method, kind => kind == .method

end Scope

inductive QuestionType where
  | structural | count | list | purpose | freeText
  deriving DecidableEq, Repr

namespace QuestionType

def names : List (String × QuestionType) :=
  [("structural", structural), ("count", count), ("list", list), ("purpose", purpose),
    ("free_text", freeText)]

def ofName? (name : String) : Option QuestionType := names.lookup name

end QuestionType

structure Question where
  id : String
  /-- The text, with placeholders for what is known of the object. -/
  text : String
  scope : Scope
  type : QuestionType
  /-- Whether a generator may answer the question, if it asks for a purpose. -/
  augment : Bool
  deriving DecidableEq, Repr

namespace Question

def topic? (q : Question) : Option Topic := Topic.ofQuestionId? q.id

def isPurpose (q : Question) : Bool := q.type == .purpose

def isAugmentable (q : Question) : Bool := q.isPurpose && q.augment

/-- Whether the answers stand in the prompts for later questions. Graphs and docstrings would only
repeat what the prompt shows anyway. -/
def feedsPrompts (q : Question) : Bool :=
  match q.topic? with
  | some .codeGraph | some .docstring => false
  | _ => true

/-- The class that an object is, or that a method belongs to. -/
def className (m : CodeModel) (o : CodeObject) : String :=
  match o.kind with
  | .class => o.qualifiedName
  | .method => ((o.parent.bind m.get?).map (·.qualifiedName)).getD ""
  | _ => ""

def functionName (o : CodeObject) : String := if o.kind.isCallable then o.qualifiedName else ""

def methodName (o : CodeObject) : String := if o.kind == .method then o.name else ""

/-- The placeholders and what stands for them, in the order in which they are replaced. -/
def placeholders (m : CodeModel) (o : CodeObject) : List (String × String) :=
  [("{filename}", m.file), ("{qualified_name}", o.qualifiedName),
    ("{function_name}", functionName o), ("{class_name}", className m o),
    ("{method_name}", methodName o), ("{name}", o.name)]

/-- The text with the placeholders replaced for the object; others stay as they are written. -/
def render (q : Question) (m : CodeModel) (o : CodeObject) : String :=
  (placeholders m o).foldl (fun text (mark, value) => Text.replace text mark value) q.text

end Question

end SourceCorpus
