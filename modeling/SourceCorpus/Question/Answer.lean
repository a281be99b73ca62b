import SourceCorpus.Graph.Build
import SourceCorpus.Graph.Rendering
import SourceCorpus.Json.Printer
import SourceCorpus.Question.Basic

/-!
Answers to questions about one file, taken from its model and its graph alone. A question that asks
for a purpose gets a placeholder here, which a generated text may replace.
-/

namespace SourceCorpus

/-- Why there is no answer. -/
inductive Inapplicable where
  | missingObject (id : ObjectId)
  | scopeMismatch (scope : Scope) (kind : ObjectKind)
  | unknownQuestion (id : String)
  | topicMismatch (topic : Topic) (kind : ObjectKind)
  deriving DecidableEq, Repr

inductive Answer where
  | text (text : String)
  | purpose (placeholder : String)
  | inapplicable (reason : Inapplicable)
  deriving DecidableEq, Repr

namespace Answer

def output? : Answer → Option String
  | text s => some s
  | purpose placeholder => some placeholder
  | inapplicable _ => none

def isPurpose : Answer → Bool
  | purpose _ => true
  | _ => false

/-- What stands for a purpose that nothing was generated for. -/
def placeholder : String := "no augmentation requested"

end Answer

def commaList (items : List String) : String := ", ".intercalate items

/-- A file as questions see it. -/
structure Analysis where
  model : CodeModel
  graph : Graph

namespace Analysis

def ofModel (m : CodeModel) : Analysis := ⟨m, Graph.ofModel m⟩

def variableNames (assigned : List Variable) : List String :=
  firstOccurrences (assigned.map (·.name))

def objectNames (objects : List CodeObject) : List String :=
  firstOccurrences (objects.map (·.name))

/-- The labelled parts that are not empty. -/
def summaryOf (parts : List (String × String)) : String :=
  "; ".intercalate ((parts.filter (·.2 != "")).map fun (label, part) => label ++ ": " ++ part)

def dependencyList (a : Analysis) : String := commaList a.model.dependencies

def topLevelList (a : Analysis) (kind : ObjectKind) : String :=
  commaList (objectNames (a.model.topLevel kind))

/-- What the file depends on and defines, on one line. -/
def fileSummary (a : Analysis) : String :=
  summaryOf [("dependencies", a.dependencyList), ("functions", a.topLevelList .function),
    ("classes", a.topLevelList .class)]

/-- The qualified name of the first object. -/
def rootName (a : Analysis) : String :=
  ((a.model.get? CodeModel.moduleId).map (·.qualifiedName)).getD ""

def fileAnswer? (a : Analysis) : Topic → Option String
  | .dependencies => some a.dependencyList
  | .codeGraph => some a.graph.toJson.compact
  | .functions => some (a.topLevelList .function)
  | .classes => some (a.topLevelList .class)
  | .constants => some (commaList (variableNames a.model.constants))
  | .assignedNames => some (commaList (variableNames a.model.globals))
  | .docstring => some (a.model.docstring.getD "")
  | .calls => some (commaList (a.graph.callees a.rootName))
  | .summary => some a.fileSummary
  | _ => none

/-- What can be asked of classes and functions alike. -/
def definitionAnswer? (a : Analysis) (id : ObjectId) (o : CodeObject) : Topic → Option String
  | .docstring => some (o.docstring.getD "")
  | .decorators => some (commaList o.decorators)
  | .calls => some (commaList (a.graph.callees o.qualifiedName))
  | .nestedDefinitions => some (commaList (objectNames (a.model.childrenOf id)))
  | _ => none

def methodNames (a : Analysis) (id : ObjectId) : List String :=
  objectNames ((a.model.childrenOf id).filter (·.kind == .method))

def classAnswer? (a : Analysis) (id : ObjectId) (o : CodeObject) (data : ClassData)
    (topic : Topic) : Option String :=
  match topic with
  | .methods => some (commaList (a.methodNames id))
  | .methodCount => some (toString (a.methodNames id).length)
  | .attributes => some (commaList data.instanceAttributes)
  | .assignedNames => some (commaList (variableNames data.attributes))
  | .inheritance => some (commaList data.bases)
  | .subclasses => some (commaList (a.graph.subclasses o.qualifiedName))
  | .instantiations => some (commaList (a.graph.instantiators o.qualifiedName))
  | _ => a.definitionAnswer? id o topic

def functionAnswer? (a : Analysis) (id : ObjectId) (o : CodeObject) (data : FunctionData)
    (topic : Topic) : Option String :=
  match topic with
  | .inputs => some (commaList (o.parameters.map (·.displayName)))
  | .parameterCount => some (toString o.parameters.length)
  | .callers => some (commaList (a.graph.callers o.qualifiedName))
  | .returns => some (commaList (firstOccurrences data.returns))
  | .returnType => some (o.returnType.getD "")
  | .assignedNames => some (commaList (variableNames data.locals))
  | .instantiations => some (commaList (a.graph.instantiations o.qualifiedName))
  | _ => a.definitionAnswer? id o topic

def topicAnswer? (a : Analysis) (id : ObjectId) (o : CodeObject) (topic : Topic) :
    Option String :=
  match o.payload with
  | .module => a.fileAnswer? topic
  | .class data => a.classAnswer? id o data topic
  | .function data | .method data => a.functionAnswer? id o data topic

/-- The objects that questions of the scope are asked about, in order. -/
def targets (a : Analysis) (scope : Scope) : List ObjectId :=
  (a.model.entries.filter fun (_, o) => scope.covers o.kind).map (·.1)

/-- The answer for an object that the question is asked about. -/
def answerFor (a : Analysis) (q : Question) (id : ObjectId) (o : CodeObject) : Answer :=
  if !q.scope.covers o.kind then .inapplicable (.scopeMismatch q.scope o.kind)
  else if q.isPurpose then .purpose Answer.placeholder
  else match q.topic? with
    | none => .inapplicable (.unknownQuestion q.id)
    | some topic => match a.topicAnswer? id o topic with
      | some text => .text text
      | none => .inapplicable (.topicMismatch topic o.kind)

def answer (a : Analysis) (q : Question) (id : ObjectId) : Answer :=
  match a.model.get? id with
  | some o => a.answerFor q id o
  | none => .inapplicable (.missingObject id)

/-- The question as it is asked about the object. -/
def instruction (a : Analysis) (q : Question) (id : ObjectId) : String :=
  match a.model.get? id with
  | some o => q.render a.model o
  | none => q.text

/-- The name of the object that a record is about; the file itself needs none. -/
def input (a : Analysis) (id : ObjectId) : String :=
  match a.model.get? id with
  | some o => if o.kind == .module then "" else o.qualifiedName
  | none => ""

end Analysis

end SourceCorpus
