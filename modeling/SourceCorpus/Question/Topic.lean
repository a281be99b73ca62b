import SourceCorpus.Text.Replace

/-!
What a question asks about. The identifier of a question names it, alone or after a prefix that says
whom the question is about.
-/

namespace SourceCorpus

inductive Topic where
  | dependencies | codeGraph | functions | classes | constants | assignedNames | docstring | summary
  | inputs | parameterCount | calls | callers | returns | returnType | decorators
  | nestedDefinitions | methods | methodCount | attributes | inheritance | subclasses
  | instantiations | purpose
  deriving DecidableEq, Repr

namespace Topic

/-- Every topic with its name in the identifiers of questions. -/
def names : List (String × Topic) :=
  [("dependencies", dependencies), ("code_graph", codeGraph), ("functions", functions),
    ("classes", classes), ("constants", constants), ("variables", assignedNames),
    ("docstring", docstring), ("summary", summary), ("inputs", inputs),
    ("parameter_count", parameterCount), ("calls", calls), ("callers", callers),
    ("returns", returns), ("return_annotation", returnType), ("decorators", decorators),
    ("nested_definitions", nestedDefinitions), ("methods", methods),
    ("method_count", methodCount), ("attributes", attributes), ("inheritance", inheritance),
    ("subclasses", subclasses), ("instantiations", instantiations), ("purpose", purpose)]

def name (a : Topic) : String :=
  match names.find? (·.2 == a) with
  | some (name, _) => name
  | none => ""

def idPrefixes : List String :=
  ["file_", "entire_", "function_", "standalone_", "class_", "method_"]

/-- The identifier without the first of the prefixes that it has. -/
def withoutPrefix (id : String) : String :=
  (idPrefixes.findSome? fun start => Text.stripStart? start id).getD id

/-- The topic that a question with the identifier asks about. -/
def ofQuestionId? (id : String) : Option Topic := names.lookup (withoutPrefix id)

end Topic

end SourceCorpus
