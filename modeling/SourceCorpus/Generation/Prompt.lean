import SourceCorpus.Config.Limits
import SourceCorpus.Dataset.Record
import SourceCorpus.Failure
import SourceCorpus.Text.Blank
import SourceCorpus.Text.Lines

/-!
Prompts. A template says where the context and the query stand; the context is the code and what was
answered about its file before. Of four forms of the code the first that fits is taken.
-/

namespace SourceCorpus

/-- A template, cut at its two marks. -/
inductive TemplatePart where
  | char (c : Char)
  | context
  | query
  deriving DecidableEq, Repr

/-- The parts of a template. Both marks are written in braces, and all else is text. -/
def templateParts : List Char → List TemplatePart
  | '{' :: 'c' :: 'o' :: 'n' :: 't' :: 'e' :: 'x' :: 't' :: '}' :: rest =>
    .context :: templateParts rest
  | '{' :: 'q' :: 'u' :: 'e' :: 'r' :: 'y' :: '}' :: rest => .query :: templateParts rest
  | c :: rest => .char c :: templateParts rest
  | [] => []

def TemplatePart.fill (context query : List Char) : TemplatePart → List Char
  | .char c => [c]
  | .context => context
  | .query => query

/-- The template with the values in place of its marks; marks inside the values are text. -/
def fillTemplate (template context query : String) : String :=
  String.ofList
    ((templateParts template.toList).flatMap (TemplatePart.fill context.toList query.toList))

/-- The lines of a source that are neither blank nor comments. -/
def simplifySource (source : String) : String :=
  let keep (line : List Char) : Bool :=
    match Text.trimStartChars line with
    | [] => false
    | c :: _ => c != '#'
  String.ofList (Text.joinWith ['\n'] ((Text.lines source.toList).filter keep))

def questionAndAnswer (r : Record) : String := "Q: " ++ r.instruction ++ " \nA: " ++ r.output

/-- What was answered before, as it stands in a prompt. -/
def codeQa (records : List Record) : String := "\n".intercalate (records.map questionAndAnswer)

/-- What a prompt can be made of. -/
structure PromptMaterial where
  objectSource : String
  simplifiedSource : String
  fileSummary : String
  /-- What was answered about the file before. -/
  codeQa : String
  deriving DecidableEq, Repr

namespace PromptMaterial

def fenced (code : String) : String := "```python\n" ++ code ++ "\n```"

/-- The forms of the code, the richest first. -/
def codes (p : PromptMaterial) : List String :=
  [fenced p.objectSource, fenced p.simplifiedSource, p.fileSummary, ""]

def contextWith (p : PromptMaterial) (code : String) : String :=
  code ++ "\nCODE Q and A:\n" ++ p.codeQa

def prompts (p : PromptMaterial) (template query : String) : List String :=
  p.codes.map fun code => fillTemplate template (p.contextWith code) query

end PromptMaterial

/-- The first prompt that fits, or by how much the last does not. -/
def firstFitting (available : Nat) : Nat → List String → Except GenerationFailure String
  | required, [] => .error (.contextOverflow required available)
  | _, prompt :: prompts =>
    let required := Limits.estimateTokens prompt
    if required ≤ available then .ok prompt else firstFitting available required prompts

def buildPrompt (template query : String) (material : PromptMaterial) (contextLength : Nat) :
    Except GenerationFailure String :=
  firstFitting (Limits.contextBudget contextLength) 0 (material.prompts template query)

end SourceCorpus
