import SourceCorpus.Config.Limits
import SourceCorpus.Failure
import SourceCorpus.Text.Replace
import SourceCorpus.Yaml.Field

/-!
The configuration of a generator, as it is read from YAML. A field that is left out has its default.
-/

namespace SourceCorpus

open Yaml (Node)

structure ModelParams where
  contextLength : Nat
  maxNewTokens : Nat
  threads : Nat
  /-- Whether every call starts without what was said before. -/
  reset : Bool
  timeoutSeconds : Nat
  deriving DecidableEq, Repr

namespace ModelParams

def default : ModelParams :=
  ⟨Limits.defaultContextLength, Limits.defaultMaxNewTokens, 4, true, Limits.defaultTimeoutSeconds⟩

def ofYaml? (n : Node) : Option ModelParams := do
  match ← n.fields? ["context_length", "max_new_tokens", "threads", "reset", "timeout_secs"] with
  | [contextLength, maxNewTokens, threads, reset, timeout] =>
    return {
      contextLength := ← Node.orDefault Node.natural? default.contextLength contextLength
      maxNewTokens := ← Node.orDefault Node.natural? default.maxNewTokens maxNewTokens
      threads := ← Node.orDefault Node.natural? default.threads threads
      reset := ← Node.orDefault Node.truth? default.reset reset
      timeoutSeconds := ← Node.orDefault Node.natural? default.timeoutSeconds timeout }
  | _ => none

end ModelParams

structure InferenceModel where
  modelPath : String
  /-- The program of the generator and its arguments. -/
  command : List String
  params : ModelParams
  deriving DecidableEq, Repr

namespace InferenceModel

def default : InferenceModel := ⟨"", [], .default⟩

def ofYaml? (n : Node) : Option InferenceModel := do
  match ← n.fields? ["model_path", "command", "model_params"] with
  | [modelPath, command, params] =>
    let texts (n : Node) : Option (List String) := do (← n.items?).mapM Node.text?
    return {
      modelPath := ← Node.orDefault Node.text? default.modelPath modelPath
      command := ← Node.orDefault texts default.command command
      params := ← Node.orDefault ModelParams.ofYaml? default.params params }
  | _ => none

end InferenceModel

structure ModelConfig where
  promptTemplate : String
  inference : InferenceModel
  deriving DecidableEq, Repr

/-- What a generator is used with. -/
structure GenerationSettings where
  promptTemplate : String
  contextLength : Nat
  timeoutMilliseconds : Nat
  reset : Bool
  deriving DecidableEq, Repr

structure CommandLine where
  program : String
  arguments : List String
  deriving DecidableEq, Repr

namespace ModelConfig

def defaultTemplate : String :=
  "Provide a concise and comprehensive explanation of the Python code below.\n\n" ++
  "Context:\n{context}" ++
    "\n\nQuestion: {query}\n\nAnswer:"

def default : ModelConfig := ⟨defaultTemplate, .default⟩

def ofYaml? (n : Node) : Option ModelConfig := do
  match ← n.fields? ["prompt_template", "inference_model"] with
  | [template, inference] =>
    return {
      promptTemplate := ← Node.orDefault Node.text? default.promptTemplate template
      inference := ← Node.orDefault InferenceModel.ofYaml? default.inference inference }
  | _ => none

/-- What is wrong with a configuration: its template has to have both marks, and its context has to
have a length. -/
def fault? (c : ModelConfig) : Option ConfigFault :=
  if !Text.contains c.promptTemplate "{context}" then some (.missingPlaceholder "{context}")
  else if !Text.contains c.promptTemplate "{query}" then some (.missingPlaceholder "{query}")
  else if c.inference.params.contextLength = 0 then some .zeroContextLength
  else none

def ofText (text : String) : Except RunFault ModelConfig :=
  match (Node.parse? text).bind ofYaml? with
  | none => .error .yaml
  | some config => match config.fault? with
    | some fault => .error (.config fault)
    | none => .ok config

def settings (c : ModelConfig) : GenerationSettings :=
  { promptTemplate := c.promptTemplate
    contextLength := Limits.clampContextLength c.inference.params.contextLength
    timeoutMilliseconds := 1000 * Limits.clampTimeoutSeconds c.inference.params.timeoutSeconds
    reset := c.inference.params.reset }

/-- The marks that arguments may hold and their values, in the order in which they are replaced. -/
def argumentMarks (c : ModelConfig) : List (String × String) :=
  [("{model}", c.inference.modelPath), ("{threads}", toString c.inference.params.threads),
    ("{context_length}", toString c.inference.params.contextLength),
    ("{max_new_tokens}", toString c.inference.params.maxNewTokens)]

/-- The command of the generator, if there is one. Marks in its arguments are replaced. -/
def command? (c : ModelConfig) : Option CommandLine :=
  match c.inference.command with
  | [] => none
  | program :: arguments => some ⟨program, arguments.map fun argument =>
      c.argumentMarks.foldl (fun text (mark, value) => Text.replace text mark value) argument⟩

end ModelConfig

end SourceCorpus
