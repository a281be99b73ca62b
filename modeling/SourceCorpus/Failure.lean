import SourceCorpus.Extraction.Extract

/-!
What can go wrong, and how it is worded. A fault in the configuration ends a run; a source with a
syntax error, a failed generation and an earlier dataset that cannot be used only concern one file.
-/

namespace SourceCorpus

/-- Why a file could not be read. -/
inductive ReadFault where
  | notFound
  | notDirectory
  | isDirectory
  | notText
  deriving DecidableEq, Repr

def ReadFault.text : ReadFault → String
  | notFound => "No such file or directory (os error 2)"
  | notDirectory => "Not a directory (os error 20)"
  | isDirectory => "Is a directory (os error 21)"
  | notText => "stream did not contain valid UTF-8"

inductive ConfigFault where
  | emptyBank
  | tooManyQuestions (count limit : Nat)
  | blankQuestionId
  | duplicateQuestionId (id : String)
  | badQuestionText (id : String)
  | missingPlaceholder (mark : String)
  | zeroContextLength
  | noModelConfig
  | noCommand (path : String)
  | unreadableBank (path : String) (fault : ReadFault)
  | unreadableModelConfig (path : String) (fault : ReadFault)
  deriving DecidableEq, Repr

def ConfigFault.text : ConfigFault → String
  | emptyBank => "question bank is empty"
  | tooManyQuestions count limit =>
    s!"question bank has {count} questions, at most {limit} are allowed"
  | blankQuestionId => "question with an empty id"
  | duplicateQuestionId id => "duplicate question id `" ++ id ++ "`"
  | badQuestionText id => "question `" ++ id ++ "` has an empty or oversized text"
  | missingPlaceholder mark => "prompt_template must contain " ++ mark
  | zeroContextLength => "context_length must be positive"
  | noModelConfig => "augmentation requires a model configuration"
  | noCommand path => "model configuration " ++ path ++ " has no generator command"
  | unreadableBank path fault => "cannot read question bank " ++ path ++ ": " ++ fault.text
  | unreadableModelConfig path fault => "cannot read model config " ++ path ++ ": " ++ fault.text

/-- The message for a configuration that is wrong for the reason. -/
def configMessage (reason : String) : String := "Configuration error: " ++ reason

def positionSuffix : Option Nat → Option Nat → String
  | some line, some column => s!" at {line}:{column}"
  | some line, none => s!" at line {line}"
  | none, _ => ""

def ParseError.text (e : ParseError) : String :=
  "Parse error in " ++ e.file ++ positionSuffix e.line e.column ++ ": " ++ e.message

/-- A whole number of thousandths as a decimal without zeros at its end. -/
def thousandths (n : Nat) : String :=
  let digits := [n % 1000 / 100, n % 100 / 10, n % 10].reverse.dropWhile (· = 0)
  let fraction := String.join (digits.reverse.map toString)
  toString (n / 1000) ++ (if fraction = "" then "" else "." ++ fraction)

/-- The text of a time in milliseconds, in the largest unit that it fills. -/
def durationText (milliseconds : Nat) : String :=
  if milliseconds = 0 then "0ns"
  else if milliseconds < 1000 then toString milliseconds ++ "ms"
  else thousandths milliseconds ++ "s"

inductive GenerationFailure where
  | timeout (milliseconds : Nat)
  | provider (reason : String)
  | malformedOutput (reason : String)
  | contextOverflow (required available : Nat)
  deriving DecidableEq, Repr

def GenerationFailure.text : GenerationFailure → String
  | timeout milliseconds => "Generation timed out after " ++ durationText milliseconds
  | provider reason => "Provider error: " ++ reason
  | malformedOutput reason => "Malformed provider output: " ++ reason
  | contextOverflow required available =>
    s!"Prompt needs {required} tokens but only {available} fit the context window"

/-- Why the stored dataset of a file cannot be used. -/
inductive PriorFault where
  | missing (file : String)
  | unreadable (file : String) (fault : ReadFault)
  | corrupt (file : String) (reason : String)
  deriving DecidableEq, Repr

def PriorFault.text : PriorFault → String
  | missing file => "Prior dataset for " ++ file ++ " is missing"
  | unreadable file fault => "Prior dataset for " ++ file ++ " is unreadable: " ++ fault.text
  | corrupt file reason => "Prior dataset for " ++ file ++ " is corrupt: " ++ reason

inductive RunFault where
  | config (fault : ConfigFault)
  /-- A question bank is not the JSON text of one. -/
  | json
  /-- A model configuration is not the YAML text of one. -/
  | yaml
  /-- A file could not be written. -/
  | io
  deriving DecidableEq, Repr

end SourceCorpus
