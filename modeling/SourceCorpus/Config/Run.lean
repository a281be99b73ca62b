import SourceCorpus.Config.Limits
import SourceCorpus.Text.Blank

/-!
The configuration of a run: its defaults, and the variables of the environment that override them. A
blank variable is ignored, and so is one whose value makes no sense.
-/

namespace SourceCorpus

/-- Which stored datasets may be used again. -/
inductive Validity where
  /-- Any. -/
  | existence
  /-- Those that were made from the same source text. -/
  | contentHash
  deriving DecidableEq, Repr

/-- The text without blanks at either end, its capital letters of ASCII as small ones. No other
letter has a letter of the words below as its small one. -/
def foldedWord (text : String) : String := (Text.trim text).map Char.toLower

/-- What a text says: four words say no, and all else says yes. -/
def readTruth (text : String) : Bool := foldedWord text ∉ ["0", "false", "no", "off"]

def Validity.ofText? (text : String) : Option Validity :=
  match (foldedWord text).map fun c => if c = '-' then '_' else c with
  | "existence" | "exists" => some .existence
  | "content_hash" | "hash" | "sha256" => some .contentHash
  | _ => none

structure RunConfig where
  /-- The file or directory with the sources. -/
  start : String
  outputDirectory : String
  /-- The file of a question bank; without one the bank is the built-in one. -/
  questionsPath : Option String
  modelConfigPath : Option String
  useGenerator : Bool
  detailed : Bool
  singleWorker : Bool
  /-- Whether stored datasets may be used again. -/
  reuse : Bool
  workers : Option Nat
  validity : Validity
  deriving DecidableEq, Repr

/-- The number in decimal digits, with a sign or without, if it has 64 bits at most. -/
def readInteger? (text : String) : Option Int := do
  let (negative, digits) := match text.toList with
    | '-' :: digits => (true, digits)
    | '+' :: digits => (false, digits)
    | digits => (false, digits)
  if digits.isEmpty || !digits.all (fun c => '0' ≤ c && c ≤ '9') then none
  let n : Nat := digits.foldl (fun n c => n * 10 + (c.toNat - 48)) 0
  let i : Int := if negative then -n else n
  if Int64.minValue.toInt ≤ i ∧ i ≤ Int64.maxValue.toInt then some i else none

namespace RunConfig

def default : RunConfig :=
  { start := ".", outputDirectory := "datasets", questionsPath := none, modelConfigPath := none
    useGenerator := false, detailed := false, singleWorker := false, reuse := false
    workers := none, validity := .existence }

/-- The value of a variable without blanks at its ends, if anything is left. -/
def settingOf? (environment : String → Option String) (name : String) : Option String :=
  ((environment ("PY2DATASET_" ++ name)).map Text.trim).filter (· != "")

def readWorkers? (text : String) : Option Nat :=
  (readInteger? text).map fun n => (Limits.clampInt n 1 Limits.maxWorkers).toNat

/-- The configuration with what the environment says. -/
def override (c : RunConfig) (environment : String → Option String) : RunConfig :=
  let get := settingOf? environment
  let flag (name : String) (old : Bool) : Bool := ((get name).map readTruth).getD old
  { start := (get "START").getD c.start
    outputDirectory := (get "OUTPUT_DIR").getD c.outputDirectory
    questionsPath := get "QUESTIONS" <|> c.questionsPath
    modelConfigPath := get "MODEL_CONFIG" <|> c.modelConfigPath
    useGenerator := flag "USE_LLM" c.useGenerator
    detailed := flag "DETAILED" c.detailed
    singleWorker := flag "SINGLE_PROCESS" c.singleWorker
    reuse := flag "SKIP_REGEN" c.reuse
    workers := (get "WORKERS").bind readWorkers? <|> c.workers
    validity := ((get "CACHE_VALIDITY").bind Validity.ofText?).getD c.validity }

/-- How many workers a run has; `none` if that is left to the machine. -/
def workerCount? (c : RunConfig) : Option Nat :=
  if c.singleWorker then some 1 else c.workers.map Limits.clampWorkers

end RunConfig

end SourceCorpus
