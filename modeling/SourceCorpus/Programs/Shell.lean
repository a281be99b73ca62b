import SourceCorpus.Programs.Script
import SourceCorpus.Programs.Utility
import SourceCorpus.Text.Replace

/-!
Running scripts. A shell keeps variables, reads one input, and collects what its commands write; a
command that ends the shell leaves the rest of the script undone. The words that divide a
conditional are run like commands: they decide which of the commands behind them are left out.
-/

namespace SourceCorpus.Programs

/-- A conditional that is being run. -/
structure Branch where
  /-- Whether what is around it is run. -/
  reached : Bool
  /-- Whether one of its conditions was met. -/
  met : Bool
  /-- Whether its current part is run. -/
  running : Bool
  deriving DecidableEq, Repr

structure Shell where
  environment : Environment
  input : Bytes
  output : Bytes
  messages : Bytes
  /-- The status of the latest command. -/
  code : Nat
  /-- How the shell ended, if it did. -/
  ended? : Option ExitStatus
  milliseconds : Nat
  /-- The conditionals around the current step, the innermost first. -/
  branches : List Branch

namespace Shell

def start (environment : Environment) (input : Bytes) : Shell :=
  ⟨environment, input, [], [], 0, none, 0, []⟩

/-- The name under which a shell knows itself. -/
def ownNumber : String := "4242"

def valueOf (s : Shell) : String → String
  | "$" => ownNumber
  | "?" => toString s.code
  | name => (s.environment.lookup name).getD ""

/-- The text that stands for a variable. -/
def textOf (s : Shell) (name : String) : VariableForm → String
  | .value => s.valueOf name
  | .valueOr text => if s.valueOf name = "" then text else s.valueOf name
  | .whenSet text => if s.valueOf name = "" then "" else text

def assign (s : Shell) (name value : String) : Shell :=
  { s with environment := (name, value) :: s.environment }

def toExecution (s : Shell) : Execution :=
  ⟨s.output, s.messages, s.ended?.getD (.code s.code), s.milliseconds⟩

/-- The words of a text between blanks. -/
def wordsOf (text : String) : List String :=
  ((Text.splitChar ' ' (text.toList.map fun c => if c = '\n' ∨ c = '\t' then ' ' else c)).filter
    (· ≠ [])).map String.ofList

/-- The words with a text behind the last. -/
def appendToLast (words : List String) (text : String) : List String :=
  match words.getLast? with
  | some last => words.dropLast ++ [last ++ text]
  | none => [text]

/-- The words with a value behind them that is cut at its blanks. -/
def appendCut (words : List String) (value : String) : List String :=
  match wordsOf value with
  | [] => words
  | first :: more => appendToLast words first ++ more

def dropLineFeeds (text : String) : String :=
  String.ofList (text.toList.reverse.dropWhile (· = '\n')).reverse

/-- Whether a word gives a variable a value: its name, and the rest of the word. -/
def assignment? : Word → Option (String × Word)
  | .text text :: parts =>
    let name := text.toList.takeWhile ScriptReader.isNameChar
    match text.toList.drop name.length with
    | '=' :: rest =>
      if name = [] then none
      else some (String.ofList name, .text (String.ofList rest) :: parts)
    | _ => none
  | _ => none

/-- Where what a command writes ends up. -/
inductive Sink where
  | output | messages | nowhere
  deriving DecidableEq, Repr

/-- Where the output and the messages of a command end up. -/
def redirect (sinks : Sink × Sink) : List (Nat × RedirectionTarget) → Sink × Sink
  | [] => sinks
  | (1, .channel 2) :: rest => redirect (sinks.2, sinks.2) rest
  | (2, .channel 1) :: rest => redirect (sinks.1, sinks.1) rest
  | (1, .file _) :: rest => redirect (.nowhere, sinks.2) rest
  | (2, .file _) :: rest => redirect (sinks.1, .nowhere) rest
  | _ :: rest => redirect sinks rest

def writeTo (s : Shell) (bytes : Bytes) : Sink → Shell
  | .output => { s with output := s.output ++ bytes }
  | .messages => { s with messages := s.messages ++ bytes }
  | .nowhere => s

/-- The shell after a utility that left an effect. -/
def record (s : Shell) (redirections : List (Nat × RedirectionTarget)) (e : Effect) : Shell :=
  let sinks := redirect (.output, .messages) redirections
  let s := (s.writeTo e.output sinks.1).writeTo e.messages sinks.2
  let kept := redirections.any fun (channel, _) => channel == 0
  { s with
    code := e.code
    milliseconds := s.milliseconds + e.milliseconds
    input := if kept then s.input else e.input }

def endWith (s : Shell) (status : ExitStatus) : Shell := { s with ended? := some status }

/-- The number of a signal by its number or its name. -/
def signalOf (text : String) : Nat :=
  let name := (Text.stripStart? "SIG" text).getD text
  match ExitStatus.signalNames.find? fun (_, other) => other == name with
  | some (number, _) => number
  | none => numberOf text

/-- Sends a signal; the shell itself is all that can be reached. -/
def sendSignal (s : Shell) (signal : Nat) (target : String) : Shell :=
  if target = ownNumber ∧ signal ≠ 0 then s.endWith (.signal signal) else { s with code := 0 }

def kill (s : Shell) : List String → Shell
  | ["-s", signal, target] => s.sendSignal (signalOf signal) target
  | [option, target] => s.sendSignal (signalOf (String.ofList (option.toList.drop 1))) target
  | [target] => s.sendSignal 15 target
  | _ => { s with code := 1 }

/-- Reads a line of the input into a variable. -/
def readLine (s : Shell) (name : String) : Shell :=
  match linesOf s.input with
  | [] => { s.assign name "" with code := 1 }
  | line :: _ =>
    { s.assign name (Text.trim (Utf8.decodeLossy line)) with
      input := s.input.drop line.length
      code := 0 }

def exit (s : Shell) : List String → Shell
  | [] => s.endWith (.code s.code)
  | code :: _ => s.endWith (.code (numberOf code % 256))

/-- The name of a utility without the directory that utilities stand in. -/
def utilityName (name : String) : String :=
  (Text.stripStart? "/usr/bin/" name <|> Text.stripStart? "/bin/" name).getD name

def runUtility (s : Shell) (redirections : List (Nat × RedirectionTarget)) (name : String)
    (arguments : List String) : Shell :=
  match utility? .octal (utilityName name) with
  | some run => s.record redirections (run arguments s.environment s.input)
  | none => s.record redirections (.fault ("sh: 1: " ++ name ++ ": not found") 127 s.input)

/-- Runs a command whose words are known. -/
def runWords (s : Shell) (redirections : List (Nat × RedirectionTarget)) : List String → Shell
  | [] => { s with code := 0 }
  | "exit" :: arguments => s.exit arguments
  | "kill" :: arguments => s.kill arguments
  | "read" :: arguments =>
    s.readLine ((arguments.filter fun name => !name.startsWith "-").headD "REPLY")
  | "export" :: _ | "set" :: _ | "unset" :: _ => { s with code := 0 }
  | "exec" :: name :: arguments =>
    let t := s.runUtility redirections name arguments
    t.endWith (.code t.code)
  | name :: arguments => s.runUtility redirections name arguments

/-- Whether a step is run after the latest command. -/
def meets (s : Shell) : StepCondition → Bool
  | .always => true
  | .afterSuccess => s.code == 0
  | .afterFailure => s.code != 0

/-- The texts that a word stands for behind others. Scripts inside it are run by `inner`. -/
def expand (inner : Shell → String → Shell) (s : Shell) : List String → Word → List String
  | words, [] => words
  | words, .text text :: parts => expand inner s (appendToLast words text) parts
  | words, .variable name form quoted :: parts =>
    expand inner s ((if quoted then appendToLast else appendCut) words (s.textOf name form)) parts
  | words, .outputOf script quoted :: parts =>
    let output := (inner { s with output := [] } script).output
    let text := dropLineFeeds (Utf8.decodeLossy output)
    expand inner s ((if quoted then appendToLast else appendCut) words text) parts

/-- Gives variables their values. -/
def assignAll (inner : Shell → String → Shell) (s : Shell) : List (String × Word) → Shell
  | [] => s
  | (name, word) :: rest =>
    assignAll inner (s.assign name ((expand inner s [""] word).headD "")) rest

/-- Runs a command. Values that stand before its words are for the command alone; without words they
stay. -/
def runCommand (inner : Shell → String → Shell) (s : Shell) (c : SimpleCommand) : Shell :=
  let settings := ((c.words.map assignment?).takeWhile Option.isSome).filterMap id
  let assigned := assignAll inner s settings
  match (c.words.drop settings.length).flatMap (expand inner s []) with
  | [] => { assigned with code := 0 }
  | words =>
    let t := assigned.runWords c.redirections words
    if settings.isEmpty then t else { t with environment := s.environment }

/-- Runs commands of which each feeds the next. Only the status of the last one counts, and one that
feeds another or is fed cannot end the shell. -/
def runPipeline (inner : Shell → String → Shell) (s : Shell) : List SimpleCommand → Shell
  | [] => s
  | [c] => runCommand inner s c
  | c :: more =>
    let first := runCommand inner { s with output := [] } c
    let fed := { first with input := first.output, output := s.output, ended? := none }
    let last := runPipeline inner fed more
    let code := match last.ended? with
      | some (.code code) => code
      | _ => last.code
    { last with input := [], code := code, ended? := none }

/-- Whether steps are run, and not left out by a conditional. -/
def isRunning (s : Shell) : Bool := s.branches.head?.all (·.running)

/-- The shell behind a word that divides a conditional, if it is one. -/
def divide? (s : Shell) (condition : StepCondition) (word : Word) : Option Shell :=
  match word, s.branches with
  | [.text "if"], branches =>
    let reached := s.isRunning && s.meets condition
    some { s with branches := ⟨reached, false, reached⟩ :: branches }
  | [.text "then"], branch :: branches =>
    let held := branch.running && s.code == 0
    some { s with branches := ⟨branch.reached, branch.met || held, held⟩ :: branches }
  | [.text "elif"], branch :: branches | [.text "else"], branch :: branches =>
    some { s with branches := { branch with running := branch.reached && !branch.met } :: branches }
  | [.text "fi"], branch :: branches =>
    let code := if branch.reached && !branch.met && !branch.running then 0 else s.code
    some { s with branches := branches, code := code }
  | [.text "\x7b"], _ | [.text "\x7d"], _ => some s
  | _, _ => none

/-- Runs commands behind the words that divide a conditional. -/
def runDivided (inner : Shell → String → Shell) (condition : StepCondition) (s : Shell)
    (redirections : List (Nat × RedirectionTarget)) (more : List SimpleCommand) :
    List Word → Shell
  | [] => s
  | word :: words =>
    match s.divide? condition word with
    | some s => runDivided inner .always s redirections more words
    | none =>
      if !s.isRunning || !s.meets condition then s
      else if word = [.text "!"] then
        let s := runPipeline inner s (⟨words, redirections⟩ :: more)
        { s with code := if s.code = 0 then 1 else 0 }
      else runPipeline inner s (⟨word :: words, redirections⟩ :: more)

/-- Runs the steps of a script until one of them ends the shell. -/
def runSteps (inner : Shell → String → Shell) (s : Shell) : List ScriptStep → Shell
  | [] => s
  | step :: steps =>
    if s.ended?.isSome then s
    else match step.commands with
      | [] => runSteps inner s steps
      | c :: more =>
        runSteps inner (runDivided inner step.condition s c.redirections more c.words) steps

/-- Runs a script. Scripts inside of others are run down to `depth` levels. -/
def runScript : Nat → Shell → String → Shell
  | 0, s, _ => s
  | depth + 1, s, script => runSteps (runScript depth) s (readScript script)

end Shell

/-- The arguments of a script by their places, the name of the shell first. -/
def placeVariables (arguments : List String) : Environment :=
  arguments.zipIdx.map fun (argument, place) => (toString place, argument)

def shell (arguments : List String) (environment : Environment) (input : Bytes) : Execution :=
  match arguments with
  | "-c" :: script :: arguments =>
    let arguments := if arguments.isEmpty then ["sh"] else arguments
    let environment := placeVariables arguments ++ environment
    (Shell.runScript (script.length + 1) (.start environment input) script).toExecution
  | _ =>
    let script := Utf8.decodeLossy input
    (Shell.runScript (script.length + 1) (.start environment []) script).toExecution

/-- A system with a shell and a few utilities. -/
def system : System := fun command environment input =>
  match Shell.utilityName command.program with
  | "sh" | "dash" | "bash" => some (shell command.arguments environment input)
  | ":" => none
  | name => (utility? .hexadecimal name).map fun run =>
    let effect := run command.arguments environment input
    ⟨effect.output, effect.messages, .code effect.code, effect.milliseconds⟩

end SourceCorpus.Programs
