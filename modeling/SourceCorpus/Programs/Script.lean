import SourceCorpus.Programs.Basic
import SourceCorpus.Text.Lines

/-!
Scripts of a shell: commands that follow one another or feed one another. Reading a script is a walk
over its characters; what a character means depends on the quotes around it.
-/

namespace SourceCorpus.Programs

/-- What stands for a variable. -/
inductive VariableForm where
  | value
  /-- The text if there is no value. -/
  | valueOr (text : String)
  /-- The text if there is a value. -/
  | whenSet (text : String)
  deriving DecidableEq, Repr

inductive WordPart where
  /-- Text, as it stands between quotes or outside of them. -/
  | text (text : String)
  /-- The value of a variable; without quotes it is cut at blanks. -/
  | variable (name : String) (form : VariableForm) (quoted : Bool)
  /-- What a script writes. -/
  | outputOf (script : String) (quoted : Bool)
  deriving DecidableEq, Repr

abbrev Word := List WordPart

inductive ScriptToken where
  | word (word : Word)
  | operator (text : String)
  /-- Where a channel of a command leads; the channel is told by its number. -/
  | redirection (channel : Nat)
  deriving DecidableEq, Repr

/-- Where in a script a character stands. -/
inductive ScriptMode where
  | plain
  | comment
  | single
  | double
  | escaped (quoted : Bool)
  | dollar (quoted : Bool)
  | name (name : String) (quoted : Bool)
  | braced (name : String) (quoted : Bool)
  | nested (depth : Nat) (script : String) (quoted : Bool)
  deriving DecidableEq, Repr

/-- A script that is read up to some character. -/
structure ScriptReader where
  /-- The tokens so far, the latest first. -/
  tokens : List ScriptToken
  /-- The word that is being read, its latest part first. -/
  word? : Option Word
  mode : ScriptMode
  deriving DecidableEq, Repr

namespace ScriptReader

def start : ScriptReader := ⟨[], none, .plain⟩

def addText (r : ScriptReader) (text : String) : ScriptReader :=
  match r.word? with
  | some (.text before :: parts) => { r with word? := some (.text (before ++ text) :: parts) }
  | word? => { r with word? := some (.text text :: word?.getD []) }

def addPart (r : ScriptReader) (part : WordPart) : ScriptReader :=
  { r with word? := some (part :: r.word?.getD []) }

def endWord (r : ScriptReader) : ScriptReader :=
  match r.word? with
  | none => r
  | some parts => { r with tokens := .word parts.reverse :: r.tokens, word? := none }

/-- Ends the word with an operator. Two of the same, without a word between them, are one. -/
def addOperator (r : ScriptReader) (c : Char) : ScriptReader :=
  let text := String.singleton c
  match r.word?, r.tokens with
  | none, .operator before :: tokens =>
    if before = text && c ≠ '\n' then { r with tokens := .operator (text ++ text) :: tokens }
    else { r with tokens := .operator text :: r.tokens }
  | _, _ => let r := r.endWord; { r with tokens := .operator text :: r.tokens }

/-- Begins a redirection. A number directly before it tells the channel. -/
def addRedirection (r : ScriptReader) (channel : Nat) : ScriptReader :=
  match r.word? with
  | some [.text "1"] => { r with tokens := .redirection 1 :: r.tokens, word? := none }
  | some [.text "2"] => { r with tokens := .redirection 2 :: r.tokens, word? := none }
  | _ => let r := r.endWord; { r with tokens := .redirection channel :: r.tokens }

def isNameChar (c : Char) : Bool := c.isAlphanum || c == '_'

/-- The mode inside quotes, or outside of them. -/
def modeIn (quoted : Bool) : ScriptMode := if quoted then .double else .plain

def readPlain (r : ScriptReader) (c : Char) : ScriptReader :=
  match c with
  | '\'' => { r.addText "" with mode := .single }
  | '"' => { r.addText "" with mode := .double }
  | '\\' => { r with mode := .escaped false }
  | '$' => { r with mode := .dollar false }
  | ' ' | '\t' => r.endWord
  | ';' | '&' | '|' | '\n' => r.addOperator c
  | '>' => r.addRedirection 1
  | '<' => r.addRedirection 0
  | '#' => if r.word?.isNone then { r with mode := .comment } else r.addText "#"
  | c => r.addText (String.singleton c)

def readDouble (r : ScriptReader) (c : Char) : ScriptReader :=
  match c with
  | '"' => { r with mode := .plain }
  | '\\' => { r with mode := .escaped true }
  | '$' => { r with mode := .dollar true }
  | c => r.addText (String.singleton c)

def readIn (quoted : Bool) (r : ScriptReader) (c : Char) : ScriptReader :=
  let r := { r with mode := modeIn quoted }
  if quoted then r.readDouble c else r.readPlain c

/-- The character behind a backslash. Inside quotes a backslash before most characters is itself. -/
def readEscaped (quoted : Bool) (r : ScriptReader) (c : Char) : ScriptReader :=
  let r := { r with mode := modeIn quoted }
  if c = '\n' then r
  else if quoted ∧ c ∉ ['"', '\\', '$', '\x60'] then
    r.addText (String.ofList ['\\', c])
  else r.addText (String.singleton c)

def readDollar (quoted : Bool) (r : ScriptReader) (c : Char) : ScriptReader :=
  if c = '{' then { r with mode := .braced "" quoted }
  else if c = '(' then { r with mode := .nested 0 "" quoted }
  else if ['$', '?', '#', '@', '*'].contains c || c.isDigit then
    { r.addPart (.variable (String.singleton c) .value quoted) with mode := modeIn quoted }
  else if isNameChar c then { r with mode := .name (String.singleton c) quoted }
  else readIn quoted (r.addText "$") c

/-- A variable in braces, perhaps with what stands in its place. -/
def bracedVariable (content : String) (quoted : Bool) : WordPart :=
  let name := content.toList.takeWhile isNameChar
  let form := match content.toList.drop name.length with
    | ':' :: '-' :: text | '-' :: text => .valueOr (String.ofList text)
    | ':' :: '+' :: text | '+' :: text => .whenSet (String.ofList text)
    | _ => .value
  .variable (if form = .value then content else String.ofList name) form quoted

def readNested (depth : Nat) (script : String) (quoted : Bool) (r : ScriptReader) (c : Char) :
    ScriptReader :=
  match depth, c with
  | 0, ')' => { r.addPart (.outputOf script quoted) with mode := modeIn quoted }
  | depth + 1, ')' => { r with mode := .nested depth (script.push c) quoted }
  | depth, '(' => { r with mode := .nested (depth + 1) (script.push c) quoted }
  | depth, c => { r with mode := .nested depth (script.push c) quoted }

def read (r : ScriptReader) (c : Char) : ScriptReader :=
  match r.mode with
  | .plain => r.readPlain c
  | .comment => if c = '\n' then { r with mode := .plain }.readPlain c else r
  | .single => if c = '\'' then { r with mode := .plain } else r.addText (String.singleton c)
  | .double => r.readDouble c
  | .escaped quoted => readEscaped quoted r c
  | .dollar quoted => readDollar quoted r c
  | .name name quoted =>
    if isNameChar c then { r with mode := .name (name.push c) quoted }
    else readIn quoted (r.addPart (.variable name .value quoted)) c
  | .braced name quoted =>
    if c = '}' then { r.addPart (bracedVariable name quoted) with mode := modeIn quoted }
    else { r with mode := .braced (name.push c) quoted }
  | .nested depth script quoted => readNested depth script quoted r c

/-- What stands at the end of a script. -/
def finish (r : ScriptReader) : List ScriptToken :=
  let r := match r.mode with
    | .name name quoted => r.addPart (.variable name .value quoted)
    | .dollar _ => r.addText "$"
    | .escaped _ => r.addText "\\"
    | _ => r
  r.endWord.tokens.reverse

end ScriptReader

def scriptTokens (script : String) : List ScriptToken :=
  (script.toList.foldl ScriptReader.read .start).finish

/-- Where a channel leads. -/
inductive RedirectionTarget where
  | channel (number : Nat)
  | file (name : Word)
  deriving DecidableEq, Repr

/-- A command: its words, and where its channels lead. -/
structure SimpleCommand where
  words : List Word
  redirections : List (Nat × RedirectionTarget)
  deriving DecidableEq, Repr

def SimpleCommand.empty : SimpleCommand := ⟨[], []⟩

/-- When a step of a script is run. -/
inductive StepCondition where
  | always
  | afterSuccess
  | afterFailure
  deriving DecidableEq, Repr

/-- Commands of which each feeds the next. -/
structure ScriptStep where
  condition : StepCondition
  commands : List SimpleCommand
  deriving DecidableEq, Repr

/-- The number that a word is. -/
def channelOf? : Word → Option Nat
  | [.text "0"] => some 0
  | [.text "1"] => some 1
  | [.text "2"] => some 2
  | _ => none

/-- The commands of one step, and the steps behind it. -/
def scriptSteps (condition : StepCondition) (before : List SimpleCommand)
    (current : SimpleCommand) : List ScriptToken → List ScriptStep
  | [] => [⟨condition, before ++ [current]⟩]
  | .redirection channel :: .operator "&" :: .word target :: rest =>
    let target := match channelOf? target with
      | some number => .channel number
      | none => .file target
    let current := { current with redirections := current.redirections ++ [(channel, target)] }
    scriptSteps condition before current rest
  | .redirection channel :: .word target :: rest =>
    let redirections := current.redirections ++ [(channel, .file target)]
    scriptSteps condition before { current with redirections := redirections } rest
  | .redirection _ :: rest => scriptSteps condition before current rest
  | .word word :: rest =>
    scriptSteps condition before { current with words := current.words ++ [word] } rest
  | .operator "|" :: rest => scriptSteps condition (before ++ [current]) .empty rest
  | .operator "&&" :: rest => ⟨condition, before ++ [current]⟩ ::
      scriptSteps .afterSuccess [] .empty rest
  | .operator "||" :: rest => ⟨condition, before ++ [current]⟩ ::
      scriptSteps .afterFailure [] .empty rest
  | .operator operator :: rest =>
    if operator = "\n" ∧ current = .empty then scriptSteps condition before current rest
    else ⟨condition, before ++ [current]⟩ :: scriptSteps .always [] .empty rest

/-- The steps of a script. -/
def readScript (script : String) : List ScriptStep :=
  (scriptSteps .always [] .empty (scriptTokens script)).filter fun step =>
    step.commands ≠ [.empty]

end SourceCorpus.Programs
