import SourceCorpus.Yaml.Scalar

/-!
The tokens of YAML text. Indentation becomes tokens of its own, which open and close block
collections. A key need not be marked as one: where a colon follows a place at which a key may
stand, the marks for the key, and for a new mapping if need be, are put there afterwards. Such a key
ends on the line on which it begins.
-/

namespace SourceCorpus.Yaml

inductive Token where
  | directive | documentStart | documentEnd
  | blockSequenceStart | blockMappingStart | blockEnd
  | flowSequenceStart | flowSequenceEnd | flowMappingStart | flowMappingEnd
  | blockEntry | flowEntry | key | value
  | alias (name : List Char)
  | anchor (name : List Char)
  | tag
  | scalar (text : List Char) (plain : Bool)
  deriving DecidableEq

/-- A place at which a key may begin that is not marked as one. -/
structure KeyPlace where
  /-- How many tokens stand before it. -/
  token : Nat
  /-- Whether nothing but a key may stand there. -/
  required : Bool
  index : Nat
  line : Nat
  column : Nat

structure Scanner where
  source : Source
  tokens : Array Token
  /-- The columns of the open block collections, the innermost first. -/
  indents : List Nat
  /-- For each open bracket, and outside of them, where a key may begin; the innermost first. -/
  keyPlace : Option KeyPlace
  outerPlaces : List (Option KeyPlace)
  keyAllowed : Bool

abbrev Scan := StateT Scanner Option

namespace Scan

def getSource : Scan Source := return (← get).source

def setSource (s : Source) : Scan Unit := modify fun st => { st with source := s }

def push (t : Token) : Scan Unit := modify fun st => { st with tokens := st.tokens.push t }

def insertAt (place : Nat) (t : Token) : Scan Unit :=
  modify fun st =>
    { st with tokens := (st.tokens.toList.take place ++ t :: st.tokens.toList.drop place).toArray }

def allowKey (allowed : Bool) : Scan Unit := modify fun st => { st with keyAllowed := allowed }

def inFlow : Scan Bool := return !(← get).outerPlaces.isEmpty

/-- The column right of the innermost block collection. -/
def margin : Scan Nat :=
  return match (← get).indents with
    | [] => 0
    | column :: _ => column + 1

/-- Refuses a place at which a key was required but did not come. -/
def dropKeyPlace : Scan Unit := do
  if (← get).keyPlace.any (·.required) then failure
  modify fun st => { st with keyPlace := none }

/-- Notes that a key may begin here. -/
def saveKeyPlace : Scan Unit := do
  let st ← get
  if st.keyAllowed then
    dropKeyPlace
    let s := st.source
    let required := !(← inFlow) && st.indents.head? == some s.column
    modify fun st =>
      { st with keyPlace := some ⟨st.tokens.size, required, s.index, s.line, s.column⟩ }

/-- Whether a key that begins at the place has gone on for too long. -/
def isStale (s : Source) (p : KeyPlace) : Bool := p.line < s.line || p.index + 1024 < s.index

/-- Forgets the places at which no key can begin any more. -/
def dropStalePlaces : Scan Unit := do
  let st ← get
  let fresh (p : Option KeyPlace) : Option KeyPlace := p.filter (!isStale st.source ·)
  let places := st.keyPlace :: st.outerPlaces
  if places.any fun p => p.any fun p => p.required && isStale st.source p then failure
  set { st with keyPlace := fresh st.keyPlace, outerPlaces := st.outerPlaces.map fresh }

/-- Opens a block collection at the column unless one is open there. -/
def indentTo (column place : Nat) (start : Token) : Scan Unit := do
  if !(← inFlow) && (← get).indents.head?.all (· < column) then
    modify fun st => { st with indents := column :: st.indents }
    insertAt place start

/-- Closes the block collections right of the column. -/
def unindentTo (column : Nat) : Scan Unit := do
  if !(← inFlow) then
    let closed := (← get).indents.takeWhile (column < ·)
    modify fun st => { st with indents := st.indents.drop closed.length }
    closed.forM fun _ => push .blockEnd

def closeAll : Scan Unit := do
  if !(← inFlow) then
    let closed := (← get).indents
    modify fun st => { st with indents := [] }
    closed.forM fun _ => push .blockEnd

/-- Skips blanks, comments and line breaks. A tab counts as a blank only where no key may begin. -/
def skipToToken : Nat → Scan Unit
  | 0 => failure
  | fuel + 1 => do
    let tabs := (← inFlow) || !(← get).keyAllowed
    let s := ((← getSource).skipWhile fun c => c == ' ' || (tabs && c == '\t')).skipComment
    if s.rest.isEmpty || !s.atLineEnd then setSource s
    else
      setSource s.next
      if !(← inFlow) then allowKey true
      skipToToken fuel

/-- Leaves the characters of a token. -/
def advance (count : Nat) : Scan Unit := do setSource ((← getSource).skip count)

def documentMark (t : Token) : Scan Unit := do
  closeAll
  dropKeyPlace
  allowKey false
  advance 3
  push t

/-- A directive for the version; no other is known. -/
def directive : Scan Unit := do
  closeAll
  dropKeyPlace
  allowKey false
  let line := (← getSource).rest.takeWhile (!isBreak ·)
  let words := (String.ofList (line.takeWhile (· != '#'))).splitOn " " |>.filter (· != "")
  if words == ["%YAML", "1.1"] || words == ["%YAML", "1.2"] then
    advance line.length
    push .directive
  else failure

def flowStart (t : Token) : Scan Unit := do
  saveKeyPlace
  modify fun st =>
    { st with keyPlace := none, outerPlaces := st.keyPlace :: st.outerPlaces, keyAllowed := true }
  advance 1
  push t

def flowEnd (t : Token) : Scan Unit := do
  dropKeyPlace
  modify fun st => match st.outerPlaces with
    | [] => st
    | outer :: rest => { st with keyPlace := outer, outerPlaces := rest }
  allowKey false
  advance 1
  push t

def flowEntry : Scan Unit := do
  dropKeyPlace
  allowKey true
  advance 1
  push .flowEntry

/-- Opens a collection for an entry or a key that stands here. -/
def openHere (start : Token) : Scan Unit := do
  if !(← inFlow) then
    if !(← get).keyAllowed then failure
    indentTo (← getSource).column (← get).tokens.size start

def blockEntry : Scan Unit := do
  openHere .blockSequenceStart
  dropKeyPlace
  allowKey true
  advance 1
  push .blockEntry

def markedKey : Scan Unit := do
  openHere .blockMappingStart
  dropKeyPlace
  allowKey (!(← inFlow))
  advance 1
  push .key

def value : Scan Unit := do
  match (← get).keyPlace with
  | some p =>
    insertAt p.token .key
    indentTo p.column p.token .blockMappingStart
    modify fun st => { st with keyPlace := none }
    allowKey false
  | none =>
    openHere .blockMappingStart
    allowKey (!(← inFlow))
  advance 1
  push .value

def isNameChar (c : Char) : Bool :=
  ('0' ≤ c && c ≤ '9') || ('A' ≤ c && c ≤ 'Z') || ('a' ≤ c && c ≤ 'z') || c == '_' || c == '-'

/-- An anchor or an alias. -/
def name (token : List Char → Token) : Scan Unit := do
  saveKeyPlace
  allowKey false
  advance 1
  let word := (← getSource).rest.takeWhile isNameChar
  advance word.length
  let rest := (← getSource).rest
  if word.isEmpty then failure
  let follows := ['?', ':', ',', ']', '}', '%', '@', '\x60']
  if !endsWord rest && !rest.head?.any follows.contains then failure
  push (token word)

def isTagChar (c : Char) : Bool :=
  isNameChar c || [';', '/', '?', ':', '@', '&', '=', '+', '$', '.', '!', '~', '*', '\'', '(', ')',
    '%'].contains c

/-- A tag. Its handle is one of the two that need no directive. -/
def tag : Scan Unit := do
  saveKeyPlace
  allowKey false
  advance 1
  let rest := (← getSource).rest
  match rest with
  | '<' :: rest =>
    let uri := rest.takeWhile fun c => isTagChar c || [',', '[', ']'].contains c
    if uri.isEmpty || (rest.drop uri.length).head? != some '>' then failure
    advance (uri.length + 2)
  | _ =>
    let suffix := rest.takeWhile isTagChar
    if suffix == ['!'] || (suffix.drop 1).contains '!' then failure
    advance suffix.length
  let rest := (← getSource).rest
  if !endsWord rest && !((← inFlow) && rest.head? == some ',') then failure
  push .tag

def blockScalar (literal : Bool) : Scan Unit := do
  dropKeyPlace
  allowKey true
  match block? literal (← margin) (← getSource).next with
  | some (text, s) =>
    setSource s
    push (.scalar text false)
  | none => failure

def quotedScalar (double : Bool) : Scan Unit := do
  saveKeyPlace
  allowKey false
  match quoted? double (← getSource).next with
  | some (text, s) =>
    setSource s
    push (.scalar text false)
  | none => failure

def plainScalar : Scan Unit := do
  saveKeyPlace
  allowKey false
  match plain? (← inFlow) (← margin) (← getSource) with
  | some (text, endsLine, s) =>
    setSource s
    if endsLine then allowKey true
    push (.scalar text true)
  | none => failure

/-- Characters that begin no plain scalar. -/
def isIndicator (c : Char) : Bool :=
  ['-', '?', ':', ',', '[', ']', '{', '}', '#', '&', '*', '!', '|', '>', '\'', '"', '%', '@',
    '\x60'].contains c

/-- The token that begins with the character, which `rest` follows. -/
def tokenAt (c : Char) (rest : List Char) : Scan Unit := do
  let flow ← inFlow
  match c with
  | '[' => flowStart .flowSequenceStart
  | '{' => flowStart .flowMappingStart
  | ']' => flowEnd .flowSequenceEnd
  | '}' => flowEnd .flowMappingEnd
  | ',' => flowEntry
  | '*' => name .alias
  | '&' => name .anchor
  | '!' => tag
  | '\'' => quotedScalar false
  | '"' => quotedScalar true
  | _ =>
    if c == '-' && endsWord rest then blockEntry
    else if c == '?' && (flow || endsWord rest) then markedKey
    else if c == ':' && (flow || endsWord rest) then value
    else if c == '|' && !flow then blockScalar true
    else if c == '>' && !flow then blockScalar false
    else if !isIndicator c && c != '\t' || c == '-' && !rest.head?.any isBlank
        || !flow && (c == '?' || c == ':') then plainScalar
    else failure

/-- Reads one token. The result tells whether there was one. -/
def step : Scan Bool := do
  skipToToken ((← getSource).rest.length + 1)
  dropStalePlaces
  let s ← getSource
  unindentTo s.column
  match s.rest with
  | [] =>
    closeAll
    dropKeyPlace
    return false
  | c :: rest =>
    if s.column == 0 && c == '%' then directive
    else if s.atDocumentMark then documentMark (if c == '-' then .documentStart else .documentEnd)
    else tokenAt c rest
    return true

/-- Reads all tokens. Each has a character at least. -/
def all : Nat → Scan Unit
  | 0 => failure
  | fuel + 1 => do if ← step then all fuel

end Scan

def tokens? (cs : List Char) : Option (List Token) := do
  let s ← Source.ofText? cs
  let start : Scanner := ⟨s, #[], [], none, [], true⟩
  let (_, final) ← StateT.run (Scan.all (s.rest.length + 1)) start
  return final.tokens.toList

end SourceCorpus.Yaml
