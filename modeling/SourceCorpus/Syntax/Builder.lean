import SourceCorpus.Syntax.Layout
import SourceCorpus.Syntax.StringBody
import SourceCorpus.Syntax.Tree

/-!
Building a tree while reading tokens. The finished nodes of the construct being read wait in a list;
closing a construct gathers those that were finished since its mark. Comments and joined lines join
the list where they are met, so they belong to the innermost construct with tokens on both sides.
-/

namespace SourceCorpus.Syntax

/-- Why a text is refused. -/
inductive Refusal where
  /-- No rule allows what stands here. -/
  | unexpected (place : Position)
  /-- The token is needed here. -/
  | missing (token : String) (place : Position)
  deriving DecidableEq, Repr

structure Progress where
  /-- Behind the last token, comment or joined line. -/
  cursor : Cursor
  /-- Behind the last token. -/
  stop : Position
  /-- The indentations of the open blocks, innermost first. -/
  indents : List Nat
  /-- Whether a format string is open. -/
  inFormat : Bool
  /-- The finished nodes, newest first, and their number. -/
  finished : List Tree
  count : Nat
  /-- More than the number of characters of the text, hence of rounds of any loop over tokens. -/
  limit : Nat

def Progress.start (source : List Char) : Progress where
  cursor := .ofSource source
  stop := .origin
  indents := []
  inFormat := false
  finished := []
  count := 0
  limit := source.length + 2

abbrev Parse := StateT Progress (Except Refusal)

/-- A token that has been seen but not taken. -/
structure Lookahead where
  token : Token
  before : Cursor
  after : Cursor

def Lookahead.place (l : Lookahead) : Position := l.before.position

def Lookahead.isSign (l : Lookahead) (sign : Sign) : Bool := l.token == .sign sign

def Lookahead.isWord (l : Lookahead) (keyword : Keyword) : Bool := l.token == .word (some keyword)

/-- Whether the token is a word that can only be a name before a bracket. -/
def Lookahead.isName (l : Lookahead) : Bool :=
  match l.token with
  | .word none => true
  | .word (some k) => !([Keyword.none, .true, .false, .not, .lambda, .await, .yield].contains k)
  | _ => false

/-- Whether the token can begin an expression. -/
def Lookahead.beginsExpression (l : Lookahead) : Bool :=
  match l.token with
  | .word _ | .integer | .float | .quote _ => true
  | .sign s => [Sign.openParen, .openBracket, .openBrace, .plus, .minus, .tilde, .star,
      .ellipsis].contains s
  | _ => false

namespace Parse

def fail {α : Type} (place : Position) : Parse α := throw (.unexpected place)

/-- Tries `first` and, if it is refused, `second` from the same point. -/
def orElse {α : Type} (first second : Parse α) : Parse α := fun s =>
  match first s with
  | .ok r => .ok r
  | .error _ => second s

/-- Repeats `body` until it returns `false`, at most `rounds` times. -/
def loop (body : Parse Bool) : Nat → Parse Unit
  | 0 => pure ()
  | rounds + 1 => do if ← body then loop body rounds

/-- Repeats `body`, which takes a token in every round but the last, until it returns `false`. -/
def repeated (body : Parse Bool) : Parse Unit := do loop body (← get).limit

def push (t : Tree) : Parse Unit := modify fun s =>
  { s with finished := t :: s.finished, count := s.count + 1 }

/-- The lookahead when no trivia stands before the token. -/
def lookahead? (expected : Expected) (s : Progress) : Option Lookahead :=
  let comments := expected.newline || expected.indent || expected.dedent
  let gap := Gap.scan comments s.cursor.rest {}
  let layout := gap.bind fun g =>
    let behind := s.cursor.rest.drop g.length
    (g.token? expected (s.indents.headD 0) s.inFormat behind).map fun token =>
      (⟨token, s.cursor, s.cursor⟩ : Lookahead)
  let string := gap.bind fun g =>
    if expected.string && g.comment.isNone then
      let before := s.cursor.drop g.length
      (Delimiter.read? false false false 0 before.rest).map fun (d, length) =>
        (⟨.quote d, before, before.drop length⟩ : Lookahead)
    else none
  layout <|> string

/-- The next token. Trivia before it are finished nodes from now on. -/
def peekWithin (expected : Expected) : Nat → Parse Lookahead
  | 0 => do fail (← get).cursor.position
  | rounds + 1 => do
    let s ← get
    match lookahead? expected s with
    | some l => pure l
    | none =>
      let before := s.cursor.dropWhile isSpace
      let trivia (kind : Kind) (length : Nat) : Parse Lookahead := do
        let after := before.drop length
        push (.node kind none ⟨before.position, after.position⟩ [])
        modify fun s => { s with cursor := after }
        peekWithin expected rounds
      match before.rest, joinedLine? before.rest with
      | '#' :: rest, _ => trivia .comment (1 + (rest.takeWhile (· != '\n')).length)
      | _, some length => trivia .lineContinuation length
      | cs, none =>
        let (token, length) := Token.read cs
        pure ⟨token, before, before.drop length⟩

def peek (expected : Expected) : Parse Lookahead := do peekWithin expected (← get).limit

/-- Takes the token. -/
def take (l : Lookahead) : Parse Unit := modify fun s =>
  { s with cursor := l.after, stop := l.after.position }

/-- Takes a layout token, which covers no text. -/
def takeLayout (l : Lookahead) : Parse Unit := do
  take l
  match l.token with
  | .indent columns => modify fun s => { s with indents := columns :: s.indents }
  | .dedent => modify fun s => { s with indents := s.indents.tail }
  | _ => pure ()

/-- Takes the token as a node of its own. -/
def leaf (kind : Kind) (l : Lookahead) : Parse Unit := do
  take l
  push (.node kind none ⟨l.before.position, l.after.position⟩ [])

/-- Where a construct began. -/
structure Mark where
  count : Nat
  start : Position

/-- The mark of a construct that begins with the token. -/
def markAt (l : Lookahead) : Parse Mark := do return ⟨(← get).count, l.place⟩

/-- Makes the nodes finished since the mark the children of one node, which reaches to the last
token. Trivia behind that token stay outside. -/
def close (m : Mark) (kind : Kind) : Parse Unit := modify fun s =>
  let recent := s.finished.take (s.count - m.count)
  let isOutside (t : Tree) : Bool := t.isTrivia && t.start.offset ≥ s.stop.offset
  let outside := recent.takeWhile isOutside
  let inside := (recent.dropWhile isOutside).reverse
  { s with
    finished := outside ++
      .node kind none ⟨m.start, s.stop⟩ inside :: s.finished.drop (s.count - m.count)
    count := m.count + 1 + outside.length }

/-- Changes the nodes finished since the mark that are not trivia. -/
def mapSince (count : Nat) (f : Tree → Tree) : Parse Unit := modify fun s =>
  let (recent, older) := s.finished.splitAt (s.count - count)
  { s with finished := recent.map (fun t => if t.isTrivia then t else f t) ++ older }

/-- Runs `body` and gives the role to the nodes that it finishes. -/
def inRole (role : Role) (body : Parse Unit) : Parse Unit := do
  let count := (← get).count
  body
  mapSince count (·.withRole role)

/-- The nodes finished since the mark, oldest first and without trivia. -/
def since (count : Nat) : Parse (List Tree) := do
  let s ← get
  return ((s.finished.take (s.count - count)).filter (!·.isTrivia)).reverse

/-- Takes the sign or refuses the text. -/
def sign (which : Sign) (expected : Expected := {}) : Parse Unit := do
  let l ← peek expected
  if l.isSign which then take l else fail l.place

/-- Takes the keyword or refuses the text. -/
def keyword (which : Keyword) (expected : Expected := {}) : Parse Unit := do
  let l ← peek expected
  if l.isWord which then take l else fail l.place

/-- Takes any word as an identifier. -/
def identifier : Parse Unit := do
  let l ← peek {}
  match l.token with
  | .word _ => leaf .identifier l
  | _ => fail l.place

/-- Words joined by dots. -/
def dottedName (follow : Expected) : Parse Unit := do
  let m ← markAt (← peek {})
  identifier
  repeated do
    let l ← peek follow
    if l.isSign .dot then
      take l
      identifier
      return true
    else return false
  close m .dottedName

/-- Moves over characters inside a token. -/
def skipChars (length : Nat) : Parse Unit := modify fun s =>
  let cursor := s.cursor.drop length
  { s with cursor := cursor, stop := cursor.position }

end Parse

end SourceCorpus.Syntax
