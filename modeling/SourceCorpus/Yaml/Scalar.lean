import SourceCorpus.Yaml.Source

/-!
The three ways to write a scalar: plain, in quotes, and as a block of lines. Within plain and quoted
scalars a single line break is folded to a blank, and of several the first is dropped.
-/

namespace SourceCorpus.Yaml

/-- What stands between two words of a scalar: blanks on one line, or line breaks. -/
structure Gap where
  blanks : List Char
  firstBreak : Option Char
  moreBreaks : List Char

namespace Gap

def empty : Gap := ⟨[], none, []⟩

def hasBreak (g : Gap) : Bool := g.firstBreak.isSome

def add (g : Gap) (c : Char) : Gap :=
  if isBreak c then
    match g.firstBreak with
    | none => { g with firstBreak := some c }
    | some _ => { g with moreBreaks := g.moreBreaks ++ [c] }
  else if g.hasBreak then g
  else { g with blanks := g.blanks ++ [c] }

/-- What the gap becomes within the scalar. -/
def fold (g : Gap) : List Char :=
  match g.firstBreak with
  | none => g.blanks
  | some '\n' => if g.moreBreaks = [] then [' '] else g.moreBreaks
  | some c => c :: g.moreBreaks

end Gap

/-- Reads a gap. After a line break no tab may stand left of `margin`. -/
def readGap (margin : Nat) : Nat → Gap → Source → Option (Gap × Source)
  | 0, _, _ => none
  | fuel + 1, g, s =>
    match s.peek? with
    | none => some (g, s)
    | some c =>
      if isBlank c || isBreak c then
        if g.hasBreak && c == '\t' && s.column < margin then none
        else readGap margin fuel (g.add c) s.next
      else some (g, s)

/-- Whether a plain scalar ends before the text. -/
def endsPlain (inFlow : Bool) : List Char → Bool
  | ':' :: cs => endsWord cs
  | c :: _ => inFlow && [',', '[', ']', '{', '}'].contains c
  | [] => true

/-- A word of a plain scalar. Within brackets a colon before a bracket is refused. -/
def readWord (inFlow : Bool) : List Char → Option (List Char)
  | [] => some []
  | c :: cs =>
    if isBlank c || isBreak c then some []
    else if inFlow && c == ':' && [',', '?', '[', ']', '{', '}'].any (some · == cs.head?) then none
    else if endsPlain inFlow (c :: cs) then some []
    else (readWord inFlow cs).map (c :: ·)

/-- Reads the words of a plain scalar and the gaps between them. The result tells whether a line
break was read after the last word. -/
def readPlain (inFlow : Bool) (margin : Nat) : Nat → List Char → Gap → Source →
    Option (List Char × Bool × Source)
  | 0, _, _, _ => none
  | fuel + 1, text, g, s =>
    let stop := some (text, g.hasBreak, s)
    if s.atDocumentMark || s.peek? == some '#' then stop
    else do
      let word ← readWord inFlow s.rest
      let text := if word = [] then text else text ++ g.fold ++ word
      let g := if word = [] then g else Gap.empty
      let s := s.skip word.length
      if endsWord s.rest && !s.rest.isEmpty then
        let (g, s) ← readGap margin (s.rest.length + 1) g s
        if !inFlow && s.column < margin then some (text, g.hasBreak, s)
        else if s.rest.isEmpty then some (text, g.hasBreak, s)
        else readPlain inFlow margin fuel text g s
      else some (text, g.hasBreak, s)

def plain? (inFlow : Bool) (margin : Nat) (s : Source) : Option (List Char × Bool × Source) :=
  readPlain inFlow margin (s.rest.length + 1) [] .empty s

/-- The character for the one behind a backslash. -/
def escaped? : Char → Option Char
  | '0' => some '\x00'
  | 'a' => some '\x07'
  | 'b' => some '\x08'
  | 't' | '\t' => some '\t'
  | 'n' => some '\n'
  | 'v' => some '\x0b'
  | 'f' => some '\x0c'
  | 'r' => some '\r'
  | 'e' => some '\x1b'
  | ' ' => some ' '
  | '"' => some '"'
  | '/' => some '/'
  | '\\' => some '\\'
  | 'N' => some '\u0085'
  | '_' => some '\u00a0'
  | 'L' => some '\u2028'
  | 'P' => some '\u2029'
  | _ => none

/-- How many hexadecimal digits follow the character behind a backslash. -/
def hexCount? : Char → Option Nat
  | 'x' => some 2
  | 'u' => some 4
  | 'U' => some 8
  | _ => none

def hexDigit? (c : Char) : Option Nat :=
  if '0' ≤ c && c ≤ '9' then some (c.toNat - 48)
  else if 'a' ≤ c && c ≤ 'f' then some (c.toNat - 87)
  else if 'A' ≤ c && c ≤ 'F' then some (c.toNat - 55)
  else none

/-- The character with the number that the first digits of the text are. -/
def hexChar? (count : Nat) (cs : List Char) : Option Char := do
  let digits ← (cs.take count).mapM hexDigit?
  if digits.length < count then none
  let n := digits.foldl (fun n d => n * 16 + d) 0
  if n.isValidChar then some (Char.ofNat n) else none

/-- A character of a quoted scalar, and how many characters it is written with. -/
def quotedChar? (double : Bool) : List Char → Option (Char × Nat)
  | '\\' :: c :: cs =>
    if !double then some ('\\', 1)
    else match hexCount? c with
      | some count => (hexChar? count cs).map fun c => (c, count + 2)
      | none => (escaped? c).map fun c => (c, 2)
  | '\'' :: '\'' :: _ => some ('\'', if double then 1 else 2)
  | c :: _ => if double && c == '\\' then none else some (c, 1)
  | [] => none

/-- Whether the closing quote comes next. -/
def atClosingQuote (double : Bool) : List Char → Bool
  | '"' :: _ => double
  | '\'' :: '\'' :: _ => false
  | '\'' :: _ => !double
  | _ => false

/-- Whether a line break behind a backslash comes next. -/
def atEscapedBreak (double : Bool) : List Char → Bool
  | '\\' :: c :: _ => double && isBreak c
  | _ => false

/-- Reads a quoted scalar up to its closing quote. Of an escaped line break and the gap behind it
only further line breaks stay. -/
def readQuoted (double : Bool) : Nat → List Char → Source → Option (List Char × Source)
  | 0, _, _ => none
  | fuel + 1, text, s =>
    if s.atDocumentMark || s.rest.isEmpty then none
    else if atClosingQuote double s.rest then some (text, s.next)
    else if endsWord s.rest then
      (readGap 0 (s.rest.length + 1) .empty s).bind fun (g, s) =>
        readQuoted double fuel (text ++ g.fold) s
    else if atEscapedBreak double s.rest then
      (readGap 0 (s.rest.length + 1) ⟨[], some '\n', []⟩ (s.skip 2)).bind fun (g, s) =>
        readQuoted double fuel (text ++ g.moreBreaks) s
    else (quotedChar? double s.rest).bind fun (c, n) =>
      readQuoted double fuel (text ++ [c]) (s.skip n)

def quoted? (double : Bool) (s : Source) : Option (List Char × Source) :=
  readQuoted double (s.rest.length + 1) [] s

/-- What becomes of the line breaks at the end of a block. -/
inductive Chomping where
  | strip | clip | keep
  deriving DecidableEq

/-- How a block is announced. -/
structure BlockHeader where
  chomping : Chomping
  /-- The indentation relative to the parent, if it is given. -/
  indent : Option Nat

def chomping? : Char → Option Chomping
  | '+' => some .keep
  | '-' => some .strip
  | _ => none

def indentDigit? (c : Char) : Option Nat :=
  if '1' ≤ c && c ≤ '9' then some (c.toNat - 48) else none

/-- The header of a block, and how many characters it has. -/
def blockHeader : List Char → BlockHeader × Nat
  | [] => (⟨.clip, none⟩, 0)
  | c :: cs =>
    let second := cs.head?
    match chomping? c, indentDigit? c with
    | some chomping, _ => match second.bind indentDigit? with
      | some n => (⟨chomping, some n⟩, 2)
      | none => (⟨chomping, none⟩, 1)
    | none, some n => match second.bind chomping? with
      | some chomping => (⟨chomping, some n⟩, 2)
      | none => (⟨.clip, some n⟩, 1)
    | none, none => (⟨.clip, none⟩, 0)

/-- Reads the empty lines at a place in a block and the indentation of the next line, which is not
known yet if `indent` is zero. The result starts with the widest indentation. -/
def readEmptyLines (indent : Nat) : Nat → Nat → List Char → Source →
    Option (Nat × List Char × Source)
  | 0, _, _, _ => none
  | fuel + 1, widest, breaks, s =>
    let spaces := (s.rest.takeWhile (· = ' ')).length
    let s := s.skip (if indent = 0 then spaces else min spaces (indent - s.column))
    let widest := max widest s.column
    match s.peek? with
    | some c =>
      if c == '\t' && (indent = 0 || s.column < indent) then none
      else if isBreak c then readEmptyLines indent fuel widest (breaks ++ [c]) s.next
      else some (widest, breaks, s)
    | none => some (widest, breaks, s)

def emptyLines? (indent : Nat) (s : Source) : Option (Nat × List Char × Source) :=
  readEmptyLines indent (s.rest.length + 1) 0 [] s

/-- The text of a block so far. -/
structure BlockText where
  text : List Char
  /-- The break at the end of the last line. -/
  lastBreak : List Char
  /-- Whether the last line begins with a blank. -/
  indented : Bool
  /-- The breaks of the empty lines after it. -/
  emptyBreaks : List Char

namespace BlockText

/-- The text with what separates it from the next line. Between two lines of a folded block that do
not begin with blanks a line break becomes a blank. -/
def joined (literal : Bool) (b : BlockText) (nextIndented : Bool) : List Char :=
  if !literal && b.lastBreak == ['\n'] && !b.indented && !nextIndented then
    if b.emptyBreaks.isEmpty then b.text ++ [' '] else b.text ++ b.emptyBreaks
  else b.text ++ b.lastBreak ++ b.emptyBreaks

def finish (b : BlockText) : Chomping → List Char
  | .strip => b.text
  | .clip => b.text ++ b.lastBreak
  | .keep => b.text ++ b.lastBreak ++ b.emptyBreaks

end BlockText

/-- Reads the lines of a block with the indentation. -/
def readBlock (literal : Bool) (indent : Nat) : Nat → BlockText → Source →
    Option (BlockText × Source)
  | 0, _, _ => none
  | fuel + 1, b, s =>
    if s.column != indent || s.rest.isEmpty then some (b, s)
    else do
      let line := s.rest.takeWhile (!isBreak ·)
      let indented := line.head?.any isBlank
      let s := s.skip line.length
      let lastBreak := s.peek?.toList
      let (_, breaks, s) ← emptyLines? indent s.next
      let text := b.joined literal indented ++ line
      readBlock literal indent fuel ⟨text, lastBreak, indented, breaks⟩ s

/-- A block behind its `|` or `>`. Its lines stand right of `parent`, the indentation around it plus
one. -/
def block? (literal : Bool) (parent : Nat) (s : Source) : Option (List Char × Source) := do
  let (header, n) := blockHeader s.rest
  let s := ((s.skip n).skipWhile isBlank).skipComment
  if !s.atLineEnd then none
  else
    let s := s.next
    let given := match header.indent with
      | some n => parent - 1 + n
      | none => 0
    let (widest, breaks, s) ← emptyLines? given s
    let indent := if given = 0 then max (max widest parent) 1 else given
    let (b, s) ← readBlock literal indent (s.rest.length + 1) ⟨[], [], false, breaks⟩ s
    return (b.finish header.chomping, s)

end SourceCorpus.Yaml
