/-!
YAML text as it is read: what is left of it, and where that stands. All line breaks but the two
separators of Unicode count as a line feed.
-/

namespace SourceCorpus.Yaml

structure Source where
  rest : List Char
  /-- How many characters were read. -/
  index : Nat
  line : Nat
  column : Nat

def isBreak (c : Char) : Bool := c == '\n' || c == '\u2028' || c == '\u2029'

def isBlank (c : Char) : Bool := c == ' ' || c == '\t'

/-- Whether a blank, a line break or the end of the text comes next. -/
def endsWord : List Char → Bool
  | [] => true
  | c :: _ => isBlank c || isBreak c

/-- The characters that may occur in a text. -/
def isPrintable (c : Char) : Bool :=
  let n := c.toNat
  n == 0x9 || n == 0xA || n == 0xD || (0x20 ≤ n && n ≤ 0x7E) || n == 0x85 ||
    (0xA0 ≤ n && n ≤ 0xD7FF) || (0xE000 ≤ n && n ≤ 0xFFFD) || 0x10000 ≤ n

/-- The text with a line feed for every line break that is written otherwise. -/
def unifyBreaks : List Char → List Char
  | [] => []
  | '\r' :: '\n' :: cs => '\n' :: unifyBreaks cs
  | '\r' :: cs => '\n' :: unifyBreaks cs
  | '\u0085' :: cs => '\n' :: unifyBreaks cs
  | c :: cs => c :: unifyBreaks cs

def dropByteOrderMark : List Char → List Char
  | '\ufeff' :: cs => cs
  | cs => cs

namespace Source

def ofText? (cs : List Char) : Option Source :=
  let cs := dropByteOrderMark cs
  if cs.all isPrintable then some ⟨unifyBreaks cs, 0, 0, 0⟩ else none

def peek? (s : Source) : Option Char := s.rest.head?

def next (s : Source) : Source :=
  match s.rest with
  | [] => s
  | c :: rest =>
    if isBreak c then ⟨rest, s.index + 1, s.line + 1, 0⟩
    else ⟨rest, s.index + 1, s.line, s.column + 1⟩

def skip (s : Source) : Nat → Source
  | 0 => s
  | n + 1 => s.next.skip n

def skipWhile (s : Source) (p : Char → Bool) : Source := s.skip (s.rest.takeWhile p).length

/-- Whether one of the two marks between documents stands here. -/
def atDocumentMark (s : Source) : Bool :=
  s.column == 0 && match s.rest with
    | '-' :: '-' :: '-' :: rest | '.' :: '.' :: '.' :: rest => endsWord rest
    | _ => false

def atLineEnd (s : Source) : Bool :=
  match s.rest with
  | [] => true
  | c :: _ => isBreak c

def skipComment (s : Source) : Source :=
  if s.peek? = some '#' then s.skipWhile (!isBreak ·) else s

end Source

end SourceCorpus.Yaml
