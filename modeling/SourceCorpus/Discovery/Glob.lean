import SourceCorpus.Text.Utf8

/-!
Patterns for paths. A pattern is matched against the bytes of a whole path; alternatives in braces
are multiplied out first, so that what is left is a sequence of parts.
-/

namespace SourceCorpus

inductive GlobPart where
  | byte (byte : UInt8)
  /-- Any byte but a slash. -/
  | any
  /-- Bytes without a slash. -/
  | star
  /-- Directories at the start of a path, or nothing. -/
  | leading
  /-- A slash, with directories behind it or without. -/
  | between
  /-- A slash and all that follows it. -/
  | trailing
  /-- A byte that lies in one of the ranges, or in none. -/
  | oneOf (negated : Bool) (ranges : List (UInt8 × UInt8))
  deriving DecidableEq, Repr

/-- A pattern without alternatives. -/
abbrev Glob := List GlobPart

namespace Glob

def slash : UInt8 := 47

/-- The ends of the bytes, from all of them to none. -/
def tails : List UInt8 → List (List UInt8)
  | [] => [[]]
  | b :: bs => (b :: bs) :: tails bs

/-- The ends of the bytes behind each of their slashes. -/
def tailsBehindSlashes : List UInt8 → List (List UInt8)
  | [] => []
  | b :: bs => if b = slash then bs :: tailsBehindSlashes bs else tailsBehindSlashes bs

/-- The ends of the bytes before which there is no slash. -/
def tailsWithoutSlash : List UInt8 → List (List UInt8)
  | [] => [[]]
  | b :: bs => (b :: bs) :: if b = slash then [] else tailsWithoutSlash bs

def inRanges (ranges : List (UInt8 × UInt8)) (b : UInt8) : Bool :=
  ranges.any fun (low, high) => low ≤ b && b ≤ high

/-- What may be left of the bytes once they have matched the part. -/
def GlobPart.rests (part : GlobPart) (bytes : List UInt8) : List (List UInt8) :=
  match part, bytes with
  | .byte a, b :: bs => if a = b then [bs] else []
  | .any, b :: bs => if b = slash then [] else [bs]
  | .oneOf negated ranges, b :: bs => if inRanges ranges b = negated then [] else [bs]
  | .star, bs => tailsWithoutSlash bs
  | .leading, bs => bs :: tailsBehindSlashes bs
  | .between, b :: bs => if b = slash then bs :: tailsBehindSlashes bs else []
  | .trailing, b :: bs => if b = slash then tails bs else []
  | _, [] => []

def covers : Glob → List UInt8 → Bool
  | [], bytes => bytes.isEmpty
  | part :: parts, bytes => (GlobPart.rests part bytes).any (covers parts)

end Glob

/-- A part of a pattern as it is read. -/
inductive GlobToken where
  | single (part : GlobPart)
  /-- Any of the patterns. -/
  | choice (globs : List Glob)
  deriving DecidableEq, Repr

namespace GlobToken

/-- The patterns that the tokens stand for. -/
def expand : List GlobToken → List Glob
  | [] => [[]]
  | .single p :: tokens => (expand tokens).map (p :: ·)
  | .choice globs :: tokens => globs.flatMap fun glob => (expand tokens).map (glob ++ ·)

/-- The token for alternatives. Those that are empty do not count. -/
def ofAlternatives (alternatives : List (List GlobToken)) : GlobToken :=
  match (alternatives.map expand).filter (· ≠ [[]]) with
  | [] => .choice [[]]
  | globs => .choice globs.flatten

end GlobToken

/-- A pattern that is read up to some character. -/
structure GlobReader where
  /-- For each open brace, the innermost first: the tokens before it, the latest first, and the
  alternatives that are complete. -/
  braces : List (List GlobToken × List (List GlobToken))
  /-- The tokens of the alternative that is being read, the latest first. -/
  tokens : List GlobToken
  latest? : Option Char
  deriving DecidableEq, Repr

namespace GlobReader

def start : GlobReader := ⟨[], [], none⟩

def push (r : GlobReader) (part : GlobPart) : GlobReader :=
  { r with tokens := .single part :: r.tokens }

def pushChar (r : GlobReader) (c : Char) : GlobReader :=
  (String.utf8EncodeChar c).foldl (fun r byte => r.push (.byte byte)) r

/-- Puts a part for whole directories in the place of the slash before it. -/
def pushDirectories (r : GlobReader) (part : GlobPart) : GlobReader :=
  match r.tokens with
  | .single .leading :: _ | .single .trailing :: _ => r
  | tokens => { r with tokens := .single part :: tokens.tail }

/-- Reads two stars, with `next?` behind them. They stand for directories if they are all that is
between two slashes; else each is a star of its own. Also tells how many of the characters behind
the first star are read. -/
def readStars (r : GlobReader) (next? : Option Char) : GlobReader × Nat :=
  let atSlash := next? = some '/'
  let atEnd := next? = none || (!r.braces.isEmpty && (next? = some ',' || next? = some '\x7d'))
  if r.tokens.isEmpty then
    if atSlash then (r.push .leading, 2)
    else if next? = none then (r.push .leading, 1)
    else ((r.push .star).push .star, 1)
  else if r.latest? = some '/' && atEnd then (r.pushDirectories .trailing, 1)
  else if r.latest? = some '/' && atSlash then (r.pushDirectories .between, 2)
  else ((r.push .star).push .star, 1)

/-- The ranges of a class up to its closing bracket, the latest first, and how many characters they
take. A bracket at the start is a member, and so is a hyphen at either end. -/
def readRanges (ranges : List (Char × Char)) (inRange : Bool) :
    List Char → Option (List (Char × Char) × Nat)
  | [] => none
  | c :: cs =>
    let more (ranges : List (Char × Char)) (inRange : Bool) : Option (List (Char × Char) × Nat) :=
      (readRanges ranges inRange cs).map fun (ranges, taken) => (ranges, taken + 1)
    match c, ranges, inRange with
    | ']', _ :: _, false => some (ranges, 1)
    | ']', _ :: _, true => some (('-', '-') :: ranges, 1)
    | '-', _ :: _, false => more ranges true
    | c, (low, _) :: ranges, true => if c < low then none else more ((low, c) :: ranges) false
    | c, ranges, _ => more ((c, c) :: ranges) false

/-- The ranges of bytes for a range of characters. The bytes of a character outside ASCII count one
by one. -/
def byteRanges (range : Char × Char) : List (UInt8 × UInt8) :=
  let low := String.utf8EncodeChar range.1
  let high := String.utf8EncodeChar range.2
  let single (b : UInt8) : UInt8 × UInt8 := (b, b)
  if range.1 = range.2 then low.map single
  else low.dropLast.map single ++ (low.getLast?.getD 0, high.headD 0) :: high.tail.map single

/-- A class behind its opening bracket, and how many characters it takes. -/
def readClass (cs : List Char) : Option (GlobPart × Nat) :=
  let negated := cs.head? = some '!' || cs.head? = some '^'
  (readRanges [] false (if negated then cs.drop 1 else cs)).map fun (ranges, taken) =>
    (.oneOf negated (ranges.reverse.flatMap byteRanges), taken + if negated then 1 else 0)

/-- Reads a character with others behind it. Also tells how many of those are read along with it. -/
def read? (r : GlobReader) (c : Char) (behind : List Char) : Option (GlobReader × Nat) :=
  match c with
  | '?' => some (r.push .any, 0)
  | '*' => match behind with
    | '*' :: rest => some (r.readStars rest.head?)
    | _ => some (r.push .star, 0)
  | '[' => (readClass behind).map fun (part, taken) => (r.push part, taken)
  | '\\' => behind.head?.map fun escaped => (r.pushChar escaped, 1)
  | '{' => some ({ r with braces := (r.tokens, []) :: r.braces, tokens := [] }, 0)
  | ',' => match r.braces with
    | [] => some (r.pushChar ',', 0)
    | (before, done) :: outer =>
      some ({ r with braces := (before, done ++ [r.tokens.reverse]) :: outer, tokens := [] }, 0)
  | '}' => match r.braces with
    | [] => none
    | (before, done) :: outer =>
      let choice := GlobToken.ofAlternatives (done ++ [r.tokens.reverse])
      some ({ r with braces := outer, tokens := choice :: before }, 0)
  | c => some (r.pushChar c, 0)

/-- Reads a pattern. The first `skip` characters are read already. -/
def readFrom? : Nat → GlobReader → List Char → Option GlobReader
  | _, r, [] => if r.braces.isEmpty then some r else none
  | skip + 1, r, c :: cs => readFrom? skip { r with latest? := some c } cs
  | 0, r, c :: cs => (r.read? c cs).bind fun (r, taken) =>
    readFrom? taken { r with latest? := some c } cs

end GlobReader

/-- The patterns that a text stands for; `none` if braces or brackets in it do not close, or a
backslash stands at its end. Two stars alone match every path. -/
def Glob.ofText? (cs : List Char) : Option (List Glob) :=
  (GlobReader.readFrom? 0 .start cs).map fun r =>
    if r.tokens = [.single .leading] then [[.leading, .star]]
    else GlobToken.expand r.tokens.reverse

end SourceCorpus
