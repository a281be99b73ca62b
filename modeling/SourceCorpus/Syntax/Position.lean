/-!
Places in a source text and the stretches between them.
-/

namespace SourceCorpus.Syntax

/-- A place in a source text, counted in all the ways that are asked for. Rows and columns start
at zero; a row ends at `\n`, and columns are bytes. -/
structure Position where
  offset : Nat
  byte : Nat
  row : Nat
  column : Nat
  deriving DecidableEq, Repr, Inhabited

def Position.origin : Position := ⟨0, 0, 0, 0⟩

/-- The place behind the character. -/
def Position.step (p : Position) (c : Char) : Position :=
  if c = '\n' then ⟨p.offset + 1, p.byte + 1, p.row + 1, 0⟩
  else ⟨p.offset + 1, p.byte + c.utf8Size, p.row, p.column + c.utf8Size⟩

/-- The half-open stretch from `start` to `stop`. -/
structure Extent where
  start : Position
  stop : Position
  deriving DecidableEq, Repr, Inhabited

/-- The characters of the source that the stretch covers. -/
def Extent.slice (e : Extent) (source : List Char) : List Char :=
  (source.drop e.start.offset).take (e.stop.offset - e.start.offset)

/-- A place in a source text together with what follows it. -/
structure Cursor where
  rest : List Char
  position : Position
  deriving Repr, Inhabited

def Cursor.ofSource (source : List Char) : Cursor := ⟨source, .origin⟩

def Cursor.drop : Nat → Cursor → Cursor
  | 0, at_ => at_
  | n + 1, at_ => match at_.rest with
    | [] => at_
    | c :: rest => Cursor.drop n ⟨rest, at_.position.step c⟩

def Cursor.dropWhile (p : Char → Bool) (at_ : Cursor) : Cursor :=
  at_.drop (at_.rest.takeWhile p).length

end SourceCorpus.Syntax
