import SourceCorpus.Syntax.Position
import SourceCorpus.Syntax.Token
import SourceCorpus.Text.Blank

/-!
Line structure. Where the grammar allows it, the end of a line and a change of indentation are
tokens without width; everywhere else they are blanks. A dedent is also reported where the grammar
does not allow it, unless a closing bracket could stand there, so that an unfinished line does not
swallow the lines behind its block.
-/

namespace SourceCorpus.Syntax

/-- Which of the tokens that depend on their place the grammar allows next. -/
structure Expected where
  newline : Bool := false
  indent : Bool := false
  dedent : Bool := false
  /-- A closing bracket. -/
  closer : Bool := false
  /-- The opening of a string. -/
  string : Bool := false
  deriving DecidableEq, Repr

/-- What lies between a token and the next. -/
structure Gap where
  /-- The number of characters passed. -/
  length : Nat := 0
  /-- Whether the line ended. -/
  atLineEnd : Bool := false
  /-- The indentation of the line reached. -/
  indent : Nat := 0
  /-- The indentation of the first whole-line comment passed. -/
  comment : Option Nat := none
  inComment : Bool := false
  deriving Repr

/-- A joined line at the start of the text: the length of the backslash and the line end. -/
def joinedLine? : List Char → Option Nat
  | '\\' :: '\n' :: _ => some 2
  | '\\' :: '\r' :: '\n' :: _ => some 3
  | ['\\'] => some 1
  | _ => none

/-- Passes blanks and joined lines and, if `comments` is set, whole-line comments. There is no gap
to speak of if a comment follows on the same line or a backslash joins nothing. -/
def Gap.scan (comments : Bool) : List Char → Gap → Option Gap
  | [], g => some { g with atLineEnd := true, indent := 0 }
  | c :: cs, g =>
    let g := { g with length := g.length + 1 }
    if g.inComment then
      if c == '\n' || c.toNat == 0 then scan comments cs { g with inComment := false, indent := 0 }
      else scan comments cs g
    else if c == '\n' then scan comments cs { g with atLineEnd := true, indent := 0 }
    else if c == ' ' then scan comments cs { g with indent := g.indent + 1 }
    else if c == '\t' then scan comments cs { g with indent := g.indent + 8 }
    else if c == '\r' || c.toNat == 0x0C then scan comments cs { g with indent := 0 }
    else if c == '#' && comments then
      if g.atLineEnd then
        scan comments cs { g with inComment := true, comment := g.comment <|> some g.indent }
      else none
    else if c == '\\' then
      match cs with
      | [] => scan comments [] g
      | '\n' :: rest => scan comments rest { g with length := g.length + 1 }
      | ['\r'] => scan comments [] { g with length := g.length + 1 }
      | '\r' :: '\n' :: rest => scan comments rest { g with length := g.length + 2 }
      | _ => none
    else some { g with length := g.length - 1 }

/-- The layout token that the gap amounts to, inside a block that is indented by `current`.
`inFormat` holds inside a format string, where no block can end. -/
def Gap.token? (g : Gap) (expected : Expected) (current : Nat) (inFormat : Bool)
    (next : List Char) : Option Token :=
  let stringNext := expected.string &&
    (next.head?.any fun c => c == '"' || c == '\'' || c.toNat == 0x60)
  if g.atLineEnd then
    if expected.indent && g.indent > current then some (.indent g.indent)
    else if (expected.dedent || (!expected.newline && !stringNext && !expected.closer)) &&
        g.indent < current && !inFormat && g.comment.all (· < current) then some .dedent
    else if expected.newline then some .newline
    else none
  else none

/-- Blanks between tokens. -/
def isSpace (c : Char) : Bool :=
  Text.isBlank c || c.toNat == 0xFEFF || c.toNat == 0x2060 || c.toNat == 0x200B

end SourceCorpus.Syntax
