import SourceCorpus.Syntax.Token

/-!
The inside of a string literal, cut into stretches of text, holes that hold an expression, and the
closing quotes. A line may not end inside a string with single quotes, except directly behind the
opening, a hole or an escape.
-/

namespace SourceCorpus.Syntax

/-- What the body of a string goes on with, and how many characters it takes. -/
inductive StringPiece where
  | text (length : Nat)
  | close (length : Nat)
  /-- The brace before an expression. -/
  | hole
  deriving DecidableEq, Repr

/-- What a backslash in a raw string still takes along: an escaped quote or backslash, and then the
end of a line. -/
inductive RawEscape where
  | none | backslash | escaped | carriageReturn
  deriving DecidableEq, Repr

/-- A stretch of text, or the closing quotes if there is none; `none` if the body cannot go on like
this. `length` counts the characters passed and `hasContent` tells whether one of them was text. -/
def StringPiece.plain? (d : Delimiter) (hasContent : Bool) (raw : RawEscape) (length : Nat) :
    List Char → Option StringPiece
  | [] => none
  | c :: cs =>
    let textSoFar := if hasContent then some (.text length) else none
    if raw == .backslash && (c == d.quote || c == '\\') then
      plain? d hasContent .escaped (length + 1) cs
    else if (raw == .backslash || raw == .escaped) && c == '\r' then
      plain? d hasContent .carriageReturn (length + 1) cs
    else if raw != .none && c == '\n' then plain? d hasContent .none (length + 1) cs
    else if c.toNat == 0 then none
    else if (c.toNat == 0x7B || c.toNat == 0x7D) && d.isFormat then textSoFar
    else if c == '\\' then
      if d.isRaw then plain? d hasContent .backslash (length + 1) cs
      else if d.isBytes then
        match cs with
        | [] => textSoFar
        | e :: rest =>
          if e == 'N' || e == 'u' || e == 'U' then
            match rest with
            | [] => none
            | _ :: rest' => plain? d true .none (length + 3) rest'
          else textSoFar
      else textSoFar
    else if c == d.quote then
      if d.triple then
        match cs with
        | q :: rest =>
          if q == d.quote then
            if rest.head? == some d.quote then
              if hasContent then some (.text length) else some (.close (length + 3))
            else some (.text (length + 2))
          else some (.text (length + 1))
        | [] => some (.text (length + 1))
      else if hasContent then some (.text length)
      else some (.close (length + 1))
    else if c == '\n' && hasContent && !d.triple then none
    else plain? d true .none (length + 1) cs

/-- The length of an escape. An escape that spells a character by number or by no known letter
counts as the backslash alone, since its other characters are text. -/
def escapeLength : List Char → Nat
  | '\\' :: '\n' :: _ => 2
  | '\\' :: '\r' :: '\n' :: _ => 3
  | '\\' :: 'N' :: rest =>
    match rest with
    | c :: name =>
      if c.toNat == 0x7B then
        let inside := (name.takeWhile fun c => c.toNat != 0x7D).length
        if inside > 0 && inside < name.length then inside + 4 else 1
      else 1
    | [] => 1
  | '\\' :: c :: _ => if c == '\'' || c == '"' || c == '\\' then 2 else 1
  | _ => 1

/-- The next piece of the body. In a format string, doubled braces are text. -/
def StringPiece.read? (d : Delimiter) (cs : List Char) : Option StringPiece :=
  match cs with
  | [] => none
  | c :: rest =>
    if d.isFormat && (c.toNat == 0x7B || c.toNat == 0x7D) then
      if rest.head? == some c then some (.text 2)
      else if c.toNat == 0x7B then some .hole
      else none
    else match plain? d false .none 0 cs with
      | some piece => some piece
      | none => if c == '\\' then some (.text (escapeLength cs)) else none

end SourceCorpus.Syntax
