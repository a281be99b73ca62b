import SourceCorpus.Text.Blank
import SourceCorpus.Text.Bytes
import SourceCorpus.Text.Identifier
import SourceCorpus.Text.Lines

/-!
Docstrings: the contents of string literals and the removal of their margin.
-/

namespace SourceCorpus.Docstring

open Text

/-- The text between its quotes, if it has these quotes at both ends. -/
def between? (quotes body : List Char) : Option (List Char) :=
  if 2 * quotes.length ≤ body.length ∧ quotes.isPrefixOf body ∧ quotes.isSuffixOf body then
    some ((body.drop quotes.length).take (body.length - 2 * quotes.length))
  else none

/-- The contents of a string literal, with escapes as they are written. -/
def literalChars (raw : List Char) : List Char :=
  let body := raw.dropWhile isAsciiLetter
  (([['"', '"', '"'], ['\'', '\'', '\''], ['"'], ['\'']].findSome? fun quotes =>
    between? quotes body)).getD body

/-- Every tab as eight spaces. -/
def expandTabs (cs : List Char) : List Char :=
  cs.flatMap fun c => if c = '\t' then List.replicate 8 ' ' else [c]

/-- The number of blanks at the start of the line. -/
def margin (line : List Char) : Nat := (line.takeWhile isBlank).length

/-- The smallest margin of the lines that are not blank; zero if all are. -/
def commonMargin (lines : List (List Char)) : Nat :=
  (((lines.filter fun line => !isAllBlank line).map margin).min?).getD 0

/-- The characters of a text that begins at the byte `start`, each with the byte that it begins at. -/
def charOffsets : Nat → List Char → List (Nat × Char)
  | _, [] => []
  | start, c :: cs => (start, c) :: charOffsets (start + c.utf8Size) cs

/-- The byte at which the line goes on without its first `columns` characters, or without the blanks
among them if there are others. -/
def stripOffset (columns : Nat) (line : List Char) : Nat :=
  let offsets := charOffsets 0 line
  let next? := ((offsets.take columns).find? fun at_ => !isBlank at_.2).or offsets[columns]?
  next?.elim (byteLength line) (·.1)

/-- The line from that byte on. Nothing would be left of a line that is cut inside a character. -/
def stripColumns (columns : Nat) (line : List Char) : List Char :=
  (dropBytes? (stripOffset columns line) line).getD []

/-- The lines from the first to the last that is not blank. -/
def dropBlankEnds (lines : List (List Char)) : List (List Char) :=
  ((lines.reverse.dropWhile isAllBlank).reverse).dropWhile isAllBlank

/-- The lines without their margin: the first loses all blanks at its start, the others the margin
that they have in common. -/
def unmargined : List (List Char) → List (List Char)
  | [] => []
  | first :: rest => trimStartChars first :: rest.map (stripColumns (commonMargin rest))

def cleanChars (raw : List Char) : List Char :=
  joinWith ['\n'] (dropBlankEnds (unmargined (lines (expandTabs raw))))

/-- The text of a docstring without its margin and without blank lines at either end. -/
def clean (raw : String) : String := String.ofList (cleanChars raw.toList)

end SourceCorpus.Docstring
