import SourceCorpus.Discovery.Glob
import SourceCorpus.Disk.Basic
import SourceCorpus.Text.Blank
import SourceCorpus.Text.Lines

/-!
Files that name what is to be ignored. Each line is a pattern for what stands below the directory of
the file; the last line that matches decides, and the files of nearer directories come before those
of farther ones.
-/

namespace SourceCorpus

structure IgnoreRule where
  globs : List Glob
  /-- Whether what matches is kept. -/
  keeps : Bool
  directoriesOnly : Bool
  deriving DecidableEq, Repr

namespace IgnoreRule

/-- A line without the blanks at its end, unless a backslash stands before the last one. -/
def trimLine (line : List Char) : List Char :=
  if ['\\', ' '].isSuffixOf line then line else Text.trimEndChars line

/-- A pattern and whether it is bound to the directory of its file, whether what matches is kept. -/
structure Marked where
  pattern : List Char
  anchored : Bool
  keeps : Bool

/-- Takes the marks at the start of a line away. -/
def Marked.ofLine : List Char → Marked
  | '\\' :: '!' :: cs => ⟨'!' :: cs, false, false⟩
  | '\\' :: '#' :: cs => ⟨'#' :: cs, false, false⟩
  | '!' :: '/' :: cs => ⟨cs, true, true⟩
  | '!' :: cs => ⟨cs, false, true⟩
  | '/' :: cs => ⟨cs, true, false⟩
  | cs => ⟨cs, false, false⟩

/-- The pattern without the slash at its end, and whether there was one. -/
def withoutSlash (pattern : List Char) : List Char × Bool :=
  if pattern.getLast? = some '/' then
    let rest := pattern.dropLast
    (if rest.getLast? = some '\\' then rest.dropLast else rest, true)
  else (pattern, false)

/-- Whether the pattern begins with any directories. -/
def startsAnywhere (pattern : List Char) : Bool :=
  ['*', '*', '/'].isPrefixOf pattern || pattern = ['*', '*']

/-- The pattern for whole paths below the directory. One without a slash matches at every depth, and
one for all that is in a directory does not match the directory. -/
def wholePattern (anchored : Bool) (pattern : List Char) : List Char :=
  let pattern :=
    if anchored || pattern.contains '/' || startsAnywhere pattern then pattern
    else ['*', '*', '/'] ++ pattern
  if ['/', '*', '*'].isSuffixOf pattern then pattern ++ ['/', '*'] else pattern

/-- The rule that a line makes. Comments and patterns that cannot be read make none. -/
def ofLine? (line : List Char) : Option IgnoreRule :=
  let line := if line.head? = some '#' then [] else trimLine line
  if line = [] then none
  else
    let marked := Marked.ofLine line
    let (pattern, directoriesOnly) := withoutSlash marked.pattern
    (Glob.ofText? (wholePattern marked.anchored pattern)).map fun globs =>
      ⟨globs, marked.keeps, directoriesOnly⟩

def applies (r : IgnoreRule) (isDirectory : Bool) (path : List UInt8) : Bool :=
  (isDirectory || !r.directoriesOnly) && r.globs.any fun glob => Glob.covers glob path

/-- Whether the rules ignore the path; `none` if no rule matches. -/
def decide? (rules : List IgnoreRule) (isDirectory : Bool) (path : List UInt8) : Option Bool :=
  (rules.reverse.find? fun rule => rule.applies isDirectory path).map fun rule => !rule.keeps

end IgnoreRule

namespace Ignore

/-- The lines of bytes up to the first that is no text. -/
def textLines (bytes : List UInt8) : List (List Char) :=
  let pieces : List (List UInt8) := bytes.foldr (fun byte pieces =>
    if byte == 10 then [] :: pieces
    else (byte :: pieces.headD []) :: pieces.tail) [[]]
  let decoded := (pieces.map fun piece => (Utf8.decode piece).toOption).takeWhile Option.isSome
  (decoded.filterMap id).map fun line => Text.dropCarriageReturn line.toList

def linesOf : Content → List (List Char)
  | .text text => Text.lines text.toList
  | .bytes bytes => textLines bytes

/-- The lines without a mark for the order of bytes at the start of the first. -/
def withoutMark : List (List Char) → List (List Char)
  | [] => []
  | line :: lines => line.dropWhile (· = '\uFEFF') :: lines

/-- The rules in a file; there are none if it cannot be read. -/
def rulesAt (d : Disk) (p : Place) : List IgnoreRule :=
  match d.entry? p with
  | some (.file content) => (withoutMark (linesOf content)).filterMap IgnoreRule.ofLine?
  | _ => []

/-- The files that say what is ignored in a directory, those that come first before the others. -/
def fileNames : List Place := [[".ignore"], [".gitignore"], [".git", "info", "exclude"]]

/-- The directories around a place, the nearest first. -/
def around (p : Place) : List Place := (([] : Place) :: Place.prefixes p.dropLast).reverse

def pathBytes (directory p : Place) : List UInt8 :=
  Utf8.encode ("/".intercalate ((directory.below? p).getD [])).toList

/-- What the file with the name in the directory says about the place. -/
def verdict? (d : Disk) (name directory p : Place) : Option Bool :=
  IgnoreRule.decide? (rulesAt d (directory ++ name)) (d.isDirectory p) (pathBytes directory p)

/-- Whether the place is ignored: the first file that says something about it decides. -/
def ignores (d : Disk) (p : Place) : Bool :=
  let verdicts := fileNames.flatMap fun name => (around p).map fun directory =>
    verdict? d name directory p
  (verdicts.findSome? id).getD false

end Ignore

end SourceCorpus
