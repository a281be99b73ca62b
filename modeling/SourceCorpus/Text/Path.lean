import SourceCorpus.Text.Lines

/-!
Paths as text. A path is a sequence of segments between slashes; empty segments and `.` count for
nothing, except that a leading slash makes the path absolute and a leading `.` is kept.
-/

namespace SourceCorpus.Path

inductive Component where
  /-- The slash at the start of an absolute path. -/
  | root
  /-- A `.` at the start of a relative path. -/
  | current
  | parent
  | normal (name : List Char)
  deriving DecidableEq, Repr

/-- What a segment behind the start of a path stands for. -/
def Component.ofSegment? (segment : List Char) : Option Component :=
  if segment = [] ∨ segment = ['.'] then none
  else if segment = ['.', '.'] then some .parent
  else some (.normal segment)

def Component.name? : Component → Option (List Char)
  | .normal name => some name
  | _ => none

/-- The slash or the `.` that a path begins with. -/
def leading? (path : List Char) : Option Component :=
  match path with
  | '/' :: _ => some .root
  | ['.'] | '.' :: '/' :: _ => some .current
  | _ => none

def components (path : List Char) : List Component :=
  (leading? path).toList ++ (Text.splitChar '/' path).filterMap Component.ofSegment?

def fileName? (path : List Char) : Option (List Char) :=
  (components path).getLast?.bind Component.name?

/-- A file name cut at its last dot, unless that is its first character. The name `..` has no
extension. -/
def splitExtension (name : List Char) : List Char × Option (List Char) :=
  if name = ['.', '.'] then (name, none)
  else
    let extension := (name.reverse.takeWhile (· ≠ '.')).reverse
    let stem := name.take (name.length - extension.length - 1)
    if extension.length = name.length ∨ stem = [] then (name, none) else (stem, some extension)

/-- The text without the empty and `.` segments at its start. -/
def skipEmptySegments : List Char → List Char
  | [] => []
  | ['.'] => []
  | '/' :: cs => skipEmptySegments cs
  | '.' :: '/' :: cs => skipEmptySegments cs
  | cs => cs

/-- The text without the empty and `.` segments at its end. -/
def dropEmptySegments (cs : List Char) : List Char := (skipEmptySegments cs.reverse).reverse

/-- The first component of a path and the text behind it. Once `started`, the text is what follows
an earlier component. -/
def next? (started : Bool) (path : List Char) : Option (Component × List Char) :=
  match started, leading? path with
  | false, some c => some (c, path.drop 1)
  | _, _ =>
    let body := skipEmptySegments path
    (Component.ofSegment? (body.takeWhile (· ≠ '/'))).map fun c =>
      (c, (body.dropWhile (· ≠ '/')).drop 1)

/-- What follows the components at the start of the path, as it is written. -/
def stripComponents? (started : Bool) (path : List Char) : List Component → Option (List Char)
  | [] =>
    if started then some (dropEmptySegments (skipEmptySegments path))
    else
      let kept := if (leading? path).isSome then 1 else 0
      some (path.take kept ++ dropEmptySegments (path.drop kept))
  | c :: cs =>
    match next? started path with
    | some (first, rest) => if first = c then stripComponents? true rest cs else none
    | none => none

/-- The path relative to `base`, if it lies below it. -/
def stripBase? (base path : List Char) : Option (List Char) :=
  stripComponents? false path (components base)

end SourceCorpus.Path
