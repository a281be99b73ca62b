import SourceCorpus.Discovery.Ignore
import SourceCorpus.Model.CodeModel
import SourceCorpus.Naming.Module

/-!
The source files below a place, in the order of their identifiers. Directories of tools and whatever
is ignored are left out; a place that is itself a file is taken as it is.
-/

namespace SourceCorpus.Discovery

/-- Directories that hold no sources of their own. -/
def toolDirectories : List String :=
  [".git", "__pycache__", ".venv", "venv", ".tox", ".mypy_cache", "node_modules"]

def isSourceName (name : String) : Bool :=
  (Path.splitExtension name.toList).2.any fun extension => extension.map Char.toLower = ['p', 'y']

def isSkipped (d : Disk) (p : Place) : Bool :=
  (d.isDirectory p && toolDirectories.contains (p.getLast?.getD "")) || Ignore.ignores d p

/-- Whether a walk from the root comes to what has these names behind it. -/
def isReached (d : Disk) (root names : Place) : Bool :=
  names.prefixes.all fun part => !isSkipped d (root ++ part)

def namesBelow (d : Disk) (root : Place) : List Place :=
  ((d.filesBelow root).map (·.1)).filter fun names =>
    isSourceName (names.getLast?.getD "") && isReached d root names

/-- A source file that was found: its identifier and its place. -/
structure Found where
  id : String
  place : Place
  deriving DecidableEq, Repr

def Found.notAfter (a b : Found) : Bool := a.id ≤ b.id

/-- What is found at the end of the names behind the root. -/
def foundAt (root : String) (names : Place) : Found :=
  ⟨Naming.relativeId root ("/".intercalate (root :: names)), Place.ofPath root ++ names⟩

/-- The source files at or below the root, by their identifiers. -/
def find (d : Disk) (root : String) : List Found :=
  let place := Place.ofPath root
  if d.isFile place then
    if isSourceName (place.getLast?.getD "") then [⟨Naming.relativeId root root, place⟩] else []
  else if d.isDirectory place then
    ((namesBelow d place).map (foundAt root)).mergeSort Found.notAfter
  else []

/-- The source files at or below the root that hold text. -/
def load (d : Disk) (root : String) : List SourceFile :=
  (find d root).filterMap fun found =>
    match d.readText found.place with
    | .ok source => some ⟨found.id, source⟩
    | .error _ => none

end SourceCorpus.Discovery
