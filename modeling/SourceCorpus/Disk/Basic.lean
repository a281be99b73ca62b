import SourceCorpus.Failure
import SourceCorpus.Text.Path
import SourceCorpus.Text.Utf8

/-!
Files and directories. A disk knows what stands at each place; everything but its root stands in a
directory.
-/

namespace SourceCorpus

/-- The names on the way from the root of a disk. -/
abbrev Place := List String

namespace Place

/-- The place that one component of a path leads to. -/
def step (p : Place) : Path.Component → Place
  | .root => []
  | .current => p
  | .parent => p.dropLast
  | .normal name => p ++ [String.ofList name]

/-- The place that a path leads to from the given one. -/
def follow (p : Place) (path : String) : Place := (Path.components path.toList).foldl step p

def ofPath (path : String) : Place := follow [] path

def withSuffix (p : Place) (suffix : String) : Place :=
  match p.getLast? with
  | some name => p.dropLast ++ [name ++ suffix]
  | none => [suffix]

/-- The places on the way, from the first below the root to the place itself. -/
def prefixes : Place → List Place
  | [] => []
  | name :: names => [name] :: (prefixes names).map (name :: ·)

/-- The names behind a place, if the other place is the same or below it. -/
def below? : Place → Place → Option Place
  | [], q => some q
  | _ :: _, [] => none
  | a :: p, b :: q => if a = b then below? p q else none

end Place

inductive Content where
  | text (text : String)
  /-- Bytes that are no text. -/
  | bytes (bytes : List UInt8)
  deriving DecidableEq, Repr

def Content.ofBytes (bytes : List UInt8) : Content :=
  match Utf8.decode bytes with
  | .ok s => .text s
  | .error _ => .bytes bytes

inductive DiskEntry where
  | file (content : Content)
  | directory
  deriving DecidableEq, Repr

structure Disk where
  /-- The entries other than the root, each at a place of its own. -/
  entries : List (Place × DiskEntry)
  deriving DecidableEq, Repr

namespace Disk

def empty : Disk := ⟨[]⟩

def entry? (d : Disk) (p : Place) : Option DiskEntry :=
  if p = [] then some .directory else d.entries.lookup p

def isDirectory (d : Disk) (p : Place) : Bool := d.entry? p == some .directory

def isFile (d : Disk) (p : Place) : Bool :=
  match d.entry? p with
  | some (.file _) => true
  | _ => false

/-- The disk without what stands at the place itself. -/
def without (d : Disk) (p : Place) : Disk := ⟨d.entries.filter fun entry => entry.1 ≠ p⟩

/-- The disk with the entry at the place, whatever stood there. -/
def put (d : Disk) (p : Place) (e : DiskEntry) : Disk := ⟨(p, e) :: (d.without p).entries⟩

/-- The disk without the place and what is below it. -/
def erase (d : Disk) (p : Place) : Disk :=
  ⟨d.entries.filter fun entry => (p.below? entry.1).isNone⟩

def readText (d : Disk) (p : Place) : Except ReadFault String :=
  match d.entry? p with
  | some (.file (.text text)) => .ok text
  | some (.file (.bytes _)) => .error .notText
  | some .directory => .error .isDirectory
  | none => if p.prefixes.any d.isFile then .error .notDirectory else .error .notFound

/-- The files at the place and below it, with the names behind the place. -/
def filesBelow (d : Disk) (p : Place) : List (Place × Content) :=
  d.entries.filterMap fun (q, e) =>
    match p.below? q, e with
    | some names, .file content => some (names, content)
    | _, _ => none

end Disk

end SourceCorpus
