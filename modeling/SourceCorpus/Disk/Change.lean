import SourceCorpus.Disk.Basic

/-!
Changes of a disk. A change that fails leaves the disk as it is, and ends the list that it stands
in: what a list of changes may leave behind is what its beginnings leave.
-/

namespace SourceCorpus

inductive Change where
  /-- Makes the directory at a place, and those on the way to it. -/
  | makeDirectory (place : Place)
  | write (place : Place) (content : Content)
  /-- Moves a file to another place, whatever file stands there. -/
  | rename (source target : Place)
  | removeFile (place : Place)
  deriving DecidableEq, Repr

namespace Disk

def makeOneDirectory (d : Disk) (p : Place) : Disk :=
  if (d.entry? p).isNone then d.put p .directory else d

def makeDirectory? (d : Disk) (p : Place) : Option Disk :=
  if p.prefixes.any d.isFile then none else some (p.prefixes.foldl makeOneDirectory d)

/-- Whether a file can stand at the place. -/
def hasRoomFor (d : Disk) (p : Place) : Bool := d.isDirectory p.dropLast && !d.isDirectory p

def write? (d : Disk) (p : Place) (content : Content) : Option Disk :=
  if d.hasRoomFor p then some (d.put p (.file content)) else none

def rename? (d : Disk) (source target : Place) : Option Disk :=
  match d.entry? source with
  | some (.file content) =>
    if d.hasRoomFor target then some ((d.without source).put target (.file content)) else none
  | _ => none

def removeFile? (d : Disk) (p : Place) : Option Disk :=
  if d.isFile p then some (d.without p) else none

def applied? (d : Disk) : Change → Option Disk
  | .makeDirectory place => d.makeDirectory? place
  | .write place content => d.write? place content
  | .rename source target => d.rename? source target
  | .removeFile place => d.removeFile? place

/-- Makes the changes in order, up to the first that fails, and tells whether none did. -/
def run (d : Disk) : List Change → Disk × Bool
  | [] => (d, true)
  | change :: changes =>
    match d.applied? change with
    | some d => d.run changes
    | none => (d, false)

end Disk

namespace Change

/-- Where a text is written before it takes the place of a file. -/
def draftPlace (place : Place) : Place := place.withSuffix ".tmp"

/-- Gives the file at the place a new text, so that it never holds a part of it. -/
def replaceFile (place : Place) (text : String) : List Change :=
  [.makeDirectory place.dropLast, .write (draftPlace place) (.text text),
    .rename (draftPlace place) place]

end Change

end SourceCorpus
