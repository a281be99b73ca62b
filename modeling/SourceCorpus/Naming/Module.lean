import SourceCorpus.Text.Path

/-!
Names of modules and files. A file is known by its path below the root of a run, and its module by
the dotted names on that path; a relative import is resolved against the path of the importing file,
and nothing is looked up on disk.
-/

namespace SourceCorpus.Naming

/-- The names among the components of a path, the last one without its extension. -/
def modulePartsOf (components : List Path.Component) : List (List Char) :=
  match components.getLast? with
  | some (.normal name) =>
    components.dropLast.filterMap Path.Component.name? ++
      (Path.Component.ofSegment? (Path.splitExtension name).1).toList.filterMap
        Path.Component.name?
  | _ => components.filterMap Path.Component.name?

/-- The dotted name of the module in the file. -/
def toModuleName (path : String) : String :=
  String.ofList (Text.joinWith ['.'] (modulePartsOf (Path.components path.toList)))

/-- The path with slashes only. -/
def withSlashes (path : List Char) : List Char := path.map fun c => if c = '\\' then '/' else c

/-- The parts of a file's path that a relative import can climb, the file included. -/
def pathParts (file : List Char) : List (List Char) :=
  (Text.splitChar '/' (withSlashes file)).filter fun part => part ≠ [] && part ≠ ['.']

/-- Leaves the last `levels` entries; `none` if there are not so many. -/
def climb? {α : Type} (parts : List α) (levels : Nat) : Option (List α) :=
  if levels ≤ parts.length then some (parts.take (parts.length - levels)) else none

def absoluteChars (file dotted : List Char) : List Char :=
  let levels := (dotted.takeWhile (· = '.')).length
  if levels = 0 then dotted
  else
    let suffix := dotted.drop levels
    match climb? (pathParts file).dropLast (levels - 1) with
    | none => dotted
    | some package =>
      let parts := if suffix = [] then package else package ++ [suffix]
      if parts = [] then dotted else Text.joinWith ['.'] parts

/-- The absolute name for a dotted name in the file. One leading dot stands for the package of the
file, and every further dot for the package around it; a name that climbs above the root, or that
names nothing, stays as it is. -/
def absoluteName (file dotted : String) : String :=
  String.ofList (absoluteChars file.toList dotted.toList)

/-- The path of a file relative to the root; a root that is the file itself, or that the file does
not lie below, leaves the name of the file. -/
def relativeChars (root path : List Char) : List Char :=
  let ofName := (Path.fileName? path).getD path
  let relative := match Path.stripBase? root path with
    | some rest => if rest = [] then ofName else rest
    | none => ofName
  withSlashes relative

/-- The identifier of a file below the root. -/
def relativeId (root path : String) : String :=
  String.ofList (relativeChars root.toList path.toList)

end SourceCorpus.Naming
