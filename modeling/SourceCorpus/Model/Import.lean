import SourceCorpus.Model.Object

/-!
Import statements.
-/

namespace SourceCorpus

structure ImportedName where
  name : String
  asName : Option String
  deriving DecidableEq, Repr

structure Import where
  /-- The module as it is written, with the dots of a relative import. -/
  module : String
  /-- The names of a `from` import; none for a plain one. -/
  names : List ImportedName
  asName : Option String
  /-- The number of leading dots. -/
  level : Nat
  line : Nat
  /-- Whether the statement stands inside a definition or a compound statement. -/
  conditional : Bool
  /-- The object in whose body the statement stands. -/
  scope : ObjectId
  deriving DecidableEq, Repr

namespace Import

def isFrom (i : Import) : Bool := !i.names.isEmpty

/-- A name inside a module, as it is written. -/
def qualify (module name : String) : String :=
  if module.toList.getLast? == some '.' then module ++ name else module ++ "." ++ name

/-- The dotted names that the statement makes known, as they are written. -/
def targets (i : Import) : List String :=
  if i.names.isEmpty then [i.module] else i.names.map fun n => qualify i.module n.name

end Import

end SourceCorpus
