import SourceCorpus.Graph.Basic
import SourceCorpus.Model.CodeModel
import SourceCorpus.Naming.Module

/-!
What a name in a file refers to. A dotted name is looked up from its head: in the scopes around the
place, innermost first, where the bodies of enclosing classes do not count; then along its further
parts, each in the body of the one before. A name on the instance or the class itself is looked up
in the enclosing class and then in its bases, depth first.
-/

namespace SourceCorpus

/-- An object that a name refers to, and whether all its visible definitions are classes. -/
structure Found where
  id : ObjectId
  allClasses : Bool
  deriving DecidableEq, Repr

inductive Resolution where
  | object (found : Found)
  | external (name : String)
  deriving DecidableEq, Repr

namespace Import

/-- The names that the statement binds, each with the dotted name that it stands for. -/
def bindings (file : String) (i : Import) : List (String × String) :=
  if i.isFrom then
    (i.names.filter (·.name != "*")).map fun n =>
      (n.asName.getD n.name, Naming.absoluteName file (qualify i.module n.name))
  else match i.asName with
    | some name => [(name, i.module)]
    | none => []

end Import

/-- The head of a dotted name and what follows its first dot. -/
def splitHead (name : String) : String × Option String :=
  let head := name.toList.takeWhile (· ≠ '.')
  match name.toList.dropWhile (· ≠ '.') with
  | [] => (String.ofList head, none)
  | _ :: rest => (String.ofList head, some (String.ofList rest))

/-- The base of a class without its type arguments. -/
def stripSubscript (base : String) : String := String.ofList (base.toList.takeWhile (· ≠ '['))

/-- The name behind `self.` or `cls.`. -/
def memberPath? (name : String) : Option String :=
  match name.toList with
  | 's' :: 'e' :: 'l' :: 'f' :: '.' :: rest => some (String.ofList rest)
  | 'c' :: 'l' :: 's' :: '.' :: rest => some (String.ofList rest)
  | _ => none

namespace CodeModel

/-- The names that imports bind anywhere in the file. The first binding of a name counts. -/
def importBindings (m : CodeModel) : List (String × String) :=
  m.imports.flatMap (Import.bindings m.file)

def kindOf? (m : CodeModel) (id : ObjectId) : Option ObjectKind := (m.get? id).map (·.kind)

/-- The scopes from the given one outwards, at most `steps` of them, without classes. -/
def outerScopes (m : CodeModel) : Nat → Option ObjectId → List ObjectId
  | 0, _ => []
  | _, none => []
  | steps + 1, some id =>
    match m.get? id with
    | none => []
    | some o =>
      let outer := m.outerScopes steps o.parent
      if o.kind == .class then outer else id :: outer

/-- The object itself, then the scopes around it. -/
def scopeChain (m : CodeModel) (id : ObjectId) : List ObjectId :=
  id :: m.outerScopes (m.size + 1) ((m.get? id).bind (·.parent))

/-- The definitions of the name directly inside the scope. -/
def members (m : CodeModel) (scope : ObjectId) (name : String) : List ObjectId :=
  match m.get? scope with
  | some o => o.children.filter fun child => (m.get? child).any (·.name == name)
  | none => []

def areClasses (m : CodeModel) (ids : List ObjectId) : Bool :=
  ids.all fun id => m.kindOf? id == some .class

/-- The first definition of the name in the innermost scope that has one. All its definitions in the
scopes decide whether it is a class throughout. -/
def lookup? (m : CodeModel) (scopes : List ObjectId) (name : String) : Option Found :=
  let definitions := scopes.flatMap fun scope => m.members scope name
  definitions.head?.map fun id => ⟨id, m.areClasses definitions⟩

/-- Follows the parts of a path, each into the body of the object before. -/
def follow? (m : CodeModel) : Found → List String → Option Found
  | found, [] => some found
  | found, name :: names =>
    match m.members found.id name with
    | [] => none
    | id :: ids => m.follow? ⟨id, m.areClasses (id :: ids)⟩ names

/-- The object that a dotted path refers to, its head looked up in the scopes. -/
def resolvePath? (m : CodeModel) (scopes : List ObjectId) (path : String) : Option Found :=
  match Text.splitString '.' path with
  | [] => none
  | head :: names => (m.lookup? scopes head).bind fun found => m.follow? found names

/-- The scope in which a class statement is executed. -/
def scopeOfStatement (o : CodeObject) : ObjectId := o.parent.getD moduleId

/-- The classes of the file that a class names as its bases, in order. -/
def baseClasses (m : CodeModel) (id : ObjectId) : List ObjectId :=
  match (m.get? id).bind fun o => o.classData?.map fun data => (scopeOfStatement o, data.bases) with
  | none => []
  | some (scope, bases) => bases.filterMap fun base =>
    (m.resolvePath? (m.scopeChain scope) (stripSubscript base)).bind fun found =>
      if m.kindOf? found.id == some .class then some found.id else none

/-- Looks a path up in the body of a class and then in its bases, depth first. A class that was
visited before has nothing more to offer. The result is what was found and the visited classes. -/
def searchMember (m : CodeModel) (path : String) :
    Nat → List ObjectId → ObjectId → Option Found × List ObjectId
  | 0, visited, _ => (none, visited)
  | depth + 1, visited, id =>
    if visited.contains id then (none, visited)
    else match m.resolvePath? [id] path with
      | some found => (some found, id :: visited)
      | none => (m.baseClasses id).foldl
          (fun state base =>
            if state.1.isSome then state else searchMember m path depth state.2 base)
          (none, id :: visited)

/-- The member of a class at the path, its own or that of a base. No search goes deeper than there
are objects. -/
def member? (m : CodeModel) (id : ObjectId) (path : String) : Option Found :=
  (m.searchMember path (m.size + 1) [] id).1

/-- The object with the qualified name, unless it is the module. -/
def byFullName? (m : CodeModel) (name : String) : Option Found :=
  match m.idOf? name with
  | some id => if id = moduleId then none else some ⟨id, m.kindOf? id == some .class⟩
  | none => none

/-- The object of the file that a name inside the object refers to. -/
def resolveInFile? (m : CodeModel) (id : ObjectId) (name : String) : Option Found :=
  let found := match memberPath? name with
    | some path => (m.enclosingClass? id).bind fun cls => m.member? cls path
    | none => m.resolvePath? (m.scopeChain id) name
  found <|> m.byFullName? name

/-- The name outside the file: its head is replaced by what an import bound it to. -/
def externalName (m : CodeModel) (name : String) : String :=
  let (head, rest) := splitHead name
  match m.importBindings.lookup head, rest with
  | some target, some rest => target ++ "." ++ rest
  | some target, none => target
  | none, _ => name

/-- What a name inside the object refers to. -/
def resolve (m : CodeModel) (id : ObjectId) (name : String) : Resolution :=
  match m.resolveInFile? id name with
  | some found => .object found
  | none => .external (m.externalName name)

end CodeModel

end SourceCorpus
