import SourceCorpus.Graph.Resolution

/-!
The graph of a model. Every call of an object is a relationship, and so are every base of a class
and every name that an import makes known.
-/

namespace SourceCorpus

namespace CodeModel

/-- The relationship for a call inside the object. It instantiates its target if every visible
definition of the called name is a class. -/
def callRelation? (m : CodeModel) (id : ObjectId) (o : CodeObject) (call : CallSite) :
    Option Relation :=
  match m.resolve id call.callee with
  | .external name => some ⟨o.qualifiedName, name, .calls, false, call.line⟩
  | .object found => (m.get? found.id).map fun target =>
    let kind := if found.allClasses && target.kind == .class then .instantiates else .calls
    ⟨o.qualifiedName, target.qualifiedName, kind, true, call.line⟩

/-- The target for a base of a class, and whether it is a class of the file. -/
def baseTarget? (m : CodeModel) (scope : ObjectId) (base : String) : Option (String × Bool) :=
  let name := stripSubscript base
  match m.resolve scope name with
  | .external target => some (target, false)
  | .object found =>
    if m.kindOf? found.id == some .class then
      (m.get? found.id).map fun target => (target.qualifiedName, true)
    else some (name, false)

def baseRelation? (m : CodeModel) (o : CodeObject) (base : String) : Option Relation :=
  (m.baseTarget? (scopeOfStatement o) base).map fun (target, resolved) =>
    ⟨o.qualifiedName, target, .inherits, resolved, o.span.startLine⟩

def basesOf (o : CodeObject) : List String := (o.classData?.map (·.bases)).getD []

/-- The relationships that start at the object: its calls, then its bases. -/
def objectRelations (m : CodeModel) (id : ObjectId) (o : CodeObject) : List Relation :=
  o.calls.filterMap (m.callRelation? id o) ++ (basesOf o).filterMap (m.baseRelation? o)

def importRelations (m : CodeModel) (i : Import) : List Relation :=
  i.targets.map fun target =>
    ⟨moduleName, Naming.absoluteName m.file target, .imports, false, i.line⟩

/-- All relationships of the file, those of the objects before the imports. -/
def relations (m : CodeModel) : List Relation :=
  m.entries.flatMap (fun (id, o) => m.objectRelations id o) ++ m.imports.flatMap m.importRelations

end CodeModel

/-- The graph of a model. The objects are its first nodes. -/
def Graph.ofModel (m : CodeModel) : Graph :=
  let objects := m.objects.toList.foldl
    (fun g o => g.addNode o.qualifiedName (.object o.kind)) empty
  m.relations.foldl addEdge objects

end SourceCorpus
