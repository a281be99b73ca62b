import SourceCorpus.Extraction.Facts
import SourceCorpus.Model.CodeModel

/-!
Numbering the definitions. Objects are numbered in the order of their definitions, so an object
comes after the one that contains it and before everything behind it; the objects inside one are
numbered in a row.
-/

namespace SourceCorpus.Extraction

/-- The objects and imports met so far, in order. The children of an object are not filled in. -/
structure Arena where
  objects : Array CodeObject
  imports : Array Import

namespace Arena

def hasName (a : Arena) (name : String) : Bool := a.objects.any (·.qualifiedName == name)

/-- The first of the names `base#2`, `base#3`, … that is free, tried at most `tries` times. -/
def numberedName (a : Arena) (base : String) : Nat → Nat → String
  | 0, suffix => base ++ "#" ++ toString suffix
  | tries + 1, suffix =>
    let candidate := base ++ "#" ++ toString suffix
    if a.hasName candidate then a.numberedName base tries (suffix + 1) else candidate

/-- The name itself if it is free, and else the name with the first free number. There are more
numbers to try than names that are taken. -/
def uniqueName (a : Arena) (base : String) : String :=
  if a.hasName base then a.numberedName base a.objects.size 2 else base

end Arena

/-! ### What the facts of a body say about its object -/

def callsIn (facts : List Fact) : List CallSite :=
  facts.filterMap fun
    | .called site => some site
    | _ => none

def referencesIn (facts : List Fact) : List NameRef :=
  firstOccurrences (facts.filterMap fun
    | .named ref => some ref
    | _ => none)

def variablesIn (facts : List Fact) : List Variable :=
  facts.filterMap fun
    | .assigned v => some v
    | _ => none

def returnsIn (facts : List Fact) : List String :=
  facts.filterMap fun
    | .returned value => some value
    | _ => none

def instanceAttributesIn (facts : List Fact) : List String :=
  facts.filterMap fun
    | .instanceAttribute name => some name
    | _ => none

/-- The names that the definitions in the body of a class assign on their instance. -/
def memberAttributesIn (facts : List Fact) : List String :=
  facts.flatMap fun
    | .defined _ body => instanceAttributesIn body
    | _ => []

def payloadOf (header : Header) (facts : List Fact) : Payload :=
  let data : FunctionData := ⟨header.isAsync, returnsIn facts, variablesIn facts⟩
  match header.kind with
  | .module => .module
  | .class => .class
      { bases := header.bases
        keywords := header.keywords
        attributes := variablesIn facts
        instanceAttributes := firstOccurrences (memberAttributesIn facts) }
  | .function => .function data
  | .method => .method data

/-- The qualified name for a definition inside the object, before it is made unique. -/
def nameInside (parent : CodeObject) (name : String) : String :=
  if parent.kind = .module then name else parent.qualifiedName ++ "." ++ name

def objectOf (a : Arena) (owner : ObjectId) (parent : CodeObject) (header : Header)
    (facts : List Fact) : CodeObject :=
  { name := header.name
    qualifiedName := a.uniqueName (nameInside parent header.name)
    docstring := header.docstring
    span := header.span
    decorators := header.decorators
    parameters := header.parameters
    returnType := header.returnType
    calls := callsIn facts
    references := referencesIn facts
    children := []
    parent := some owner
    depth := parent.depth + 1
    payload := payloadOf header facts }

mutual

/-- Adds what one fact of the owner's body defines or imports. -/
def addFact (owner : ObjectId) (parent : CodeObject) (a : Arena) : Fact → Arena
  | .imported statement => { a with imports := a.imports.push (statement owner) }
  | .defined header body =>
    let o := objectOf a owner parent header body
    addFacts a.objects.size o { a with objects := a.objects.push o } body
  | _ => a

/-- Adds what the facts of the owner's body define and import, in order. -/
def addFacts (owner : ObjectId) (parent : CodeObject) (a : Arena) : List Fact → Arena
  | [] => a
  | fact :: facts => addFacts owner parent (addFact owner parent a fact) facts

end

/-- Gives every object the objects that it contains. -/
def withChildren (objects : List CodeObject) : List CodeObject :=
  objects.zipIdx.map fun (o, id) =>
    { o with
      children := (objects.zipIdx.filter fun (c, _) => c.parent == some id).map (·.2) }

end SourceCorpus.Extraction
