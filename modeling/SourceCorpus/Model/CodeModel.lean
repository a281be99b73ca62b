import SourceCorpus.Model.Import
import SourceCorpus.Model.Table
import SourceCorpus.Text.Bytes
import SourceCorpus.Text.Identifier

/-!
The model of one source file, and the questions that it answers by itself: who contains whom, what
stands at the top level, and which text belongs to an object.
-/

namespace SourceCorpus

/-- The qualified name of the object for the module. -/
def moduleName : String := "<module>"

structure SourceFile where
  id : String
  source : String
  deriving DecidableEq, Repr

/-- A statement at the top level of the module. -/
structure Statement where
  kind : String
  span : Span
  deriving DecidableEq, Repr

structure CodeModel where
  file : String
  source : String
  statements : List Statement
  objects : ObjectTable
  /-- What is assigned at the top level. -/
  globals : List Variable
  imports : List Import
  docstring : Option String

/-- Whether the name is spelled like a constant: at least one letter, and besides capital letters
only digits and underscores. -/
def isConstantName (name : String) : Bool :=
  name.toList.any Text.isAsciiLetter &&
    name.toList.all fun c => ('A' ≤ c && c ≤ 'Z') || Text.isAsciiDigit c || c == '_'

/-- The list with the value at its end, unless it is there already. -/
def pushUnique {α : Type} [BEq α] (list : List α) (value : α) : List α :=
  if list.contains value then list else list ++ [value]

/-- The first occurrences of the values, in order. -/
def firstOccurrences {α : Type} [BEq α] (values : List α) : List α := values.foldl pushUnique []

theorem eraseDups_concat {α : Type} [BEq α] [LawfulBEq α] (l : List α) (a : α) :
    (l ++ [a]).eraseDups = if l.contains a then l.eraseDups else l.eraseDups ++ [a] := by
  rw [List.eraseDups_append, List.removeAll]
  cases h : l.contains a
  · rw [List.filter_cons_of_pos (by simpa using h)]
    simp [List.eraseDups_cons]
  · rw [List.filter_cons_of_neg (by simpa using h)]
    simp

theorem firstOccurrences_eq_eraseDups {α : Type} [BEq α] [LawfulBEq α] (values : List α) :
    firstOccurrences values = values.eraseDups := by
  rw [← List.reverse_reverse values]
  induction values.reverse with
  | nil => rfl
  | cons a values ih =>
    have hconcat : firstOccurrences (values.reverse ++ [a]) =
        pushUnique (firstOccurrences values.reverse) a := by
      rw [firstOccurrences, List.foldl_append]
      rfl
    rw [List.reverse_cons, hconcat, eraseDups_concat, ih, pushUnique]
    simp

namespace CodeModel

/-- The object for the module comes first. -/
def moduleId : ObjectId := 0

def size (m : CodeModel) : Nat := m.objects.size

def get? (m : CodeModel) (id : ObjectId) : Option CodeObject := m.objects.get? id

def idOf? (m : CodeModel) (name : String) : Option ObjectId := m.objects.idOf? name

def byName? (m : CodeModel) (name : String) : Option CodeObject := (m.idOf? name).bind m.get?

/-- The objects with their places. -/
def entries (m : CodeModel) : List (ObjectId × CodeObject) :=
  m.objects.toList.zipIdx.map fun (o, id) => (id, o)

def parentOf? (m : CodeModel) (id : ObjectId) : Option CodeObject := do
  m.get? (← (← m.get? id).parent)

def childrenOf (m : CodeModel) (id : ObjectId) : List CodeObject :=
  ((m.get? id).map (·.children)).getD [] |>.filterMap m.get?

/-- Finds the objects that wait and all that is below them, the next one first. What an object
contains waits before all that waited with it. There is no end where objects contain each other. -/
def descend? (m : CodeModel) (found : List CodeObject) :
    List CodeObject → Option (List CodeObject)
  | [] => some found.reverse
  | o :: waiting => m |>.descend? (o :: found) (o.children.filterMap m.get? ++ waiting)
partial_fixpoint

/-- All objects below the given one, in source order. -/
def descendantsOf (m : CodeModel) (id : ObjectId) : List CodeObject :=
  (m.descend? [] (m.childrenOf id)).getD []

/-- The nearest class on the way from the object to the module, at most `steps` away. -/
def classAbove? (m : CodeModel) : Nat → ObjectId → Option ObjectId
  | 0, _ => none
  | steps + 1, id => do
    let o ← m.get? id
    if o.kind == .class then return id
    m.classAbove? steps (← o.parent)

/-- The nearest class that contains the object or is the object itself. -/
def enclosingClass? (m : CodeModel) (id : ObjectId) : Option ObjectId :=
  m.classAbove? (m.size + 1) id

/-- The text of the object's span; empty if the span does not fit the source. -/
def sourceOf (m : CodeModel) (o : CodeObject) : String :=
  String.ofList ((sliceBytes? o.span.startByte o.span.endByte m.source.toList).getD [])

/-- The objects of the kind that stand directly in the module. -/
def topLevel (m : CodeModel) (kind : ObjectKind) : List CodeObject :=
  (m.childrenOf moduleId).filter (·.kind == kind)

def constants (m : CodeModel) : List Variable := m.globals.filter (isConstantName ·.name)

/-- The imported modules, each once. -/
def dependencies (m : CodeModel) : List String := firstOccurrences (m.imports.map (·.module))

end CodeModel

end SourceCorpus
