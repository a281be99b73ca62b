import SourceCorpus.Syntax.Kind
import SourceCorpus.Syntax.Position

/-!
Concrete syntax trees. A tree of a text that the grammar refuses holds an `error` or `missing` node;
`firstProblem?` finds the first one without entering the parts that are free of them.
-/

namespace SourceCorpus.Syntax

inductive Tree where
  /-- A stretch of text that the grammar accepts as `kind`. -/
  | node (kind : Kind) (role : Option Role) (extent : Extent) (children : List Tree)
  /-- A stretch of text that fits no rule. -/
  | error (extent : Extent) (children : List Tree)
  /-- A token that is not there but should be. -/
  | missing (token : String) (place : Position)
  deriving Inhabited, Repr

namespace Tree

def kind? : Tree → Option Kind
  | node kind _ _ _ => some kind
  | _ => none

def isKind (t : Tree) (kind : Kind) : Bool := t.kind? == some kind

def role? : Tree → Option Role
  | node _ role _ _ => role
  | _ => none

def hasRole (t : Tree) (role : Role) : Bool := t.role? == some role

def extent : Tree → Extent
  | node _ _ extent _ | error extent _ => extent
  | missing _ place => ⟨place, place⟩

def children : Tree → List Tree
  | node _ _ _ children | error _ children => children
  | missing _ _ => []

def start (t : Tree) : Position := t.extent.start

def isTrivia (t : Tree) : Bool := t.kind?.any Kind.isTrivia

def withRole (role : Role) : Tree → Tree
  | node kind _ extent children => node kind (some role) extent children
  | t => t

def child? (t : Tree) (role : Role) : Option Tree := t.children.find? (·.hasRole role)

/-- The characters of the source from the first to the last token of the tree. -/
def chars (t : Tree) (source : List Char) : List Char := t.extent.slice source

def text (t : Tree) (source : List Char) : String := String.ofList (t.chars source)

/-- The line of the first token, counted from one. -/
def line (t : Tree) : Nat := t.start.row + 1

/-! ### Problems -/

/-- Whether the node itself stands for a violation of the grammar. -/
def isProblem : Tree → Bool
  | node .. => false
  | error .. | missing .. => true

mutual

def hasProblem : Tree → Bool
  | node _ _ _ children => anyHasProblem children
  | error .. | missing .. => true

def anyHasProblem : List Tree → Bool
  | [] => false
  | t :: ts => hasProblem t || anyHasProblem ts

end

mutual

/-- The nodes of the tree, each before its children. -/
def preorder : Tree → List Tree
  | node kind role extent children => node kind role extent children :: preorderAll children
  | error extent children => error extent children :: preorderAll children
  | missing token place => [missing token place]

def preorderAll : List Tree → List Tree
  | [] => []
  | t :: ts => preorder t ++ preorderAll ts

end

mutual

/-- The first problem of the tree, looked for only where `hasProblem` says that there is one. -/
def firstProblem? : Tree → Option Tree
  | node _ _ _ children => firstProblemOf children
  | t => some t

def firstProblemOf : List Tree → Option Tree
  | [] => none
  | t :: ts =>
    if hasProblem t then
      match firstProblem? t with
      | some found => some found
      | none => firstProblemOf ts
    else firstProblemOf ts

end

end Tree

end SourceCorpus.Syntax
