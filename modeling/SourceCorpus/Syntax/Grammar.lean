import SourceCorpus.Syntax.Statement

/-!
The whole grammar, and the reading of a source text into a tree.
-/

namespace SourceCorpus.Syntax

/-- How each construct is read, given how the constructs nested in it are. -/
def Rule.read (self : Rule → Parse Unit) : Rule → Parse Unit
  | .expression level opened follow => Parse.expression self level opened follow
  | .rightSide => Parse.rightSide self
  | .suite => Parse.suite self
  | .casePattern => Parse.casePattern self
  | .simpleCasePattern => Parse.simpleCasePattern self
  | .interpolation nested => Parse.interpolation self nested

/-- Reads constructs that are nested at most `depth` deep. -/
def Rule.readTo : Nat → Rule → Parse Unit
  | 0, _ => do Parse.fail (← get).cursor.position
  | depth + 1, rule => Rule.read (Rule.readTo depth) rule

/-- More than any construct of a text can be nested: a construct takes a character before the next
but a few begin. -/
def depthLimit (source : List Char) : Nat := 8 * source.length + 64

/-- The place behind the last character. -/
def endOf (source : List Char) : Position :=
  (Cursor.drop source.length (.ofSource source)).position

/-- The tree of a source text. A text that is refused has a tree with the first problem in it. -/
def parse (source : List Char) : Tree :=
  let whole : Extent := ⟨.origin, endOf source⟩
  match Parse.statements (Rule.readTo (depthLimit source)) (.start source) with
  | .ok (_, s) => .node .module none whole s.finished.reverse
  | .error (.unexpected place) => .node .module none whole [.error ⟨place, place⟩ []]
  | .error (.missing token place) => .node .module none whole [.missing token place]

end SourceCorpus.Syntax
