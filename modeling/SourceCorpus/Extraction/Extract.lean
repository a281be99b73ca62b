import SourceCorpus.Extraction.Arena
import SourceCorpus.Naming.Module
import SourceCorpus.Syntax.Grammar

/-!
From a source text to its model. A text with a syntax error has no model; the error tells where its
first problem is.
-/

namespace SourceCorpus

/-- A source file that could not be read as a program. Lines and columns count from one. -/
structure ParseError where
  file : String
  message : String
  line : Option Nat
  column : Option Nat
  deriving DecidableEq, Repr

namespace Extraction

open Syntax

def describe : Tree → String
  | .missing token _ => "missing `" ++ token ++ "`"
  | _ => "invalid syntax"

def parseErrorOf (file : String) (tree : Tree) : ParseError :=
  match tree.firstProblem? with
  | some problem =>
    ⟨file, describe problem, some (problem.start.row + 1), some (problem.start.column + 1)⟩
  | none => ⟨file, "invalid syntax", none, none⟩

def parseSource (file : String) (source : List Char) : Except ParseError Tree :=
  let tree := parse source
  if tree.hasProblem then .error (parseErrorOf file tree) else .ok tree

def moduleObject (file : String) (source : List Char) (docstring : Option String)
    (facts : List Fact) : CodeObject :=
  { name := Naming.toModuleName file
    qualifiedName := moduleName
    docstring := docstring
    span := ⟨1, max (Text.lines source).length 1, 0, Text.byteLength source⟩
    decorators := []
    parameters := []
    returnType := none
    calls := callsIn facts
    references := referencesIn facts
    children := []
    parent := none
    depth := 0
    payload := .module }

def statementsOf (tree : Tree) : List Statement :=
  (withoutComments tree.children).map fun t =>
    ⟨(t.kind?.map Kind.name).getD "", spanOf t⟩

def modelOf (file : String) (source : List Char) (tree : Tree) : CodeModel :=
  let docstring := docstringOf? source tree.children
  let facts := factsOfAll source .value .top tree.children
  let module := moduleObject file source docstring facts
  let arena := addFacts CodeModel.moduleId module ⟨#[module], #[]⟩ facts
  { file := file
    source := String.ofList source
    statements := statementsOf tree
    objects := ObjectTable.ofList (withChildren arena.objects.toList)
    globals := variablesIn facts
    imports := arena.imports.toList
    docstring := docstring }

def extract (file source : String) : Except ParseError CodeModel :=
  (parseSource file source.toList).map (modelOf file source.toList)

end Extraction

end SourceCorpus
