import SourceCorpus.Syntax.Tree

/-!
Expressions read again as targets. What stands before `=` or in a loop header is read as an
expression first; `asTarget?` turns it into the target with the same text, or refuses it.
-/

namespace SourceCorpus.Syntax.Tree

mutual

/-- The target that is spelled like the expression. -/
def asTarget? : Tree → Option Tree
  | node kind role extent children =>
    match kind with
    | .identifier | .subscript | .memberAccess => some (node kind role extent children)
    | .tuple | .parenthesizedExpression =>
      (asTargets? children).map fun targets => node .tuplePattern role extent targets
    | .list => (asTargets? children).map fun targets => node .listPattern role extent targets
    | .listSplat =>
      if children.all fun c => c.isTrivia || c.isKind .identifier || c.isKind .subscript ||
          c.isKind .memberAccess then
        some (node .listSplatPattern role extent children)
      else none
    | .comment | .lineContinuation => some (node kind role extent children)
    | _ => none
  | _ => none

def asTargets? : List Tree → Option (List Tree)
  | [] => some []
  | t :: ts =>
    match asTarget? t, asTargets? ts with
    | some target, some targets => some (target :: targets)
    | _, _ => none

end

/-- A star before an operand takes the shortest identifier, member or subscript that the operand
begins with; calls and operators then apply to the starred part. -/
def starred (start : Position) (t : Tree) : Tree :=
  match t with
  | node kind role extent children =>
    node .listSplat role ⟨start, extent.stop⟩ [node kind none extent children]
  | t => t

mutual

def starLeading? (start : Position) : Tree → Option Tree
  | node kind role extent children =>
    let whole := node kind role extent children
    match kind with
    | .identifier => some (starred start whole)
    | .memberAccess | .subscript =>
      match starFirst? start children with
      | some parts => some (node kind role ⟨start, extent.stop⟩ parts)
      | none => some (starred start whole)
    | .call | .binaryOperator | .comparisonOperator | .booleanOperator | .conditionalExpression
    | .asPattern =>
      (starFirst? start children).map fun parts => node kind role ⟨start, extent.stop⟩ parts
    | _ => none
  | _ => none

def starFirst? (start : Position) : List Tree → Option (List Tree)
  | [] => none
  | t :: ts => (starLeading? start t).map (· :: ts)

end

/-- The only element of a list or set, with its star on the shortest leading part. -/
def restarLone (t : Tree) : Tree :=
  match t with
  | node .listSplat role extent children =>
    match children.filter (!·.isTrivia) with
    | [inner] =>
      match starLeading? extent.start inner with
      | some (node kind _ extent' children') => node kind role extent' children'
      | _ => t
    | _ => t
  | t => t

end SourceCorpus.Syntax.Tree
