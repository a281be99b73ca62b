import SourceCorpus.Syntax.Expression

/-!
The patterns of a `case` clause. A capture is a dotted name of one word; the word `_` captures
nothing and is no node.
-/

namespace SourceCorpus.Syntax.Parse

variable (self : Rule → Parse Unit)

/-- The closing bracket, or patterns separated by commas and then the closing bracket. -/
def casePatterns (item : Parse Unit) (closer : Sign) : Parse Unit := do
  let first ← peek (.operand true)
  if first.isSign closer then take first
  else
    item
    let _ ← moreItems item closer

/-- A star or two before a name. -/
def splatPattern (l : Lookahead) : Parse Unit := do
  let m ← markAt l
  take l
  let next ← peek {}
  match next.token with
  | .word (some .underscore) => take next
  | .word _ => leaf .identifier next
  | _ => fail next.place
  close m .splatPattern

def dictItem : Parse Unit := do
  let l ← peek (.operand true)
  if l.isSign .power || l.isSign .star then splatPattern l
  else
    self .simpleCasePattern
    sign .colon .bracketed
    self .casePattern

def number : Parse Unit := do
  let l ← peek {}
  match l.token with
  | .integer => leaf .integer l
  | .float => leaf .float l
  | _ => fail l.place

/-- A number, which takes part in a complex number if a sign and another number follow. -/
def numberPattern (l : Lookahead) : Parse Unit := do
  let m ← markAt l
  if l.isSign .minus then take l
  number
  let next ← peek .bracketed
  if next.isSign .plus || next.isSign .minus then
    take next
    number
    close m .complexPattern

/-- A dotted name, or a class with the patterns of its arguments. -/
def namePattern (l : Lookahead) : Parse Unit := do
  let m ← markAt l
  dottedName .bracketed
  let next ← peek .bracketed
  if next.isSign .openParen then
    take next
    casePatterns (self .casePattern) .closeParen
    close m .classPattern

def closedPattern : Parse Unit := do
  let l ← peek (.operand false)
  let m ← markAt l
  match l.token with
  | .quote d => strings self l d .bracketed
  | .word (some .true) => leaf .true l
  | .word (some .false) => leaf .false l
  | .word (some .none) => leaf .none l
  | .word (some .underscore) => take l
  | .word _ => namePattern self l
  | .integer | .float | .sign .minus => numberPattern l
  | .sign .star | .sign .power => splatPattern l
  | .sign .openParen =>
    take l
    casePatterns (self .casePattern) .closeParen
    close m .tuplePattern
  | .sign .openBracket =>
    take l
    casePatterns (self .casePattern) .closeBracket
    close m .listPattern
  | .sign .openBrace =>
    take l
    casePatterns (dictItem self) .closeBrace
    close m .dictPattern
  | _ => fail l.place

/-- Alternatives separated by bars. -/
def simpleCasePattern : Parse Unit := do
  let m ← markAt (← peek (.operand false))
  closedPattern self
  if (← peek .bracketed).isSign .bar then
    repeated do
      let l ← peek .bracketed
      if l.isSign .bar then
        take l
        closedPattern self
        return true
      else return false
    close m .unionPattern

/-- Whether the token is a word with `=` behind it. -/
def beginsKeyword (l : Lookahead) : Parse Bool := do
  match l.token with
  | .word _ =>
    let before ← get
    take l
    let next ← peek .bracketed
    set before
    return next.isSign .assign
  | _ => return false

/-- A pattern that may give what it matched a name, or the pattern of a keyword argument. -/
def casePattern : Parse Unit := do
  let l ← peek (.operand false)
  let m ← markAt l
  if ← beginsKeyword l then
    leaf .identifier l
    sign .assign
    self .simpleCasePattern
    close m .keywordPattern
  else
    self .simpleCasePattern
    repeated do
      let next ← peek .bracketed
      if next.isWord .as then
        close m .casePattern
        take next
        identifier
        close m .asPattern
        return true
      else return false
  close m .casePattern

end SourceCorpus.Syntax.Parse
