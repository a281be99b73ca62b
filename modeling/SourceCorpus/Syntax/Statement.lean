import SourceCorpus.Syntax.CasePattern

/-!
Statements and blocks. A block runs from its first statement to its dedent, so the comments before
the dedent belong to it; a simple statement ends at its last token.
-/

namespace SourceCorpus.Syntax

/-- Behind a complete simple statement. -/
def Expected.lineEnd : Expected := { newline := true }

/-- Between statements. -/
def Expected.boundary : Expected := { dedent := true, string := true }

namespace Parse

variable (self : Rule → Parse Unit)

/-! ### Simple statements -/

/-- Reads what has been finished since the mark as the targets of an assignment. -/
def assignmentTargets (m : Mark) (isList : Bool) : Parse Unit := do
  retarget m.count
  if isList then close m .patternList
  mapSince m.count (·.withRole .left)

/-- An assignment whose left side has been read, or else the expressions as they stand. A list of
expressions becomes a node if `asValue` is set. -/
def assignmentOr (m : Mark) (isList asValue : Bool) : Parse Unit := do
  let l ← peek .lineEnd
  if l.isSign .assign then
    assignmentTargets m isList
    take l
    inRole .right (self .rightSide)
    close m .assignment
  else if l.isSign .augmented then
    assignmentTargets m isList
    take l
    inRole .right (self .rightSide)
    close m .augmentedAssignment
  else if l.isSign .colon then
    assignmentTargets m isList
    take l
    inRole .type (typeHint self true .lineEnd)
    let l ← peek .lineEnd
    if l.isSign .assign then
      take l
      inRole .right (self .rightSide)
    close m .assignment
  else if isList && asValue then close m .expressionList

/-- Expressions and, if they turn out to be its targets, the assignment. -/
def assignable (asValue : Bool) : Parse Unit := do
  let first ← peek (.operand false)
  let m ← markAt first
  if first.isWord .yield then yieldExpression self first .lineEnd
  else
    expressionIn self .lineEnd
    let isList := (← peek .lineEnd).isSign .comma
    repeated do
      let l ← peek .lineEnd
      if l.isSign .comma then
        take l
        if (← peek Expected.lineEnd.orOperand).beginsExpression then
          expressionIn self .lineEnd
          return true
        else return false
      else return false
    assignmentOr self m isList asValue

def rightSide : Parse Unit := assignable self true

def expressionStatement (l : Lookahead) : Parse Unit := do
  let m ← markAt l
  assignable self false
  close m .expressionStatement

/-- Items separated by commas, at least one, up to the end of the line. -/
def lineItems (item : Parse Unit) : Parse Unit :=
  repeated do
    item
    let l ← peek .lineEnd
    if l.isSign .comma then
      take l
      return true
    else return false

def aliasedName (follow : Expected) : Parse Unit := do
  let l ← peek {}
  let m ← markAt l
  dottedName follow
  let next ← peek follow
  if next.isWord .as then
    mapSince m.count (·.withRole .name)
    take next
    inRole .asName identifier
    close m .aliasedImport

/-- Imported names up to the end of the line; a comma may end them. -/
def importedNames (follow : Expected) : Parse Unit :=
  repeated do
    inRole .name (aliasedName follow)
    let l ← peek follow
    if l.isSign .comma then
      take l
      match (← peek follow).token with
      | .word _ => return true
      | _ => return false
    else return false

def importStatement (l : Lookahead) : Parse Unit := do
  let m ← markAt l
  take l
  importedNames .lineEnd
  close m .importStatement

def importedFrom : Parse Unit := do
  let l ← peek {}
  if l.isSign .openParen then
    take l
    importedNames .bracketed
    sign .closeParen .bracketed
  else importedNames .lineEnd

def importDots : Parse Unit := do
  let m ← markAt (← peek {})
  repeated do
    let l ← peek {}
    if l.isSign .dot || l.isSign .ellipsis then
      take l
      return true
    else return false
  close m .importPrefix

/-- The module of a `from` import, which may be relative to the package. -/
def importedModule (source : Lookahead) : Parse Unit := do
  if source.isSign .dot || source.isSign .ellipsis then
    let relative ← markAt source
    importDots
    let next ← peek {}
    match next.token with
    | .word k => if k != some .import then dottedName {}
    | _ => pure ()
    close relative .relativeImport
  else dottedName {}

def importFromStatement (l : Lookahead) : Parse Unit := do
  let m ← markAt l
  take l
  let source ← peek {}
  if source.isWord .future then
    take source
    keyword .import
    importedFrom
    close m .futureImportStatement
  else
    inRole .moduleName (importedModule source)
    keyword .import
    let next ← peek {}
    if next.isSign .star then leaf .wildcardImport next
    else importedFrom
    close m .importFromStatement

/-- A statement of one word. -/
def wordStatement (kind : Kind) (l : Lookahead) : Parse Unit := leaf kind l

/-- A statement of a word and the expressions behind it. -/
def listStatement (kind : Kind) (optional : Bool) (l : Lookahead) : Parse Unit := do
  let m ← markAt l
  take l
  if !optional || (← peek Expected.lineEnd.orOperand).beginsExpression then
    expressionList self .lineEnd
  close m kind

def raiseStatement (l : Lookahead) : Parse Unit := do
  let m ← markAt l
  take l
  let next ← peek Expected.lineEnd.orOperand
  if next.beginsExpression && !next.isWord .from then expressionList self .lineEnd
  let next ← peek .lineEnd
  if next.isWord .from then
    take next
    expressionIn self .lineEnd
  close m .raiseStatement

def assertStatement (l : Lookahead) : Parse Unit := do
  let m ← markAt l
  take l
  lineItems (expressionIn self .lineEnd)
  close m .assertStatement

def namesStatement (kind : Kind) (l : Lookahead) : Parse Unit := do
  let m ← markAt l
  take l
  lineItems identifier
  close m kind

/-- What the word `print` writes, separated by commas; a comma may end it. -/
def printed : Parse Unit :=
  repeated do
    expressionIn self .lineEnd
    let l ← peek .lineEnd
    if l.isSign .comma then
      take l
      return (← peek Expected.lineEnd.orOperand).beginsExpression
    else return false

def printStatement (l : Lookahead) : Parse Unit := do
  let m ← markAt l
  take l
  let next ← peek (.operand false)
  if next.isSign .shiftRight then
    let target ← markAt next
    take next
    expressionIn self .lineEnd
    close target .chevron
    let l ← peek .lineEnd
    if l.isSign .comma then
      take l
      if (← peek Expected.lineEnd.orOperand).beginsExpression then printed self
  else printed self
  close m .printStatement

/-- What the word `exec` runs: a string or a name. -/
def executed : Parse Unit := do
  let code ← peek (.operand false)
  match code.token with
  | .quote d => stringLiteral self code d
  | .word _ => leaf .identifier code
  | _ => fail code.place

def execStatement (l : Lookahead) : Parse Unit := do
  let m ← markAt l
  take l
  executed self
  let next ← peek .lineEnd
  if next.isWord .in then
    take next
    lineItems (expressionIn self .lineEnd)
  close m .execStatement

def typeParameter : Parse Unit := do
  let l ← peek (.operand false)
  let m ← markAt l
  if l.isSign .power then
    take l
    identifier
    close m .splatType
    close m .type
  else typeHint self true .bracketed

/-- The parameters of a generic definition or type, in brackets. -/
def typeParameters : Parse Unit := do
  let l ← peek {}
  if l.isSign .openBracket then
    let m ← markAt l
    take l
    typeParameter self
    let _ ← moreItems (typeParameter self) .closeBracket
    close m .typeParameter

/-- A type that an alias is made of: a generic one, which has its parameters in brackets, or else an
expression. Tells whether it is generic. -/
def typeOperand (follow : Expected) : Parse Bool := do
  let first ← peek (.operand false)
  let m ← markAt first
  let before ← get
  take first
  let next ← peek follow
  set before
  if first.isName && next.isSign .openBracket then
    leaf .identifier first
    typeParameters self
    close m .genericType
    return true
  else
    expressionIn self follow
    return false

/-- What is joined to a generic type that began at the mark. -/
def typeStep (follow : Expected) (m : Mark) : Parse Bool := do
  let l ← peek follow
  if l.isSign .bar then
    take l
    let isGeneric ← typeOperand self follow
    close m .unionType
    return isGeneric
  else if l.isSign .dot then
    take l
    identifier
    close m .memberType
    return true
  else return false

/-- One side of a type alias. -/
def aliasedType (follow : Expected) : Parse Unit := do
  let m ← markAt (← peek (.operand false))
  if ← typeOperand self follow then repeated (typeStep self follow m)
  typeBounds self follow
  close m .type

/-- The statement that begins with `type` and names a type. -/
def typeAliasStatement (l : Lookahead) : Parse Unit := do
  let m ← markAt l
  take l
  aliasedType self {}
  sign .assign
  aliasedType self .lineEnd
  close m .typeAliasStatement

/-- Whether a line ends here, possibly with a semicolon. -/
def endsSimple : Parse Unit := do
  let l ← peek .lineEnd
  match l.token with
  | .newline | .sign .semicolon => pure ()
  | _ => fail l.place

/-- Reads a statement that starts like an expression as whichever of the two it can be. -/
def preferring (first second : Parse Unit) : Parse Unit :=
  orElse (do first; endsSimple) second

def simpleStatement (l : Lookahead) : Parse Unit :=
  match l.token with
  | .word (some .import) => importStatement l
  | .word (some .from) => importFromStatement l
  | .word (some .assert) => assertStatement self l
  | .word (some .return) => listStatement self .returnStatement true l
  | .word (some .del) => listStatement self .deleteStatement false l
  | .word (some .raise) => raiseStatement self l
  | .word (some .pass) => wordStatement .passStatement l
  | .word (some .break) => wordStatement .breakStatement l
  | .word (some .continue) => wordStatement .continueStatement l
  | .word (some .global) => namesStatement .globalStatement l
  | .word (some .nonlocal) => namesStatement .nonlocalStatement l
  | .word (some .print) => do
    let before ← get
    take l
    let next ← peek Expected.lineEnd.orOperand
    set before
    if next.isSign .shiftRight then printStatement self l
    else if next.beginsExpression then
      preferring (expressionStatement self l) (printStatement self l)
    else expressionStatement self l
  | .word (some .exec) => do
    let before ← get
    take l
    let next ← peek Expected.lineEnd.orOperand
    set before
    match next.token with
    | .word _ | .quote _ => preferring (expressionStatement self l) (execStatement self l)
    | _ => expressionStatement self l
  | .word (some .type) => do
    let before ← get
    take l
    let next ← peek Expected.lineEnd.orOperand
    set before
    if next.beginsExpression then
      preferring (typeAliasStatement self l) (expressionStatement self l)
    else expressionStatement self l
  | _ => expressionStatement self l

/-- Simple statements separated by semicolons, up to and with the end of their line. -/
def simpleLine (first : Lookahead) : Parse Unit := do
  simpleStatement self first
  repeated do
    let l ← peek .lineEnd
    match l.token with
    | .newline =>
      takeLayout l
      return false
    | .sign .semicolon =>
      take l
      let next ← peek Expected.lineEnd.orOperand
      match next.token with
      | .newline =>
        takeLayout next
        return false
      | .sign .semicolon => fail l.place
      | _ =>
        simpleStatement self next
        return true
    | _ => fail l.place

/-! ### Compound statements -/

/-- The colon and the block behind it. -/
def colonSuite : Parse Unit := do
  sign .colon
  inRole .body (self .suite)

/-- A clause that begins with the keyword and goes on with `header` and a block. -/
def clause (kind : Kind) (l : Lookahead) (header : Parse Unit) : Parse Unit := do
  let m ← markAt l
  take l
  header
  colonSuite self
  close m kind

def elseClause : Parse Unit := do
  let l ← peek .boundary
  if l.isWord .else then inRole .alternative (clause self .elseClause l (pure ()))

def ifStatement (l : Lookahead) : Parse Unit := do
  let m ← markAt l
  take l
  expressionIn self {}
  colonSuite self
  repeated do
    let l ← peek .boundary
    if l.isWord .elif then
      inRole .alternative (clause self .elifClause l (expressionIn self {}))
      return true
    else return false
  elseClause self
  close m .ifStatement

def forStatement (m : Mark) (l : Lookahead) : Parse Unit := do
  take l
  inRole .left (loopTargets self)
  keyword .in
  inRole .right (expressionList self {})
  colonSuite self
  elseClause self
  close m .forStatement

def whileStatement (l : Lookahead) : Parse Unit := do
  let m ← markAt l
  take l
  expressionIn self {}
  colonSuite self
  elseClause self
  close m .whileStatement

/-- The exceptions that a handler takes, and the name that it gives them. -/
def handled : Parse Unit := do
  if !(← peek (.operand false)).isSign .colon then
    expressionIn self {}
    let l ← peek {}
    if l.isSign .comma then
      take l
      inRole .asName (expressionIn self {})

def tryStatement (l : Lookahead) : Parse Unit := do
  let m ← markAt l
  take l
  colonSuite self
  let first ← peek .boundary
  if first.isWord .except then
    let isGroup := first.after.rest.head? == some '*'
    repeated do
      let l ← peek .boundary
      if l.isWord .except && (l.after.rest.head? == some '*') == isGroup then
        if isGroup then
          clause self .exceptGroupClause { l with after := l.after.drop 1 } (expressionIn self {})
        else clause self .exceptClause l (handled self)
        return true
      else return false
    elseClause self
    let l ← peek .boundary
    if l.isWord .finally then clause self .finallyClause l (pure ())
  else if first.isWord .finally then clause self .finallyClause first (pure ())
  else fail first.place
  close m .tryStatement

def withStatement (m : Mark) (l : Lookahead) : Parse Unit := do
  take l
  let c ← markAt (← peek (.operand false))
  repeated do
    let next ← peek (.operand false)
    let item ← markAt next
    inRole .value (expressionIn self {})
    close item .withItem
    let l ← peek {}
    if l.isSign .comma then
      take l
      return (← peek (.operand false)).beginsExpression
    else return false
  close c .withClause
  colonSuite self
  close m .withStatement

def functionDefinition (m : Mark) (l : Lookahead) : Parse Unit := do
  take l
  inRole .name identifier
  typeParameters self
  inRole .parameters (parameters self)
  let arrow ← peek {}
  if arrow.isSign .arrow then
    take arrow
    inRole .returnType (typeHint self false {})
  colonSuite self
  close m .functionDefinition

def classDefinition (l : Lookahead) : Parse Unit := do
  let m ← markAt l
  take l
  inRole .name identifier
  typeParameters self
  let bases ← peek {}
  if bases.isSign .openParen then inRole .superclasses (argumentList self false bases)
  colonSuite self
  close m .classDefinition

def asyncStatement (l : Lookahead) : Parse Unit := do
  let before ← get
  let m ← markAt l
  leaf .asyncMarker l
  let next ← peek Expected.lineEnd.orOperand
  match next.token with
  | .word (some .define) => functionDefinition self m next
  | .word (some .for) => forStatement self m next
  | .word (some .with) => withStatement self m next
  | _ =>
    set before
    simpleLine self l

/-- A decorator and the end of its line, if there is one. -/
def decorator : Parse Bool := do
  let l ← peek {}
  if l.isSign .at then
    let m ← markAt l
    take l
    expressionIn self .lineEnd
    let lineEnd ← peek .lineEnd
    if lineEnd.token != .newline then fail lineEnd.place
    takeLayout lineEnd
    close m .decorator
    return true
  else return false

/-- The definition behind the decorators. -/
def decorated (l : Lookahead) : Parse Unit := do
  match l.token with
  | .word (some .class) => classDefinition self l
  | .word (some .define) => functionDefinition self (← markAt l) l
  | .word (some .async) =>
    let m ← markAt l
    leaf .asyncMarker l
    let next ← peek {}
    if next.isWord .define then functionDefinition self m next else fail next.place
  | _ => fail l.place

def decoratedDefinition (l : Lookahead) : Parse Unit := do
  let m ← markAt l
  repeated (decorator self)
  let l ← peek {}
  inRole .definition (decorated self l)
  close m .decoratedDefinition

def caseClause (l : Lookahead) : Parse Unit := do
  let m ← markAt l
  take l
  repeated do
    self .casePattern
    let l ← peek {}
    if l.isSign .comma then
      take l
      let next ← peek (.operand false)
      return !next.isSign .colon && !next.isWord .if
    else return false
  let l ← peek {}
  if l.isWord .if then
    inRole .guard do
      let g ← markAt l
      take l
      expressionIn self {}
      close g .ifClause
  colonSuite self
  close m .caseClause

/-- The subjects and the colon of a `match` statement, which must be followed by a block. -/
def matchHeader (l : Lookahead) : Parse Lookahead := do
  take l
  repeated do
    expressionIn self {}
    let l ← peek {}
    if l.isSign .comma then
      take l
      return !(← peek (.operand false)).isSign .colon
    else return false
  sign .colon
  let next ← peek { newline := true, indent := true }
  match next.token with
  | .newline | .indent _ => return next
  | _ => fail next.place

def matchBody (m : Mark) (next : Lookahead) : Parse Unit := do
  let b ← markAt next
  takeLayout next
  match next.token with
  | .indent _ =>
    repeated do
      let l ← peek .boundary
      if l.isWord .case then
        caseClause self l
        return true
      else if l.token == .dedent then
        takeLayout l
        return false
      else fail l.place
  | _ => pure ()
  close b .block
  mapSince b.count (·.withRole .body)
  close m .matchStatement

/-- A statement that begins with `match`, which is a name unless subjects and a block follow. -/
def matchStatement (l : Lookahead) : Parse Unit := fun s =>
  match (do let m ← markAt l; return (m, ← matchHeader self l) : Parse (Mark × Lookahead)) s with
  | .ok ((m, next), s') => matchBody self m next s'
  | .error _ => simpleLine self l s

/-! ### Blocks -/

/-- One statement of a block or module, or a line of simple ones. -/
def statement (l : Lookahead) : Parse Unit := do
  match l.token with
  | .word (some .if) => ifStatement self l
  | .word (some .for) => forStatement self (← markAt l) l
  | .word (some .while) => whileStatement self l
  | .word (some .try) => tryStatement self l
  | .word (some .with) => withStatement self (← markAt l) l
  | .word (some .define) => functionDefinition self (← markAt l) l
  | .word (some .class) => classDefinition self l
  | .word (some .async) => asyncStatement self l
  | .word (some .match) => matchStatement self l
  | .sign .at => decoratedDefinition self l
  | _ => simpleLine self l

def suite : Parse Unit := do
  let l ← peek { newline := true, indent := true, string := true }
  match l.token with
  | .indent _ =>
    takeLayout l
    let first ← peek .boundary
    let m ← markAt first
    repeated do
      let l ← peek .boundary
      if l.token == .dedent then
        takeLayout l
        return false
      else
        statement self l
        return true
    close m .block
  | .newline =>
    let m ← markAt l
    takeLayout l
    close m .block
  | _ =>
    let m ← markAt l
    simpleLine self l
    close m .block

def statements : Parse Unit :=
  repeated do
    let l ← peek .boundary
    if l.token == .finish then return false
    else
      statement self l
      return true

end Parse

end SourceCorpus.Syntax
