import SourceCorpus.Syntax.Builder
import SourceCorpus.Syntax.Target

/-!
Expressions, strings and parameter lists. Each construct is a function of `self`, which reads the
constructs nested in it; `Syntax.Grammar` ties the knot.
-/

namespace SourceCorpus.Syntax

/-- The constructs that may contain one another. -/
inductive Rule where
  /-- An expression whose operators bind at least as tightly as `level`. `opened` tells that a
  closing bracket could stand in its place, `follow` what may stand behind it. -/
  | expression (level : Nat) (opened : Bool) (follow : Expected)
  /-- What may stand to the right of `=`. -/
  | rightSide
  /-- What a compound statement has behind its colon. -/
  | suite
  | casePattern
  | simpleCasePattern
  /-- An expression in a format string; `nested` tells that it stands in a format specifier. -/
  | interpolation (nested : Bool)

namespace Level

def conditional : Nat := 1
def aliased : Nat := 2
def or : Nat := 3
def and : Nat := 4
def not : Nat := 5
def compare : Nat := 6
def bitOr : Nat := 7
def bitXor : Nat := 8
def bitAnd : Nat := 9
def shift : Nat := 10
def sum : Nat := 11
def product : Nat := 12
def unary : Nat := 13
def power : Nat := 14
/-- Calls, subscripts and members only. -/
def postfix_ : Nat := 15

end Level

def Sign.binaryLevel? : Sign → Option Nat
  | .bar => some Level.bitOr
  | .caret => some Level.bitXor
  | .amp => some Level.bitAnd
  | .shiftLeft | .shiftRight => some Level.shift
  | .plus | .minus => some Level.sum
  | .star | .slash | .floorDiv | .percent | .at => some Level.product
  | .power => some Level.power
  | _ => none

def Sign.isComparison : Sign → Bool
  | .less | .greater | .lessEq | .greaterEq | .equal | .notEqual | .oldNotEqual => true
  | _ => false

def Lookahead.isComparison (l : Lookahead) : Bool :=
  match l.token with
  | .sign s => s.isComparison
  | .word (some k) => k == .in || k == .is || k == .not
  | _ => false

/-- Whether a comprehension goes on with the token. -/
def Lookahead.beginsFor (l : Lookahead) : Bool := l.isWord .for || l.isWord .async

/-- Inside brackets, behind a complete element. -/
def Expected.bracketed : Expected := { closer := true }

/-- Where an expression begins. -/
def Expected.operand (opened : Bool) : Expected := { closer := opened, string := true }

/-- The same place, where also an expression may begin. -/
def Expected.orOperand (e : Expected) : Expected := { e with string := true }

namespace Parse

/-- Replaces the nodes finished since the mark by their targets. -/
def retarget (count : Nat) : Parse Unit := do
  for t in ← since count do
    if t.asTarget?.isNone then fail t.start
  mapSince count fun t => t.asTarget?.getD t

variable (self : Rule → Parse Unit)

def expressionIn (follow : Expected) : Parse Unit := self (.expression 0 false follow)

/-- The items behind the first one, and the closing bracket. Tells whether there was a comma. -/
def moreItems (item : Parse Unit) (closer : Sign) : Parse Bool := do
  let l ← peek .bracketed
  if l.isSign closer then
    take l
    return false
  repeated do
    let l ← peek .bracketed
    if l.isSign closer then
      take l
      return false
    else if l.isSign .comma then
      take l
      let next ← peek (.operand true)
      if next.isSign closer then
        take next
        return false
      else
        item
        return true
    else fail l.place
  return true

/-- Expressions separated by commas; more than one, or a comma behind one, make a list. -/
def expressionList (follow : Expected) : Parse Unit := do
  let m ← markAt (← peek (.operand false))
  expressionIn self follow
  let l ← peek follow
  if l.isSign .comma then
    repeated do
      let l ← peek follow
      if l.isSign .comma then
        take l
        if (← peek follow.orOperand).beginsExpression then
          expressionIn self follow
          return true
        else return false
      else return false
    close m .expressionList

def yieldExpression (l : Lookahead) (follow : Expected) : Parse Unit := do
  let m ← markAt l
  take l
  let next ← peek follow.orOperand
  if next.isWord .from then
    take next
    expressionIn self follow
  else if next.beginsExpression then expressionList self follow
  close m .yield

def splat (kind : Kind) (l : Lookahead) : Parse Unit := do
  let m ← markAt l
  take l
  if !(← peek (.operand false)).beginsExpression then fail l.place
  expressionIn self .bracketed
  close m kind

/-! ### Comprehensions -/

/-- The targets of a loop, up to the word `in`. -/
def loopTargets : Parse Unit := do
  let m ← markAt (← peek (.operand false))
  self (.expression Level.postfix_ false {})
  let l ← peek {}
  if l.isSign .comma then
    repeated do
      let l ← peek {}
      if l.isSign .comma then
        take l
        let next ← peek (.operand false)
        if next.beginsExpression && !next.isWord .in then
          self (.expression Level.postfix_ false {})
          return true
        else return false
      else return false
    retarget m.count
    close m .patternList
  else retarget m.count

def forInClause (l : Lookahead) : Parse Unit := do
  let m ← markAt l
  if l.isWord .async then take l
  keyword .for
  inRole .left (loopTargets self)
  keyword .in
  repeated do
    inRole .right (self (.expression Level.aliased false .bracketed))
    let l ← peek .bracketed
    if l.isSign .comma then
      take l
      let next ← peek (.operand true)
      return next.beginsExpression && !next.beginsFor && !next.isWord .if
    else return false
  close m .forInClause

/-- The clauses behind the body of a comprehension. -/
def comprehensionClauses : Parse Unit :=
  repeated do
    let l ← peek .bracketed
    if l.beginsFor then
      forInClause self l
      return true
    else if l.isWord .if then
      let m ← markAt l
      take l
      self (.expression Level.aliased false .bracketed)
      close m .ifClause
      return true
    else return false

/-! ### Brackets -/

def element : Parse Unit := do
  let l ← peek (.operand true)
  if l.isWord .yield then yieldExpression self l .bracketed
  else if l.isSign .star then splat self .listSplat l
  else self (.expression 0 true .bracketed)

def parenthesized (l : Lookahead) : Parse Unit := do
  let m ← markAt l
  take l
  let first ← peek (.operand true)
  if first.isSign .closeParen then
    take first
    close m .tuple
  else
    inRole .body (element self)
    if (← peek .bracketed).beginsFor then
      comprehensionClauses self
      sign .closeParen .bracketed
      close m .generatorExpression
    else if ← moreItems (element self) .closeParen then close m .tuple
    else
      mapSince m.count Tree.restarLone
      close m .parenthesizedExpression

def listDisplay (l : Lookahead) : Parse Unit := do
  let m ← markAt l
  take l
  let first ← peek (.operand true)
  if first.isSign .closeBracket then
    take first
    close m .list
  else
    inRole .body (element self)
    if (← peek .bracketed).beginsFor then
      comprehensionClauses self
      sign .closeBracket .bracketed
      close m .listComprehension
    else
      if !(← moreItems (element self) .closeBracket) then mapSince m.count Tree.restarLone
      close m .list

/-- The colon and value of a pair whose key has been read. -/
def pairRest (m : Mark) : Parse Unit := do
  sign .colon .bracketed
  inRole .value (expressionIn self .bracketed)
  close m .pair

def dictionaryItem : Parse Unit := do
  let l ← peek (.operand true)
  if l.isSign .power then splat self .dictionarySplat l
  else
    let m ← markAt l
    self (.expression 0 true .bracketed)
    pairRest self m

def dictionaryOrSet (l : Lookahead) : Parse Unit := do
  let m ← markAt l
  take l
  let first ← peek (.operand true)
  if first.isSign .closeBrace then
    take first
    close m .dictionary
  else if first.isSign .comma then
    take first
    sign .closeBrace .bracketed
    close m .dictionary
  else if first.isSign .power then
    dictionaryItem self
    let _ ← moreItems (dictionaryItem self) .closeBrace
    close m .dictionary
  else
    let e ← markAt first
    inRole .body (element self)
    let next ← peek .bracketed
    if next.isSign .colon && !first.isSign .star && !first.isWord .yield then
      pairRest self e
      if (← peek .bracketed).beginsFor then
        comprehensionClauses self
        sign .closeBrace .bracketed
        close m .dictionaryComprehension
      else
        let _ ← moreItems (dictionaryItem self) .closeBrace
        close m .dictionary
    else if next.beginsFor then
      comprehensionClauses self
      sign .closeBrace .bracketed
      close m .setComprehension
    else
      if !(← moreItems (element self) .closeBrace) then mapSince m.count Tree.restarLone
      close m .set

/-! ### Arguments and subscripts -/

/-- One argument. Tells whether it is an expression, which could be the body of a generator. -/
def argument : Parse Bool := do
  let l ← peek (.operand true)
  match l.token with
  | .sign .star =>
    splat self .listSplat l
    return false
  | .sign .power =>
    splat self .dictionarySplat l
    return false
  | .word k =>
    let isLiteral := match k with
      | some .none | some .true | some .false | some .not | some .lambda => true
      | _ => false
    let before ← get
    take l
    let next ← peek .bracketed
    set before
    if next.isSign .assign && !isLiteral then
      let m ← markAt l
      inRole .name (leaf .identifier l)
      sign .assign
      inRole .value (expressionIn self .bracketed)
      close m .keywordArgument
      return false
    else
      self (.expression 0 true .bracketed)
      return true
  | _ =>
    self (.expression 0 true .bracketed)
    return true

/-- The arguments in parentheses; with `generator`, also a bare comprehension. -/
def argumentList (generator : Bool) (l : Lookahead) : Parse Unit := do
  let m ← markAt l
  take l
  let first ← peek (.operand true)
  if first.isSign .closeParen then
    take first
    close m .argumentList
  else if first.isSign .comma then
    take first
    sign .closeParen .bracketed
    close m .argumentList
  else
    let plain ← argument self
    if generator && plain && (← peek .bracketed).beginsFor then
      mapSince m.count (·.withRole .body)
      comprehensionClauses self
      sign .closeParen .bracketed
      close m .generatorExpression
    else
      let _ ← moreItems (do let _ ← argument self) .closeParen
      close m .argumentList

def subscriptItem : Parse Unit := do
  let l ← peek (.operand true)
  let m ← markAt l
  if !l.isSign .colon then self (.expression 0 true .bracketed)
  let colon ← peek .bracketed
  if colon.isSign .colon then
    take colon
    if (← peek (.operand true)).beginsExpression then self (.expression 0 true .bracketed)
    let colon ← peek .bracketed
    if colon.isSign .colon then
      take colon
      if (← peek (.operand true)).beginsExpression then self (.expression 0 true .bracketed)
    close m .slice

/-- Calls, subscripts and members behind the operand that began at the mark. -/
def postfixStep (follow : Expected) (m : Mark) : Parse Bool := do
  let l ← peek follow
  match l.token with
  | .sign .dot =>
    mapSince m.count (·.withRole .object)
    take l
    inRole .member identifier
    close m .memberAccess
    return true
  | .sign .openParen =>
    mapSince m.count (·.withRole .function)
    inRole .arguments (argumentList self true l)
    close m .call
    return true
  | .sign .openBracket =>
    mapSince m.count (·.withRole .value)
    take l
    inRole .subscript do
      subscriptItem self
      let _ ← moreItems (subscriptItem self) .closeBracket
    close m .subscript
    return true
  | _ => return false

/-! ### Strings -/

/-- The conversion of a value, if there is one. -/
def typeConversion : Parse Unit := do
  let l ← peek .bracketed
  match l.before.rest with
  | '!' :: c :: _ =>
    if 'a' ≤ c && c ≤ 'z' then
      leaf .typeConversion { l with after := l.before.drop 2 }
  | _ => pure ()

/-- How a value is to be written, behind a colon. -/
def formatSpecifier : Parse Unit := do
  let l ← peek .bracketed
  if l.before.rest.head? == some ':' then
    let m ← markAt l
    take { l with after := l.before.drop 1 }
    repeated do
      match (← get).cursor.rest with
      | [] => fail (← get).cursor.position
      | c :: _ =>
        if c.toNat == 0x7B then
          self (.interpolation true)
          return true
        else if c.toNat == 0x7D then return false
        else
          skipChars 1
          return true
    close m .formatSpecifier

/-- An expression in a format string, between braces, and how its value is to be written. -/
def interpolation (nested : Bool) : Parse Unit := do
  let m : Mark := ⟨(← get).count, (← get).cursor.position⟩
  skipChars 1
  let first ← peek (.operand false)
  inRole .expression do
    if first.isWord .yield then yieldExpression self first .bracketed
    else expressionList self .bracketed
  let l ← peek .bracketed
  if l.isSign .assign then take l
  typeConversion
  formatSpecifier self
  sign .closeBrace .bracketed
  close m (if nested then .formatExpression else .interpolation)

def stringLiteral (l : Lookahead) (d : Delimiter) : Parse Unit := do
  let m ← markAt l
  take l
  modify fun s => { s with inFormat := d.isFormat }
  repeated do
    match StringPiece.read? d (← get).cursor.rest with
    | some (.text length) =>
      skipChars length
      return true
    | some (.close length) =>
      skipChars length
      modify fun s => { s with inFormat := false }
      return false
    | some .hole =>
      self (.interpolation false)
      return true
    | none => fail m.start
  close m .string

/-- A string literal and those directly behind it. -/
def strings (l : Lookahead) (d : Delimiter) (follow : Expected) : Parse Unit := do
  let m ← markAt l
  stringLiteral self l d
  let next ← peek follow.orOperand
  match next.token with
  | .quote _ =>
    repeated do
      let l ← peek follow.orOperand
      match l.token with
      | .quote d =>
        stringLiteral self l d
        return true
      | _ => return false
    close m .concatenatedString
  | _ => pure ()

/-! ### Operands -/

/-- The operand that begins with the token, without what may be applied to it. Tells whether calls,
subscripts and members may follow. -/
def atom (level : Nat) (follow : Expected) (l : Lookahead) : Parse Bool := do
  match l.token with
  | .word (some .none) =>
    leaf .none l
    return true
  | .word (some .true) =>
    leaf .true l
    return true
  | .word (some .false) =>
    leaf .false l
    return true
  | .word _ =>
    let m ← markAt l
    leaf .identifier l
    let next ← peek follow
    if next.isSign .walrus && level ≤ Level.not then
      mapSince m.count (·.withRole .name)
      take next
      inRole .value (self (.expression Level.or false follow))
      close m .namedExpression
      return false
    else return true
  | .integer =>
    leaf .integer l
    return true
  | .float =>
    leaf .float l
    return true
  | .sign .ellipsis =>
    leaf .ellipsis l
    return true
  | .sign .openParen =>
    parenthesized self l
    return true
  | .sign .openBracket =>
    listDisplay self l
    return true
  | .sign .openBrace =>
    dictionaryOrSet self l
    return true
  | .quote d =>
    strings self l d follow
    return true
  | _ => fail l.place

/-- An operand with the calls, subscripts and members applied to it. -/
def primary (level : Nat) (follow : Expected) (l : Lookahead) : Parse Unit := do
  let m ← markAt l
  if ← atom self level follow l then repeated (postfixStep self follow m)

/-- A starred operand. -/
def starredOperand (follow : Expected) (l : Lookahead) : Parse Unit := do
  let count := (← get).count
  take l
  let next ← peek (.operand false)
  primary self Level.postfix_ follow next
  for t in ← since count do
    if (t.starLeading? l.place).isNone then fail next.place
  mapSince count fun t => (t.starLeading? l.place).getD t

/-! ### Parameters -/

/-- The bounds behind a type. -/
def typeBounds (follow : Expected) : Parse Unit :=
  repeated do
    let l ← peek follow
    if l.isSign .colon then
      take l
      expressionIn self follow
      return true
    else return false

/-- The annotation of a parameter, a variable or a result. With `bounded`, a bound may follow. -/
def typeHint (bounded : Bool) (follow : Expected) : Parse Unit := do
  let m ← markAt (← peek (.operand false))
  expressionIn self follow
  if bounded then typeBounds self follow
  close m .type

/-- What may stand behind a parameter's name: its annotation and its default value. -/
def parameterRest (m : Mark) (isLambda mayType mayDefault : Bool) : Parse Unit := do
  let follow : Expected := { closer := !isLambda }
  let l ← peek follow
  if l.isSign .colon && mayType then
    take l
    inRole .type (typeHint self true follow)
    let l ← peek follow
    if l.isSign .assign && mayDefault then
      mapSince m.count fun t => if t.role?.isNone then t.withRole .name else t
      take l
      inRole .value (expressionIn self follow)
      close m .typedDefaultParameter
    else close m .typedParameter
  else if l.isSign .assign && mayDefault then
    mapSince m.count (·.withRole .name)
    take l
    inRole .value (expressionIn self follow)
    close m .defaultParameter

def parameter (isLambda : Bool) : Parse Unit := do
  let follow : Expected := { closer := !isLambda }
  let l ← peek follow
  let m ← markAt l
  match l.token with
  | .sign .star =>
    let before ← get
    take l
    let next ← peek follow
    match next.token with
    | .word _ =>
      leaf .identifier next
      close m .listSplatPattern
      parameterRest self m isLambda (!isLambda) false
    | _ =>
      set before
      leaf .keywordSeparator l
  | .sign .power =>
    take l
    identifier
    close m .dictionarySplatPattern
    parameterRest self m isLambda (!isLambda) false
  | .sign .slash => leaf .positionalSeparator l
  | .sign .openParen =>
    parenthesized self l
    retarget m.count
    parameterRest self m isLambda false true
  | .word _ =>
    leaf .identifier l
    parameterRest self m isLambda (!isLambda) true
  | _ => fail l.place

def parameters : Parse Unit := do
  let l ← peek {}
  if !l.isSign .openParen then fail l.place
  let m ← markAt l
  take l
  repeated do
    let l ← peek .bracketed
    if l.isSign .closeParen then
      take l
      return false
    else
      if l.isSign .colon then throw (.missing ")" (← get).stop)
      parameter self false
      let l ← peek .bracketed
      if l.isSign .closeParen then
        take l
        return false
      else if l.isSign .comma then
        take l
        return true
      else if l.isSign .colon then throw (.missing ")" (← get).stop)
      else fail l.place
  close m .parameters

def lambdaParameters : Parse Unit := do
  let m ← markAt (← peek {})
  repeated do
    parameter self true
    let l ← peek {}
    if l.isSign .comma then
      take l
      return !(← peek {}).isSign .colon
    else return false
  close m .lambdaParameters

def lambdaExpression (level : Nat) (follow : Expected) (l : Lookahead) : Parse Unit := do
  let m ← markAt l
  take l
  let next ← peek {}
  if !next.isSign .colon then inRole .parameters (lambdaParameters self)
  sign .colon
  let bodyLevel := if level == Level.aliased then Level.aliased else 0
  inRole .body (self (.expression bodyLevel false follow))
  close m .lambda

/-- A word that is `await` if an operand follows, and a name otherwise. -/
def awaitExpression (level : Nat) (follow : Expected) (l : Lookahead) : Parse Unit := do
  let m ← markAt l
  let before ← get
  take l
  let next ← peek follow.orOperand
  let isInfix := match next.token with
    | .word (some k) =>
      [Keyword.if, .else, .for, .in, .is, .and, .or, .not, .as, .from, .async].contains k
    | _ => false
  if next.beginsExpression && !isInfix then
    self (.expression Level.unary false follow)
    close m .await
  else
    set before
    primary self level follow l

/-- The first operand of an expression, with the operators before it. -/
def prefixed (level : Nat) (follow : Expected) (l : Lookahead) : Parse Unit := do
  let m ← markAt l
  match l.token with
  | .word (some .not) =>
    if level ≤ Level.not then
      take l
      self (.expression Level.not false follow)
      close m .notOperator
    else primary self level follow l
  | .word (some .lambda) =>
    if level ≤ Level.not then lambdaExpression self level follow l
    else primary self level follow l
  | .word (some .await) => awaitExpression self level follow l
  | .sign .plus | .sign .minus | .sign .tilde =>
    take l
    self (.expression Level.unary false follow)
    close m .unaryOperator
  | .sign .star => starredOperand self follow l
  | _ => primary self level follow l

/-! ### Operators -/

/-- Takes a comparison operator, which may be two words. -/
def comparisonOperator (l : Lookahead) : Parse Unit := do
  take l
  if l.isWord .not then
    let next ← peek {}
    if next.isWord .in then take next
    else throw (.missing "in" (← get).stop)
  else if l.isWord .is then
    let next ← peek (.operand false)
    if next.isWord .not then take next

/-- One operator and its right operand, behind the operand that began at the mark. -/
def infixStep (level : Nat) (follow : Expected) (m : Mark) : Parse Bool := do
  let l ← peek follow
  if l.isComparison then
    if level ≤ Level.compare then
      repeated do
        let l ← peek follow
        if l.isComparison then
          comparisonOperator l
          self (.expression Level.bitOr false follow)
          return true
        else return false
      close m .comparisonOperator
      return true
    else return false
  else match l.token with
  | .sign s =>
    match s.binaryLevel? with
    | some own =>
      if level ≤ own then
        take l
        self (.expression (if s == .power then own else own + 1) false follow)
        close m .binaryOperator
        return true
      else return false
    | none => return false
  | .word (some .and) =>
    if level ≤ Level.and then
      take l
      self (.expression Level.not false follow)
      close m .booleanOperator
      return true
    else return false
  | .word (some .or) =>
    if level ≤ Level.or then
      take l
      self (.expression Level.and false follow)
      close m .booleanOperator
      return true
    else return false
  | .word (some .if) =>
    if level ≤ Level.conditional then
      take l
      self (.expression Level.conditional false {})
      keyword .else
      self (.expression Level.conditional false follow)
      close m .conditionalExpression
      return true
    else return false
  | .word (some .as) =>
    if level ≤ Level.aliased then
      take l
      let next ← peek (.operand false)
      if !next.beginsExpression then fail l.place
      inRole .asName do
        let target ← markAt next
        self (.expression Level.or false follow)
        close target .asPatternTarget
      close m .asPattern
      return true
    else return false
  | _ => return false

def expression (level : Nat) (opened : Bool) (follow : Expected) : Parse Unit := do
  let l ← peek (.operand opened)
  let m ← markAt l
  prefixed self level follow l
  repeated (infixStep self level follow m)

end Parse

end SourceCorpus.Syntax
