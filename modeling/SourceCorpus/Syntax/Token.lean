import SourceCorpus.Text.Identifier

/-!
The tokens of a source text and how far each reaches. A token is always the longest that its first
character allows; which words are keywords depends on the place where they stand, so a word that
spells a keyword carries it and the grammar decides.
-/

namespace SourceCorpus.Syntax

inductive Keyword where
  | and | as | assert | async | await | break | case | «class» | continue | define | del | elif
  | else | except | exec | false | finally | for | from | future | global | if | import | in
  | is | lambda | match | none | nonlocal | not | or | pass | print | raise | return | true | try | type
  | underscore | while | with | yield
  deriving DecidableEq, Repr

def Keyword.spellings : List (List Char × Keyword) :=
  [(['a', 'n', 'd'], .and), (['a', 's'], .as), (['a', 's', 's', 'e', 'r', 't'], .assert),
    (['a', 's', 'y', 'n', 'c'], .async), (['a', 'w', 'a', 'i', 't'], .await),
    (['b', 'r', 'e', 'a', 'k'], .break), (['c', 'a', 's', 'e'], .case),
    (['c', 'l', 'a', 's', 's'], .class), (['c', 'o', 'n', 't', 'i', 'n', 'u', 'e'], .continue),
    (['d', 'e', 'f'], .define), (['d', 'e', 'l'], .del), (['e', 'l', 'i', 'f'], .elif),
    (['e', 'l', 's', 'e'], .else), (['e', 'x', 'c', 'e', 'p', 't'], .except),
    (['e', 'x', 'e', 'c'], .exec), (['F', 'a', 'l', 's', 'e'], .false),
    (['f', 'i', 'n', 'a', 'l', 'l', 'y'], .finally), (['f', 'o', 'r'], .for),
    (['f', 'r', 'o', 'm'], .from),
    (['_', '_', 'f', 'u', 't', 'u', 'r', 'e', '_', '_'], .future),
    (['g', 'l', 'o', 'b', 'a', 'l'], .global), (['i', 'f'], .if),
    (['i', 'm', 'p', 'o', 'r', 't'], .import), (['i', 'n'], .in), (['i', 's'], .is),
    (['l', 'a', 'm', 'b', 'd', 'a'], .lambda), (['m', 'a', 't', 'c', 'h'], .match),
    (['N', 'o', 'n', 'e'], .none), (['n', 'o', 'n', 'l', 'o', 'c', 'a', 'l'], .nonlocal),
    (['n', 'o', 't'], .not), (['o', 'r'], .or), (['p', 'a', 's', 's'], .pass),
    (['p', 'r', 'i', 'n', 't'], .print), (['r', 'a', 'i', 's', 'e'], .raise),
    (['r', 'e', 't', 'u', 'r', 'n'], .return), (['T', 'r', 'u', 'e'], .true),
    (['t', 'r', 'y'], .try), (['t', 'y', 'p', 'e'], .type), (['_'], .underscore),
    (['w', 'h', 'i', 'l', 'e'], .while), (['w', 'i', 't', 'h'], .with),
    (['y', 'i', 'e', 'l', 'd'], .yield)]

def Keyword.ofChars? (word : List Char) : Option Keyword :=
  (spellings.find? fun (spelling, _) => spelling == word).map (·.2)

/-- Operators, brackets and the other tokens made of punctuation. -/
inductive Sign where
  | plus | minus | star | power | slash | floorDiv | percent | at | amp | bar | caret | tilde
  | shiftLeft | shiftRight | less | greater | lessEq | greaterEq | equal | notEqual | oldNotEqual
  | openParen | closeParen | openBracket | closeBracket | openBrace | closeBrace
  | comma | colon | semicolon | dot | ellipsis | arrow | walrus | assign
  /-- An operator joined with `=`. -/
  | augmented
  deriving DecidableEq, Repr

/-- Longer spellings stand before those that they begin with. -/
def Sign.spellings : List (List Char × Sign) :=
  [(['*', '*', '='], .augmented), (['/', '/', '='], .augmented), (['<', '<', '='], .augmented),
    (['>', '>', '='], .augmented), (['.', '.', '.'], .ellipsis),
    (['+', '='], .augmented), (['-', '='], .augmented), (['*', '='], .augmented),
    (['/', '='], .augmented), (['%', '='], .augmented), (['@', '='], .augmented),
    (['&', '='], .augmented), (['|', '='], .augmented), (['^', '='], .augmented),
    (['*', '*'], .power), (['/', '/'], .floorDiv), (['<', '<'], .shiftLeft),
    (['>', '>'], .shiftRight), (['<', '='], .lessEq), (['>', '='], .greaterEq),
    (['=', '='], .equal), (['!', '='], .notEqual), (['<', '>'], .oldNotEqual),
    (['-', '>'], .arrow), ([':', '='], .walrus),
    (['+'], .plus), (['-'], .minus), (['*'], .star), (['/'], .slash), (['%'], .percent),
    (['@'], .at), (['&'], .amp), (['|'], .bar), (['^'], .caret), (['~'], .tilde),
    (['<'], .less), (['>'], .greater), (['('], .openParen), ([')'], .closeParen),
    (['['], .openBracket), ([']'], .closeBracket), ([Char.ofNat 0x7B], .openBrace),
    ([Char.ofNat 0x7D], .closeBrace), ([','], .comma), ([':'], .colon), ([';'], .semicolon),
    (['.'], .dot), (['='], .assign)]

/-- The sign that the text begins with, and its length. -/
def Sign.read? (cs : List Char) : Option (Sign × Nat) :=
  (spellings.find? fun (spelling, _) => spelling.isPrefixOf cs).map fun (spelling, sign) =>
    (sign, spelling.length)

/-- What the opening of a string literal says about its contents. -/
structure Delimiter where
  quote : Char
  triple : Bool
  /-- Braces enclose expressions. -/
  isFormat : Bool
  isRaw : Bool
  isBytes : Bool
  deriving DecidableEq, Repr

/-- The quotes after the letters of a string's opening. -/
def Delimiter.ofQuotes? (isFormat isRaw isBytes : Bool) (cs : List Char) :
    Option (Delimiter × Nat) :=
  match cs with
  | [] => none
  | c :: rest =>
    if c == Char.ofNat 0x60 then some (⟨c, false, isFormat, isRaw, isBytes⟩, 1)
    else if c == '\'' || c == '"' then
      if [c, c].isPrefixOf rest then some (⟨c, true, isFormat, isRaw, isBytes⟩, 3)
      else some (⟨c, false, isFormat, isRaw, isBytes⟩, 1)
    else none

/-- The opening of a string literal that the text begins with, and its length. Letters may be
repeated and come in any order. -/
def Delimiter.read? (isFormat isRaw isBytes : Bool) (length : Nat) :
    List Char → Option (Delimiter × Nat)
  | [] => none
  | c :: cs =>
    if c == 'f' || c == 'F' then read? true isRaw isBytes (length + 1) cs
    else if c == 'r' || c == 'R' then read? isFormat true isBytes (length + 1) cs
    else if c == 'b' || c == 'B' then read? isFormat isRaw true (length + 1) cs
    else if c == 'u' || c == 'U' then read? isFormat isRaw isBytes (length + 1) cs
    else (ofQuotes? isFormat isRaw isBytes (c :: cs)).map fun (d, n) => (d, length + n)

/-! ### Numbers -/

/-- The length of a run of digits in which a digit may be followed by one underscore; `afterDigit`
tells that the underscore may come first. -/
def digitRun (isDigit : Char → Bool) (afterDigit : Bool) : List Char → Nat
  | [] => 0
  | c :: cs =>
    if isDigit c then digitRun isDigit true cs + 1
    else if c == '_' && afterDigit then digitRun isDigit false cs + 1
    else 0

/-- The length of a run of digits in which a digit may have one underscore before it. -/
def prefixedDigitRun (isDigit : Char → Bool) : List Char → Nat
  | [] => 0
  | [c] => if isDigit c then 1 else 0
  | c :: d :: cs =>
    if isDigit c then prefixedDigitRun isDigit (d :: cs) + 1
    else if c == '_' && isDigit d then prefixedDigitRun isDigit (d :: cs) + 1
    else 0

def isHexDigit (c : Char) : Bool :=
  Text.isAsciiDigit c || ('a' ≤ c && c ≤ 'f') || ('A' ≤ c && c ≤ 'F')

/-- One if the text begins with one of the letters. -/
def oneOf (letters : List Char) : List Char → Nat
  | [] => 0
  | c :: _ => if letters.contains c then 1 else 0

/-- The length of an exponent. -/
def exponentLength (cs : List Char) : Nat :=
  if oneOf ['e', 'E'] cs == 0 then 0
  else
    let sign := oneOf ['+', '-'] (cs.drop 1)
    let digits := digitRun Text.isAsciiDigit false (cs.drop (1 + sign))
    if digits == 0 then 0 else 1 + sign + digits

/-- The fraction and exponent behind the digits before a point, if there are any. -/
def fractionLength (cs : List Char) : Nat :=
  match cs with
  | '.' :: rest =>
    let digits := digitRun Text.isAsciiDigit false rest
    1 + digits + exponentLength (rest.drop digits)
  | _ => exponentLength cs

/-- A number in base 2, 8 or 16, whose digits must not be missing. -/
def basedLength (cs : List Char) : Nat :=
  let digits := match cs with
    | '0' :: x :: rest =>
      if x == 'x' || x == 'X' then prefixedDigitRun isHexDigit rest
      else if x == 'o' || x == 'O' then prefixedDigitRun (fun c => '0' ≤ c && c ≤ '7') rest
      else if x == 'b' || x == 'B' then prefixedDigitRun (fun c => c == '0' || c == '1') rest
      else 0
    | _ => 0
  if digits == 0 then 0
  else 2 + digits + oneOf ['L', 'l'] (cs.drop (2 + digits))

/-- The number that the text begins with: whether it is a floating-point number, and its length. -/
def readNumber? (cs : List Char) : Option (Bool × Nat) :=
  let based := basedLength cs
  if based > 0 then some (false, based)
  else
    let digits := digitRun Text.isAsciiDigit false cs
    if digits == 0 then
      match cs with
      | '.' :: c :: _ =>
        if Text.isAsciiDigit c then
          let fraction := fractionLength cs
          some (true, fraction + oneOf ['j', 'J'] (cs.drop fraction))
        else none
      | _ => none
    else
      let fraction := fractionLength (cs.drop digits)
      if fraction > 0 then
        let length := digits + fraction
        some (true, length + oneOf ['j', 'J'] (cs.drop length))
      else some (false, digits + oneOf ['L', 'l', 'j', 'J'] (cs.drop digits))

/-! ### Tokens -/

inductive Token where
  | word (keyword : Option Keyword)
  | integer
  | float
  | sign (which : Sign)
  | quote (opening : Delimiter)
  /-- The end of a logical line. -/
  | newline
  /-- The first line of a block that is indented by so many columns. -/
  | indent (columns : Nat)
  /-- A line that ends a block. -/
  | dedent
  /-- The end of the text. -/
  | finish
  /-- A character that begins no token. -/
  | stray
  deriving DecidableEq, Repr

/-- The token that the text begins with, and its length, where neither blanks nor the opening of
a string stand. -/
def Token.read (cs : List Char) : Token × Nat :=
  match cs with
  | [] => (.finish, 0)
  | c :: rest =>
    if Text.isIdentifierStart c then
      let length := 1 + (rest.takeWhile Text.isIdentifierContinue).length
      (.word (Keyword.ofChars? (cs.take length)), length)
    else match readNumber? cs with
      | some (isFloat, length) => (if isFloat then .float else .integer, length)
      | none => match Sign.read? cs with
        | some (found, length) => (.sign found, length)
        | none => (.stray, 1)

end SourceCorpus.Syntax
