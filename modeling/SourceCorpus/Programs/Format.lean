import SourceCorpus.Programs.Basic

/-!
Formatting arguments. A format is a sequence of bytes and conversions; each conversion takes the
next argument, and the format is used again as long as arguments are left.
-/

namespace SourceCorpus.Programs

def bytesOf (text : String) : Bytes := Utf8.encode text.toList

def octalValue? (c : Char) : Option Nat :=
  if '0' ≤ c ∧ c ≤ '7' then some (c.toNat - 48) else none

def decimalValue? (c : Char) : Option Nat :=
  if '0' ≤ c ∧ c ≤ '9' then some (c.toNat - 48) else none

def hexValue? (c : Char) : Option Nat :=
  if 'a' ≤ c.toLower ∧ c.toLower ≤ 'f' then some (c.toLower.toNat - 87) else decimalValue? c

/-- Which escapes a format knows: a shell knows fewer than a program of its own. -/
inductive EscapeStyle where
  /-- Letters and octal numbers. -/
  | octal
  /-- Hexadecimal numbers behind an `x` as well. -/
  | hexadecimal
  deriving DecidableEq, Repr

/-- The number in decimal digits; text that is none counts for zero. -/
def numberOf (text : String) : Nat :=
  (text.toList.filterMap decimalValue?).foldl (fun n digit => n * 10 + digit) 0

/-- What a backslash and a letter stand for. -/
def controlByte? : Char → Option UInt8
  | 'a' => some 7
  | 'b' => some 8
  | 't' => some 9
  | 'n' => some 10
  | 'v' => some 11
  | 'f' => some 12
  | 'r' => some 13
  | '\\' => some 92
  | _ => none

/-- The byte with the number that the digits at the front are, and how many these are. A number has
`most` digits at most. -/
def numberedByte? (base most : Nat) (digitValue? : Char → Option Nat) (cs : List Char) :
    Option (UInt8 × Nat) :=
  match (cs.take most).map digitValue? |>.takeWhile Option.isSome |>.filterMap id with
  | [] => none
  | digits => some (UInt8.ofNat (digits.foldl (fun n digit => n * base + digit) 0), digits.length)

/-- The byte that a backslash and the text behind it stand for, and how much of the text that takes:
a letter, or up to three octal digits. A backslash before anything else is itself. -/
def escapedByte (style : EscapeStyle) (cs : List Char) : UInt8 × Nat :=
  match cs.head?.bind controlByte?, style, cs with
  | some byte, _, _ => (byte, 1)
  | none, .hexadecimal, 'x' :: digits =>
    ((numberedByte? 16 2 hexValue? digits).map fun (byte, taken) => (byte, taken + 1)).getD (92, 0)
  | none, _, _ => (numberedByte? 8 3 octalValue? cs).getD (92, 0)

/-- The bytes of text with backslashes in it. The first `skip` characters belong to a byte that is
written already. -/
def unescapeFrom (style : EscapeStyle) : Nat → List Char → Bytes
  | _, [] => []
  | skip + 1, _ :: cs => unescapeFrom style skip cs
  | 0, c :: cs =>
    if c = '\\' then
      let (byte, taken) := escapedByte style cs
      byte :: unescapeFrom style taken cs
    else String.utf8EncodeChar c ++ unescapeFrom style 0 cs

def unescape (style : EscapeStyle) (cs : List Char) : Bytes := unescapeFrom style 0 cs

/-- A part of a format. -/
inductive FormatPart where
  | literal (text : List Char)
  /-- A letter that says how the next argument is written, behind flags and sizes. -/
  | conversion (sizes : List Char) (letter : Char)
  deriving DecidableEq, Repr

def isSizeMark (c : Char) : Bool := c == '-' || c == '.' || c == '+' || (decimalValue? c).isSome

/-- The parts of a format, its literal text character by character. In `sizes` are the marks behind
a percent sign. -/
def formatParts : Option (List Char) → List Char → List FormatPart
  | none, [] => []
  | some sizes, [] => [.literal ('%' :: sizes)]
  | none, '%' :: rest => formatParts (some []) rest
  | none, '\\' :: c :: rest => .literal ['\\', c] :: formatParts none rest
  | none, c :: rest => .literal [c] :: formatParts none rest
  | some sizes, '%' :: rest => .literal ('%' :: sizes) :: formatParts none rest
  | some sizes, c :: rest =>
    if isSizeMark c then formatParts (some (sizes ++ [c])) rest
    else .conversion sizes c :: formatParts none rest

/-- Neighbouring literals as one, so that the digits of an escaped byte stay together. -/
def joinLiterals : List FormatPart → List FormatPart
  | [] => []
  | .literal a :: rest =>
    match joinLiterals rest with
    | .literal b :: rest => .literal (a ++ b) :: rest
    | rest => .literal a :: rest
  | part :: rest => part :: joinLiterals rest

def pad (sizes : List Char) (bytes : Bytes) : Bytes :=
  let left := sizes.contains '-'
  let width := numberOf (String.ofList ((sizes.filter (· ≠ '-')).takeWhile (· ≠ '.')))
  let zeros := (sizes.head? = some '0') && !left
  let fill := List.replicate (width - bytes.length) (if zeros then (48 : UInt8) else 32)
  if left then bytes ++ fill else fill ++ bytes

/-- At most as many bytes as the number behind the point, if there is one. -/
def cut (sizes : List Char) (bytes : Bytes) : Bytes :=
  match sizes.dropWhile (· ≠ '.') with
  | [] => bytes
  | _ :: digits => bytes.take (numberOf (String.ofList digits))

def digitsOf (base n : Nat) : Bytes := bytesOf (String.ofList (Nat.toDigits base n))

def convert (style : EscapeStyle) (sizes : List Char) (letter : Char) (argument : String) : Bytes :=
  match letter with
  | 's' => pad sizes (cut sizes (bytesOf argument))
  | 'b' => pad sizes (cut sizes (unescape style argument.toList))
  | 'c' => pad sizes ((bytesOf argument).take 1)
  | 'd' | 'i' | 'u' =>
    let sign := if argument.toList.head? = some '-' then bytesOf "-" else []
    pad sizes (sign ++ digitsOf 10 (numberOf argument))
  | 'x' => pad sizes (digitsOf 16 (numberOf argument))
  | 'o' => pad sizes (digitsOf 8 (numberOf argument))
  | _ => []

/-- The parts written once, and the arguments that are left. A conversion without an argument writes
the empty text. -/
def formatOnce (style : EscapeStyle) : List FormatPart → List String → Bytes × List String
  | [], arguments => ([], arguments)
  | .literal text :: parts, arguments =>
    let (bytes, left) := formatOnce style parts arguments
    (unescape style text ++ bytes, left)
  | .conversion sizes letter :: parts, arguments =>
    let (bytes, left) := formatOnce style parts arguments.tail
    (convert style sizes letter (arguments.headD "") ++ bytes, left)

/-- The parts written again while arguments are left, at most `rounds` times more. -/
def formatAll (style : EscapeStyle) (parts : List FormatPart) : Nat → List String → Bytes
  | 0, arguments => (formatOnce style parts arguments).1
  | rounds + 1, arguments =>
    match formatOnce style parts arguments with
    | (bytes, []) => bytes
    | (bytes, left) => bytes ++ formatAll style parts rounds left

def format (style : EscapeStyle) (text : String) (arguments : List String) : Bytes :=
  let parts := joinLiterals (formatParts none text.toList)
  let takes : FormatPart → Bool
    | .conversion _ _ => true
    | .literal _ => false
  formatAll style parts (if parts.any takes then arguments.length else 0) arguments

end SourceCorpus.Programs
