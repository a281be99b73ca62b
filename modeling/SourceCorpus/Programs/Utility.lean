import SourceCorpus.Programs.Format
import SourceCorpus.Text.Lines

/-!
The utilities of a system that work on their arguments and their input alone.
-/

namespace SourceCorpus.Programs

/-- What a utility leaves: what it wrote, its status, the time it took, and the input that it did
not read. -/
structure Effect where
  output : Bytes
  messages : Bytes
  code : Nat
  milliseconds : Nat
  input : Bytes

namespace Effect

/-- Writes an output, having read all of the input. -/
def filter (output : Bytes) : Effect := ⟨output, [], 0, 0, []⟩

/-- Writes an output and leaves the input alone. -/
def source (output input : Bytes) : Effect := ⟨output, [], 0, 0, input⟩

def status (code : Nat) (input : Bytes) : Effect := ⟨[], [], code, 0, input⟩

def fault (message : String) (code : Nat) (input : Bytes) : Effect :=
  ⟨[], bytesOf (message ++ "\n"), code, 0, input⟩

end Effect

/-- The pieces of bytes, each up to and with a line feed. -/
def linesOf (bytes : Bytes) : List Bytes :=
  bytes.foldr (fun byte pieces =>
    match byte, pieces with
    | 10, _ => [10] :: pieces
    | _, [] => [[byte]]
    | _, piece :: pieces => (byte :: piece) :: pieces) []

def catenate (arguments : List String) (input : Bytes) : Effect :=
  match arguments.find? (· ≠ "-") with
  | none => .filter input
  | some "/dev/null" => .source [] input
  | some name => .fault ("cat: " ++ name ++ ": No such file or directory") 1 input

/-- Writes the words; a shell of its own reads the escapes in them. -/
def echo (style : EscapeStyle) (arguments : List String) (input : Bytes) : Effect :=
  let (words, ending) := match arguments with
    | "-n" :: words => (words, "")
    | words => (words, "\n")
  let text := " ".intercalate words
  let bytes := match style with
    | .octal => unescape style text.toList
    | .hexadecimal => bytesOf text
  .source (bytes ++ bytesOf ending) input

/-- A fault of the arguments, with the hint that a program of its own adds. -/
def usageFault (name problem : String) (input : Bytes) : Effect :=
  .fault (name ++ ": " ++ problem ++ "\nTry '" ++ name ++ " --help' for more information.") 1 input

def printFormat (style : EscapeStyle) (arguments : List String) (input : Bytes) : Effect :=
  match arguments with
  | [] => usageFault "printf" "missing operand" input
  | "--" :: text :: arguments | text :: arguments => .source (format style text arguments) input

/-- A time in seconds with a fraction, or in another unit, in milliseconds. -/
def millisecondsOf (text : String) : Nat :=
  let whole := text.toList.takeWhile fun c => (decimalValue? c).isSome
  let behind := text.toList.drop whole.length
  let digits := match behind with
    | '.' :: rest => rest.takeWhile fun c => (decimalValue? c).isSome
    | _ => []
  let thousandths := (digits ++ ['0', '0', '0']).take 3
  let n := numberOf (String.ofList (whole ++ thousandths))
  match text.toList.getLast? with
  | some 'm' => n * 60
  | some 'h' => n * 3600
  | _ => n

def sleep (arguments : List String) (input : Bytes) : Effect :=
  if arguments.isEmpty then usageFault "sleep" "missing operand" input else
  ⟨[], [], 0, (arguments.map millisecondsOf).foldl (· + ·) 0, input⟩

/-- The bytes of a set of characters, in which a hyphen stands for those between its neighbours. -/
def withRanges : Bytes → Bytes
  | a :: 45 :: b :: rest =>
    if a ≤ b then
      (List.range (b.toNat + 1 - a.toNat)).map (fun n => UInt8.ofNat (a.toNat + n)) ++
        withRanges rest
    else withRanges rest
  | a :: rest => a :: withRanges rest
  | [] => []

def bytesBetween (low high : Char) : Bytes :=
  withRanges [UInt8.ofNat low.toNat, 45, UInt8.ofNat high.toNat]

def byteSet (text : String) : Bytes :=
  match text with
  | "[:upper:]" => bytesBetween 'A' 'Z'
  | "[:lower:]" => bytesBetween 'a' 'z'
  | "[:digit:]" => bytesBetween '0' '9'
  | "[:alpha:]" => bytesBetween 'A' 'Z' ++ bytesBetween 'a' 'z'
  | "[:alnum:]" => bytesBetween '0' '9' ++ bytesBetween 'A' 'Z' ++ bytesBetween 'a' 'z'
  | "[:space:]" => [9, 10, 11, 12, 13, 32]
  | text => withRanges (unescape .octal text.toList)

/-- The byte at the same place of the other set, whose last byte stands for all that are missing. -/
def translateByte (fromSet toSet : Bytes) (byte : UInt8) : UInt8 :=
  match fromSet.zipIdx.reverse.lookup byte with
  | some place => (toSet[place]?).getD (toSet.getLast?.getD byte)
  | none => byte

/-- Leaves one of neighbouring equal bytes of the set. -/
def squeeze (set : Bytes) : Bytes → Bytes
  | a :: b :: rest => if a = b ∧ set.contains a then squeeze set (b :: rest)
    else a :: squeeze set (b :: rest)
  | bytes => bytes

def translate (arguments : List String) (input : Bytes) : Effect :=
  match arguments with
  | ["-d", set] => .filter (input.filter fun byte => !(byteSet set).contains byte)
  | ["-cd", set] | ["-dc", set] => .filter (input.filter (byteSet set).contains)
  | ["-s", set] => .filter (squeeze (byteSet set) input)
  | [fromSet, toSet] => .filter (input.map (translateByte (byteSet fromSet) (byteSet toSet)))
  | _ => usageFault "tr" "missing operand" input

/-- A count and what it counts: bytes, or else lines. -/
def amountOf : List String → Bool × Nat
  | ["-c", n] => (true, numberOf n)
  | ["-n", n] => (false, numberOf n)
  | [option] =>
    match option.toList with
    | '-' :: 'c' :: n => (true, numberOf (String.ofList n))
    | '-' :: 'n' :: n | '-' :: n => (false, numberOf (String.ofList n))
    | _ => (false, 10)
  | _ => (false, 10)

def head (arguments : List String) (input : Bytes) : Effect :=
  match amountOf (arguments.filter (· ≠ "/dev/zero")) with
  | (true, n) =>
    if arguments.contains "/dev/zero" then .source (List.replicate n 0) input
    else .filter (input.take n)
  | (false, n) => .filter ((linesOf input).take n).flatten

def tail (arguments : List String) (input : Bytes) : Effect :=
  match amountOf arguments with
  | (true, n) => .filter (input.drop (input.length - n))
  | (false, n) => .filter ((linesOf input).drop ((linesOf input).length - n)).flatten

/-- How many words are in the bytes; the flag says whether one has begun. -/
def countWords (started : Bool) : Bytes → Nat
  | [] => 0
  | byte :: bytes =>
    let blank := byte == 32 || (9 ≤ byte && byte ≤ 13)
    (if started || blank then 0 else 1) + countWords (!blank) bytes

def countOf (arguments : List String) (input : Bytes) : Effect :=
  let line (n : Nat) : Effect := .filter (bytesOf (toString n ++ "\n"))
  match arguments with
  | ["-c"] => line input.length
  | ["-l"] => line (input.count 10)
  | ["-w"] => line (countWords false input)
  | ["-m"] => line ((Utf8.pieces input).length)
  | _ =>
    let column (n : Nat) : Bytes := pad ['7'] (bytesOf (toString n))
    .filter (column (input.count 10) ++ [32] ++ column (countWords false input) ++ [32] ++
      column input.length ++ [10])

/-- A line without its line feed. -/
def dropLineFeed (line : Bytes) : Bytes := if line.getLast? = some 10 then line.dropLast else line

/-- The numbers between two, each on a line. -/
def countUp (first last : Nat) : Bytes :=
  (List.range (last + 1 - first)).flatMap fun n => bytesOf (toString (first + n) ++ "\n")

def sequence (arguments : List String) (input : Bytes) : Effect :=
  match arguments with
  | [last] => .source (countUp 1 (numberOf last)) input
  | [first, last] => .source (countUp (numberOf first) (numberOf last)) input
  | _ => usageFault "seq" "missing operand" input

/-- Writes one line again and again, more often than a reader asks for. -/
def repeatLine (arguments : List String) (input : Bytes) : Effect :=
  let line := if arguments.isEmpty then "y" else " ".intercalate arguments
  .source (List.replicate 262144 (bytesOf (line ++ "\n"))).flatten input

def reverseLines (input : Bytes) : Effect :=
  .filter ((linesOf input).flatMap fun line =>
    let text := Utf8.decodeLossy (dropLineFeed line)
    Utf8.encode text.toList.reverse ++ line.drop (dropLineFeed line).length)

def notAfter : Bytes → Bytes → Bool
  | [], _ => true
  | _ :: _, [] => false
  | a :: as, b :: bs => if a = b then notAfter as bs else a ≤ b

def sortLines (arguments : List String) (input : Bytes) : Effect :=
  let sorted := ((linesOf input).map dropLineFeed).mergeSort notAfter
  let sorted := if arguments.contains "-r" then sorted.reverse else sorted
  .filter (sorted.flatMap (· ++ [10]))

/-- The values of the variables, each on a line. -/
def printVariables (names : List String) (environment : Environment) (input : Bytes) : Effect :=
  let values := names.filterMap fun name => environment.lookup name
  { Effect.source (values.flatMap fun value => bytesOf (value ++ "\n")) input with
    code := if values.length = names.length then 0 else 1 }

/-- Whether a condition holds. -/
def holds : List String → Bool
  | ["-n", text] => text ≠ ""
  | ["-z", text] => text = ""
  | [a, "=", b] => a = b
  | [a, "!=", b] => a ≠ b
  | [a, "-eq", b] => numberOf a = numberOf b
  | [a, "-ne", b] => numberOf a ≠ numberOf b
  | [text] => text ≠ ""
  | _ => false

/-- The utility with the name, for its arguments, the variables and its input. -/
def utility? (style : EscapeStyle) (name : String) :
    Option (List String → Environment → Bytes → Effect) :=
  match name with
  | "cat" => some fun arguments _ => catenate arguments
  | "echo" => some fun arguments _ => echo style arguments
  | "printf" => some fun arguments _ => printFormat style arguments
  | "true" | ":" => some fun _ _ => .status 0
  | "false" => some fun _ _ => .status 1
  | "sleep" => some fun arguments _ => sleep arguments
  | "tr" => some fun arguments _ => translate arguments
  | "head" => some fun arguments _ => head arguments
  | "tail" => some fun arguments _ => tail arguments
  | "wc" => some fun arguments _ => countOf arguments
  | "seq" => some fun arguments _ => sequence arguments
  | "yes" => some fun arguments _ => repeatLine arguments
  | "tac" => some fun _ _ input => .filter (linesOf input).reverse.flatten
  | "rev" => some fun _ _ => reverseLines
  | "sort" => some fun arguments _ => sortLines arguments
  | "printenv" => some printVariables
  | "test" => some fun arguments _ => .status (if holds arguments then 0 else 1)
  | "[" => some fun arguments _ => .status (if holds arguments.dropLast then 0 else 1)
  | _ => none

end SourceCorpus.Programs
