/-!
Bytes as text. Bytes that are no text fall into runs: the longest start of a character that the next
byte does not continue, or a single byte that no character starts with.
-/

namespace SourceCorpus.Utf8

def encode (cs : List Char) : List UInt8 := cs.flatMap String.utf8EncodeChar

/-- What bytes are made of. -/
inductive Piece where
  | char (c : Char)
  /-- Bytes that belong to no character. -/
  | invalid (size : Nat)
  /-- The start of a character at the end of the bytes. -/
  | incomplete (size : Nat)
  deriving DecidableEq, Repr

def Piece.size : Piece → Nat
  | char c => c.utf8Size
  | invalid size => size
  | incomplete size => size

/-- Where the bytes behind the first byte of a character lie; `none` if no character starts with it.
-/
def laterRanges? (first : Nat) : Option (List (Nat × Nat)) :=
  let later := (0x80, 0xBF)
  if first < 0x80 then some []
  else if first < 0xC2 then none
  else if first < 0xE0 then some [later]
  else if first = 0xE0 then some [(0xA0, 0xBF), later]
  else if first = 0xED then some [(0x80, 0x9F), later]
  else if first < 0xF0 then some [later, later]
  else if first = 0xF0 then some [(0x90, 0xBF), later, later]
  else if first < 0xF4 then some [later, later, later]
  else if first = 0xF4 then some [(0x80, 0x8F), later, later]
  else none

/-- What the first byte adds to the number of its character. -/
def firstValue (first : Nat) : Nat :=
  if first < 0x80 then first
  else if first < 0xE0 then first - 0xC0
  else if first < 0xF0 then first - 0xE0
  else first - 0xF0

/-- Goes on with a character of which `size` bytes are read, as far as the bytes lie in the ranges.
-/
def readLater (value size : Nat) : List (Nat × Nat) → List UInt8 → Piece
  | [], _ => .char (Char.ofNat value)
  | _ :: _, [] => .incomplete size
  | (low, high) :: ranges, byte :: bytes =>
    if low ≤ byte.toNat ∧ byte.toNat ≤ high then
      readLater (value * 64 + (byte.toNat - 0x80)) (size + 1) ranges bytes
    else .invalid size

/-- The piece that starts with the byte. -/
def firstPiece (byte : UInt8) (bytes : List UInt8) : Piece :=
  match laterRanges? byte.toNat with
  | none => .invalid 1
  | some ranges => readLater (firstValue byte.toNat) 1 ranges bytes

/-- The pieces of the bytes. The first `skip` bytes belong to a piece that is read already. -/
def piecesFrom : Nat → List UInt8 → List Piece
  | _, [] => []
  | skip + 1, _ :: bytes => piecesFrom skip bytes
  | 0, byte :: bytes =>
    let piece := firstPiece byte bytes
    piece :: piecesFrom (piece.size - 1) bytes

def pieces (bytes : List UInt8) : List Piece := piecesFrom 0 bytes

/-- Why bytes are no text, and after how many bytes of text. -/
inductive Fault where
  | invalid (size index : Nat)
  | incomplete (index : Nat)
  deriving DecidableEq, Repr

def Fault.text : Fault → String
  | invalid size index => s!"invalid utf-8 sequence of {size} bytes from index {index}"
  | incomplete index => s!"incomplete utf-8 byte sequence from index {index}"

/-- The characters of pieces that start at the byte with the index. -/
def charsOf (index : Nat) : List Piece → Except Fault (List Char)
  | [] => .ok []
  | .char c :: rest => (charsOf (index + c.utf8Size) rest).map (c :: ·)
  | .invalid size :: _ => .error (.invalid size index)
  | .incomplete _ :: _ => .error (.incomplete index)

def decode (bytes : List UInt8) : Except Fault String :=
  (charsOf 0 (pieces bytes)).map String.ofList

def Piece.shown : Piece → Char
  | char c => c
  | _ => '\uFFFD'

/-- The bytes as text, with one mark for each run of bytes that are none. -/
def decodeLossy (bytes : List UInt8) : String := String.ofList ((pieces bytes).map Piece.shown)

end SourceCorpus.Utf8
