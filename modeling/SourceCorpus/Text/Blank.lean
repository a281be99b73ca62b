/-!
Blank characters, and the operations on text that are defined by them: trimming and compacting.
-/

namespace SourceCorpus.Text

/-- The characters with the Unicode property `White_Space`. -/
def isBlank (c : Char) : Bool :=
  let n := c.toNat
  (9 ≤ n && n ≤ 13) || n == 0x20 || n == 0x85 || n == 0xA0 || n == 0x1680 ||
    (0x2000 ≤ n && n ≤ 0x200A) || n == 0x2028 || n == 0x2029 || n == 0x202F || n == 0x205F ||
    n == 0x3000

def trimStartChars (cs : List Char) : List Char := cs.dropWhile isBlank

def trimEndChars (cs : List Char) : List Char := (cs.reverse.dropWhile isBlank).reverse

def trimChars (cs : List Char) : List Char := trimEndChars (trimStartChars cs)

def trim (s : String) : String := String.ofList (trimChars s.toList)

def isAllBlank (cs : List Char) : Bool := cs.all isBlank

def compactChars (cs : List Char) : List Char := cs.filter fun c => !isBlank c

def compact (s : String) : String := String.ofList (compactChars s.toList)

end SourceCorpus.Text
