/-!
The bounds of what can be configured, and the sizes of prompts. A prompt may fill seven tenths of
the context window, and a token is taken for three and a half bytes; both factors are applied in
arithmetic with 53 significant bits.
-/

namespace SourceCorpus.Limits

def clampInt (value minimum maximum : Int) : Int := min (max value minimum) maximum

def clampNat (value minimum maximum : Nat) : Nat := min (max value minimum) maximum

def maxWorkers : Nat := 64

def clampWorkers (workers : Nat) : Nat := clampNat workers 1 maxWorkers

def defaultContextLength : Nat := 2048

def clampContextLength (length : Nat) : Nat := clampNat length 256 1048576

def defaultMaxNewTokens : Nat := 512

def defaultTimeoutSeconds : Nat := 120

def clampTimeoutSeconds (seconds : Nat) : Nat := clampNat seconds 1 3600

/-- The most nested objects that are explained along with an object. -/
def maxDetailed : Nat := 32

/-- The nearest number with 53 significant bits, the even one of two. -/
def roundSignificant (n : Nat) : Nat :=
  let unit := 1 <<< (n.log2 + 1 - 53)
  let quotient := n / unit
  let twice := 2 * (n % unit)
  if twice < unit ∨ twice = unit ∧ quotient % 2 = 0 then quotient * unit
  else (quotient + 1) * unit

/-- Seven tenths with 53 significant bits, in units of `2 ^ (-53)`. -/
def fillRatio : Nat := 6305039478318694

/-- The tokens that a prompt may have in a context window of the length. -/
def contextBudget (contextLength : Nat) : Nat :=
  roundSignificant (roundSignificant contextLength * fillRatio) >>> 53

/-- About how many tokens a text of so many bytes has. A text that is not empty has one at least. -/
def estimateOfBytes (bytes : Nat) : Nat := if bytes = 0 then 0 else max (2 * bytes / 7) 1

def estimateTokens (text : String) : Nat := estimateOfBytes text.utf8ByteSize

end SourceCorpus.Limits
