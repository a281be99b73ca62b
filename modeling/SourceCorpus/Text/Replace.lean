/-!
Searching a text and replacing what is found.
-/

namespace SourceCorpus.Text

def containsChars (pattern : List Char) : List Char → Bool
  | [] => pattern.isEmpty
  | c :: cs => pattern.isPrefixOf (c :: cs) || containsChars pattern cs

def contains (text pattern : String) : Bool := containsChars pattern.toList text.toList

/-- Replaces the occurrences of a pattern, from left to right. The first `skip` characters belong to
an occurrence that is replaced already. -/
def replaceFrom (pattern value : List Char) : Nat → List Char → List Char
  | _, [] => []
  | skip + 1, _ :: cs => replaceFrom pattern value skip cs
  | 0, c :: cs =>
    if pattern ≠ [] ∧ pattern.isPrefixOf (c :: cs) then
      value ++ replaceFrom pattern value (pattern.length - 1) cs
    else c :: replaceFrom pattern value 0 cs

/-- The text with every occurrence of a pattern that is not empty replaced. -/
def replaceChars (pattern value cs : List Char) : List Char := replaceFrom pattern value 0 cs

def replace (text pattern value : String) : String :=
  String.ofList (replaceChars pattern.toList value.toList text.toList)

def stripStart? (start text : String) : Option String :=
  if start.toList.isPrefixOf text.toList then
    some (String.ofList (text.toList.drop start.toList.length))
  else none

end SourceCorpus.Text
