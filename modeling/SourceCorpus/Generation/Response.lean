import SourceCorpus.Failure
import SourceCorpus.Text.Blank

/-!
Cleaning what a generator returned: wherever only blanks stand between two line breaks, one empty
line is left, and blanks at either end are dropped.
-/

namespace SourceCorpus.Response

open Text

/-- How many characters the blanks at the start have up to their last line break, if they have one.
-/
def lastBreak? : List Char → Option Nat
  | [] => none
  | c :: cs =>
    if isBlank c then
      match lastBreak? cs with
      | some n => some (n + 1)
      | none => if c = '\n' then some 1 else none
    else none

/-- The text with each run of blank lines, from its first to its last line break, turned into one.
The first `skip` characters belong to a run that is written already. -/
def collapseFrom : Nat → List Char → List Char
  | _, [] => []
  | skip + 1, _ :: cs => collapseFrom skip cs
  | 0, c :: cs =>
    if c = '\n' then
      match lastBreak? cs with
      | some n => '\n' :: '\n' :: collapseFrom n cs
      | none => c :: collapseFrom 0 cs
    else c :: collapseFrom 0 cs

def collapse (cs : List Char) : List Char := collapseFrom 0 cs

/-- The cleaned text; an empty one is no answer. -/
def clean (raw : String) : Except GenerationFailure String :=
  let text := trimChars (collapse raw.toList)
  if text = [] then .error (.malformedOutput "empty response") else .ok (String.ofList text)

end SourceCorpus.Response
