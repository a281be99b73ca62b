import SourceCorpus.Yaml.Node

/-!
The values that the nodes of a document stand for. Where a text is wanted any scalar is one; numbers
and truth values are written without quotes. An empty scalar also stands for a mapping without
fields and for a sequence without items.
-/

namespace SourceCorpus.Yaml.Node

def text? : Node → Option String
  | .scalar text _ => some text
  | _ => none

def items? : Node → Option (List Node)
  | .sequence items => some items
  | .scalar "" _ => some []
  | _ => none

/-- The values of the fields with the names. Each field may be given once, and others may be. -/
def fields? (names : List String) : Node → Option (List (Option Node))
  | .mapping entries => do
    let keys ← entries.mapM fun (key, _) => key.text?
    let fields := keys.zip (entries.map (·.2))
    names.mapM fun name =>
      match fields.filter (·.1 == name) with
      | [] => some none
      | [(_, value)] => some (some value)
      | _ => none
  | .scalar "" _ => some (names.map fun _ => none)
  | _ => none

/-- The number with the digits in the base, if it has 64 bits at most. -/
def digits? (base : Nat) (cs : List Char) : Option Nat := do
  let digits ← cs.mapM hexDigit?
  if digits.isEmpty || digits.any (base ≤ ·) then none
  let n := digits.foldl (fun n d => n * base + d) 0
  if n < UInt64.size then some n else none

/-- A number that is not negative. No zero stands before the digits of a decimal one. -/
def naturalOfChars? (cs : List Char) : Option Nat :=
  let cs := match cs with
    | '+' :: cs => cs
    | cs => cs
  match cs with
  | '0' :: 'x' :: cs => digits? 16 cs
  | '0' :: 'o' :: cs => digits? 8 cs
  | '0' :: 'b' :: cs => digits? 2 cs
  | ['0'] => some 0
  | '0' :: _ => none
  | cs => digits? 10 cs

def natural? : Node → Option Nat
  | .scalar text true => naturalOfChars? text.toList
  | _ => none

def truth? : Node → Option Bool
  | .scalar "true" true => some true
  | .scalar "false" true => some false
  | _ => none

/-- The value of a field, or its default if it is left out. -/
def orDefault {α : Type} (read : Node → Option α) (default : α) : Option Node → Option α
  | some value => read value
  | none => some default

end SourceCorpus.Yaml.Node
