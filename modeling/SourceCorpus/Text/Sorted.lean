/-!
Names in order. Texts are compared character by character, by code point.
-/

namespace SourceCorpus.Text

/-- Puts the name into names that are in order; a name that is there stays there once. -/
def insertName (name : String) : List String → List String
  | [] => [name]
  | n :: names =>
    if name < n then name :: n :: names
    else if name = n then n :: names
    else n :: insertName name names

/-- The names in order, each once. -/
def sortedNames (names : List String) : List String := names.foldr insertName []

theorem mem_insertName {name name' : String} {names : List String} :
    name ∈ insertName name' names ↔ name = name' ∨ name ∈ names := by
  induction names with
  | nil => simp [insertName]
  | cons n names ih =>
    rw [insertName]
    split
    · exact List.mem_cons
    · split
      next h => simp [h]
      next => simp [ih, or_left_comm]

@[simp] theorem mem_sortedNames {name : String} {names : List String} :
    name ∈ sortedNames names ↔ name ∈ names := by
  induction names with
  | nil => exact Iff.rfl
  | cons n names ih =>
    rw [sortedNames, List.foldr_cons, mem_insertName, List.mem_cons]
    exact or_congr_right ih

end SourceCorpus.Text
