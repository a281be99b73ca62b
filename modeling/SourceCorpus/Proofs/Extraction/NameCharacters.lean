import SourceCorpus.Proofs.Extraction.QualifiedNames
import SourceCorpus.Proofs.Extraction.RecordedNames

/-!
The characters of names. Main statements: the name of a definition is an identifier, and its qualified
name consists of identifiers, dots, and the signs that numbers stand behind.
-/

namespace SourceCorpus.Extraction

open Syntax Tree

def IsNameChar (c : Char) : Prop :=
  (Text.isIdentifierStart c ∨ Text.isIdentifierContinue c) ∨ c = '.' ∨ c = '#'

variable {file source name : String} {m : CodeModel} {o owner : CodeObject} {n : Nat}

/-! ### Names of definitions -/

/-- The name in a definition is read as an identifier. -/
theorem isWord_of_definition {chars : List Char} {tree d : Tree} (hshaped : Shaped tree)
    (hspelled : IsSpelled chars tree) (hd : d ∈ tree.preorder) (hdefinition : d.isDefinition)
    (hname : (d.child? .name).map (·.text chars) = some name) : IsWord name.toList := by
  obtain ⟨t, ht, rfl⟩ := Option.map_eq_some_iff.1 hname
  have hmem : t ∈ d.children := List.mem_of_find?_eq_some ht
  have hrole : t.hasRole .name := List.find?_some (p := fun c : Tree => c.hasRole .name) ht
  have hword : SpellsOut chars t :=
    hspelled t (mem_preorder_trans hd (mem_preorder_of_mem_children hmem (self_mem_preorder t)))
  cases hshaped.of_mem_preorder hd with
  | node fits =>
    rw [Tree.text, String.toList_ofList]
    exact (hword.word (isKind_identifier_of_fits hdefinition (fits t hmem) hrole)).1

/-- An object that is not the module has an identifier as its name. -/
theorem isWord_name (h : extract file source = .ok m) (ho : o ∈ m.objects.toList)
    (hkind : o.kind ≠ .module) : IsWord o.name.toList := by
  obtain ⟨hproblem, -⟩ := extract_eq_ok_iff.1 h
  obtain ⟨hlength, hobjects⟩ := List.forall₂_iff_get.1 (haveKinds_of_extract h)
  obtain ⟨i, hi, rfl⟩ := List.mem_iff_getElem.1 ho
  have howner : (owners (parse source.toList))[i] ∈ owners (parse source.toList) :=
    List.getElem_mem (hlength ▸ hi)
  obtain ⟨hobject, -⟩ := hobjects i (hlength ▸ hi) hi
  have hdefinition : (owners (parse source.toList))[i].isDefinition :=
    (Bool.not_eq_false _).mp fun hnone => hkind (hobject.kind.2 hnone)
  exact isWord_of_definition (isStatement_parse hproblem).1.shaped (isSpelled_parse hproblem)
    (mem_preorder_of_mem_owners howner) hdefinition (hobject.name hdefinition)

/-! ### Qualified names -/

theorem isIdentifierContinue_of_isDigit {c : Char} (h : c.isDigit) :
    Text.isIdentifierContinue c := by
  have hdigit : Text.isAsciiDigit c = true := h
  have hascii : c.toNat < 0x80 := by
    rw [Char.isDigit, Bool.and_eq_true, decide_eq_true_eq, decide_eq_true_eq] at h
    exact Nat.lt_of_le_of_lt (UInt32.le_iff_toNat_le.1 h.2) (by decide)
  rw [Text.isIdentifierContinue, if_pos hascii, hdigit, Bool.or_true, Bool.true_or]

theorem isNameChar_candidate (h : ∀ c ∈ name.toList, IsNameChar c) (number : Nat) :
    ∀ c ∈ (Arena.candidate name number).toList, IsNameChar c := by
  have hchars : (Arena.candidate name number).toList =
      name.toList ++ '#' :: Nat.toDigits 10 number := by simp [Arena.candidate]
  intro c hc
  rw [hchars, List.mem_append, List.mem_cons] at hc
  rcases hc with hc | rfl | hc
  · exact h c hc
  · exact .inr (.inr rfl)
  · have hdigit : c.isDigit := Nat.isDigit_of_mem_toDigits (by decide) (by decide) hc
    exact .inl (.inr (isIdentifierContinue_of_isDigit hdigit))

/-- What is named in the module or in an object of such a name. -/
theorem IsNamedIn.isNameChar (h : IsNamedIn owner o) (hword : IsWord o.name.toList)
    (howner : owner.kind ≠ .module → ∀ c ∈ owner.qualifiedName.toList, IsNameChar c) :
    ∀ c ∈ o.qualifiedName.toList, IsNameChar c := by
  have hname : ∀ c ∈ o.name.toList, IsNameChar c := fun c hc => .inl (hword.continues c hc)
  have hinside : ∀ c ∈ (nameInside owner o.name).toList, IsNameChar c := by
    rw [nameInside]
    split
    next => exact hname
    next hkind =>
      intro c hc
      simp only [String.toList_append, List.mem_append] at hc
      rcases hc with (hc | hc) | hc
      · exact howner hkind c hc
      · exact .inr (.inl (List.mem_singleton.1 hc))
      · exact hname c hc
  rcases h with h | ⟨number, h⟩
  · rwa [h]
  · rw [h]
    exact isNameChar_candidate hinside number

/-- An object that is not the module has a qualified name of such characters. -/
theorem isNameChar_qualifiedName (h : extract file source = .ok m) (ho : o ∈ m.objects.toList)
    (hkind : o.kind ≠ .module) : ∀ c ∈ o.qualifiedName.toList, IsNameChar c := by
  have hnested := isNested_of_extract h
  obtain ⟨i, hi⟩ := List.getElem?_of_mem ho
  -- Parents come before their objects.
  induction i using Nat.strong_induction_on generalizing o with
  | _ i ih =>
    cases i with
    | zero =>
      obtain ⟨module, hmodule, hkind', -⟩ := hnested.module
      obtain rfl : o = module := Option.some.inj (hi.symm.trans hmodule)
      exact absurd hkind' hkind
    | succ i =>
      obtain ⟨p, owner, hp, howner, hnamed⟩ := areNamed_of_extract h i o hi
      obtain ⟨q, outer, hstands⟩ := hnested.inside i o hi
      obtain rfl : p = q := Option.some.inj (hp.symm.trans hstands.parent)
      exact hnamed.isNameChar (isWord_name h ho hkind) fun hkind' =>
        ih p hstands.lt (List.mem_of_getElem? howner) hkind' howner

end SourceCorpus.Extraction
