import Mathlib.Data.String.Basic
import SourceCorpus.Text.Sorted
import SourceCorpus.Text.Utf8

/-!
Texts in the order of their bytes. Main statements: comparing texts by their characters is comparing
them by their bytes, and names that are put in order come out in that order with none of them twice.
-/

namespace SourceCorpus

namespace Utf8

/-- Of two characters, the bytes of the greater one are greater where they first differ, whatever
stands behind them. -/
theorem encodeChar_append_lt {c d : Char} (h : c < d) (bytes bytes' : List UInt8) :
    String.utf8EncodeChar c ++ bytes < String.utf8EncodeChar d ++ bytes' := by
  have hlt : c.val.toNat < d.val.toNat := h
  have hd : d.val.toNat < 0x110000 := by
    have := d.valid
    unfold UInt32.isValidChar Nat.isValidChar at this
    omega
  have hcons {a b : UInt8} {s t : List UInt8} :
      a :: s < b :: t ↔ a.toNat < b.toNat ∨ a.toNat = b.toNat ∧ s < t := by
    rw [List.cons_lt_cons_iff, UInt8.lt_iff_toNat_lt, UInt8.toNat_inj]
  have hlater (n : ℕ) : (n % 64 + 128) % 2 ^ 8 = n % 64 + 128 := by omega
  have htwo (n : ℕ) : (n % 32 + 192) % 2 ^ 8 = n % 32 + 192 := by omega
  have hthree (n : ℕ) : (n % 16 + 224) % 2 ^ 8 = n % 16 + 224 := by omega
  have hfour (n : ℕ) : (n % 8 + 240) % 2 ^ 8 = n % 8 + 240 := by omega
  have hsecond (n : ℕ) : n / 4096 = n / 64 / 64 := by omega
  have hthird (n : ℕ) : n / 262144 = n / 64 / 64 / 64 := by omega
  unfold String.utf8EncodeChar
  dsimp only
  -- Characters with the same number of bytes differ in one of their digits to the base 64; a
  -- character with more bytes has the greater first byte.
  split_ifs <;> simp only [List.cons_append, List.nil_append, hcons, UInt8.toNat_ofNat', hlater,
    htwo, hthree, hfour, hsecond, hthird] <;> omega

theorem encode_lt_of_lt {cs ds : List Char} (h : cs < ds) : encode cs < encode ds := by
  induction cs generalizing ds with
  | nil =>
    cases ds with
    | nil => exact absurd h (List.lt_irrefl _)
    | cons d ds =>
      have hne : encode (d :: ds) ≠ [] := by
        simp [encode, List.flatMap_cons, String.utf8EncodeChar_ne_nil]
      obtain ⟨byte, bytes, hbytes⟩ := List.exists_cons_of_ne_nil hne
      rw [hbytes]
      exact List.nil_lt_cons byte bytes
  | cons c cs ih =>
    cases ds with
    | nil => exact absurd h (List.not_lt_nil _)
    | cons d ds =>
      change String.utf8EncodeChar c ++ encode cs < String.utf8EncodeChar d ++ encode ds
      rcases List.cons_lt_cons_iff.1 h with hlt | ⟨rfl, hrest⟩
      · exact encodeChar_append_lt hlt _ _
      · exact List.append_left_lt (ih hrest)

end Utf8

namespace Text

def BytesBefore (a b : String) : Prop := Utf8.encode a.toList < Utf8.encode b.toList

theorem bytesBefore_iff_lt {a b : String} : BytesBefore a b ↔ a < b := by
  constructor
  · intro h
    rcases lt_trichotomy a b with hlt | rfl | hgt
    · exact hlt
    · exact absurd h (List.lt_irrefl _)
    · exact absurd (List.lt_trans h (Utf8.encode_lt_of_lt (String.lt_iff_toList_lt.1 hgt)))
        (List.lt_irrefl _)
  · intro h
    exact Utf8.encode_lt_of_lt (String.lt_iff_toList_lt.1 h)

def IsIncreasing (names : List String) : Prop := names.Pairwise BytesBefore

theorem isIncreasing_insertName {names : List String} (h : IsIncreasing names) (name : String) :
    IsIncreasing (insertName name names) := by
  induction names with
  | nil => exact List.pairwise_singleton _ _
  | cons n names ih =>
    obtain ⟨hfirst, hrest⟩ := List.pairwise_cons.1 h
    unfold insertName
    split_ifs with hlt heq
    · refine List.pairwise_cons.2 ⟨fun other hother => ?_, h⟩
      rw [bytesBefore_iff_lt]
      rcases List.mem_cons.1 hother with rfl | hmem
      · exact hlt
      · exact hlt.trans (bytesBefore_iff_lt.1 (hfirst other hmem))
    · exact h
    · refine List.pairwise_cons.2 ⟨fun other hother => ?_, ih hrest⟩
      rcases mem_insertName.1 hother with rfl | hmem
      · rw [bytesBefore_iff_lt]
        exact lt_of_le_of_ne (not_lt.1 hlt) (Ne.symm heq)
      · exact hfirst other hmem

theorem isIncreasing_sortedNames (names : List String) : IsIncreasing (sortedNames names) := by
  induction names with
  | nil => exact List.Pairwise.nil
  | cons name names ih => exact isIncreasing_insertName ih name

end Text

end SourceCorpus
