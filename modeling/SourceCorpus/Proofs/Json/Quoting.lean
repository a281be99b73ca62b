import Mathlib.Tactic.SplitIfs
import SourceCorpus.Json.Parser
import SourceCorpus.Json.Printer

/-!
String literals. What is written between quotes reads back as the same text, whatever the text.
-/

namespace SourceCorpus.Json

def pieceOf (c : Char) : Piece :=
  if c < ' ' ∧ c ∉ ['\n', '\r', '\t', '\x08', '\x0c'] then .unit c.toNat else .char c

theorem hexUnit?_hexDigits {n : Nat} (h : n < 32) :
    hexUnit? '0' '0' (hexDigit (n / 16)) (hexDigit (n % 16)) = some n := by
  have hall : ∀ n < 32, hexUnit? '0' '0' (hexDigit (n / 16)) (hexDigit (n % 16)) = some n := by
    decide
  exact hall n h

theorem toNat_lt_of_lt_space {c : Char} (h : c < ' ') : c.toNat < 32 := h

theorem readPieces_plain {c : Char} (hquote : c ≠ '"') (hslash : c ≠ '\\') (hspace : ¬c < ' ')
    (cs : List Char) :
    readPieces (c :: cs) = (readPieces cs).map fun (pieces, rest) => (.char c :: pieces, rest) := by
  cases h : readPieces cs <;> rw [readPieces.eq_def] <;> split <;> simp_all

theorem readPieces_unit {c : Char} (h : c < ' ') (cs : List Char) :
    readPieces ('\\' :: 'u' :: '0' :: '0' :: hexDigit (c.toNat / 16) :: hexDigit (c.toNat % 16) ::
      cs) = (readPieces cs).map fun (pieces, rest) => (.unit c.toNat :: pieces, rest) := by
  rw [readPieces, hexUnit?_hexDigits (toNat_lt_of_lt_space h)]
  cases readPieces cs <;> rfl

theorem readPieces_escape (c : Char) (cs : List Char) :
    readPieces (escape c ++ cs) =
      (readPieces cs).map fun (pieces, rest) => (pieceOf c :: pieces, rest) := by
  have special (c e : Char) (hu : e ≠ 'u') (he : unescape? e = some c) :
      readPieces ('\\' :: e :: cs) =
        (readPieces cs).map fun (pieces, rest) => (.char c :: pieces, rest) := by
    rw [readPieces]
    · rw [he]
      cases readPieces cs <;> rfl
    · simp [hu]
  unfold escape
  split_ifs with hquote hslash hn hr ht hb hf hspace
  · subst c; exact special _ _ (by decide) rfl
  · subst c; exact special _ _ (by decide) rfl
  · subst c; exact special _ _ (by decide) rfl
  · subst c; exact special _ _ (by decide) rfl
  · subst c; exact special _ _ (by decide) rfl
  · subst c; exact special _ _ (by decide) rfl
  · subst c; exact special _ _ (by decide) rfl
  · rw [pieceOf, if_pos ⟨hspace, by simp_all⟩]
    exact readPieces_unit hspace cs
  · rw [pieceOf, if_neg fun h => hspace h.1]
    exact readPieces_plain hquote hslash hspace cs

/-- A control character is no half of a pair, so it stands for itself before any piece. -/
theorem textOf?_unit {n : Nat} (h : n < 32) (pieces : List Piece) :
    textOf? (.unit n :: pieces) = (textOf? pieces).map (Char.ofNat n :: ·) := by
  have hhigh : ¬0xD800 ≤ n := by omega
  have hlow : ¬0xDC00 ≤ n := by omega
  rcases pieces with _ | ⟨c | low, pieces⟩ <;> simp [textOf?, hhigh, hlow]

theorem textOf?_pieceOf (c : Char) (pieces : List Piece) :
    textOf? (pieceOf c :: pieces) = (textOf? pieces).map (c :: ·) := by
  unfold pieceOf
  split_ifs with h
  · rw [textOf?_unit (toNat_lt_of_lt_space h.1), Char.ofNat_toNat]
  · rw [textOf?]

theorem readPieces_flatMap_escape (text rest : List Char) :
    readPieces (text.flatMap escape ++ '"' :: rest) = some (text.map pieceOf, rest) := by
  induction text with
  | nil => rfl
  | cons c text ih =>
    rw [List.flatMap_cons, List.append_assoc, readPieces_escape, ih]
    rfl

theorem textOf?_map_pieceOf (text : List Char) : textOf? (text.map pieceOf) = some text := by
  induction text with
  | nil => rfl
  | cons c text ih => rw [List.map_cons, textOf?_pieceOf, ih]; rfl

theorem quoted_append (text : String) (rest : List Char) :
    quoted text ++ rest = '"' :: (text.toList.flatMap escape ++ '"' :: rest) := by
  simp [quoted]

/-- A text between quotes is read back. -/
theorem readString?_quoted (text : String) (rest : List Char) :
    readString? (text.toList.flatMap escape ++ '"' :: rest) = some (.string text, rest) := by
  simp [readString?, readPieces_flatMap_escape, textOf?_map_pieceOf]

theorem readName?_quoted (name : String) (rest : List Char) :
    readName? (quoted name ++ ':' :: rest) = some (name, rest) := by
  rw [quoted_append]
  simp [readName?, skipSpace, isSpace, readPieces_flatMap_escape, textOf?_map_pieceOf]

end SourceCorpus.Json
