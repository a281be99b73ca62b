import Mathlib.Data.List.DropRight
import SourceCorpus.Digest.Sha256
import SourceCorpus.Text.Blank

/-!
Trimming. Blanks behind a text are trimmed away with it, what was trimmed stays as it is, and a
fingerprint has nothing to trim.
-/

namespace SourceCorpus

namespace Text

theorem trimEndChars_append {c : Char} (h : isBlank c) (cs : List Char) :
    trimEndChars (cs ++ [c]) = trimEndChars cs := by
  simp [trimEndChars, h]

theorem trimChars_append {c : Char} (h : isBlank c) (cs : List Char) :
    trimChars (cs ++ [c]) = trimChars cs := by
  rw [trimChars, trimChars, trimStartChars, trimStartChars, List.dropWhile_append]
  split
  · next hempty =>
    rw [List.isEmpty_iff] at hempty
    simp [trimEndChars, hempty, h]
  · exact trimEndChars_append h _

theorem trim_lineFeed (s : String) : trim (s ++ "\n") = trim s := by
  rw [trim, trim, String.toList_append]
  exact congrArg String.ofList (trimChars_append (by decide) _)

theorem trim_eq_self {s : String} (h : ∀ c ∈ s.toList, isBlank c = false) : trim s = s := by
  have hstart : trimStartChars s.toList = s.toList := by
    cases hs : s.toList with
    | nil => rfl
    | cons c cs => simp [trimStartChars, h c (by simp [hs])]
  have hend : trimEndChars s.toList = s.toList := by
    rcases List.eq_nil_or_concat s.toList with hs | ⟨cs, c, hs⟩
    · rw [hs]; rfl
    · simp [hs, trimEndChars, h c (by simp [hs])]
  rw [trim, trimChars, hstart, hend, String.ofList_toList]

structure IsTrimmed (cs : List Char) : Prop where
  head : ∃ c ∈ cs.head?, isBlank c = false
  last : ∃ c ∈ cs.getLast?, isBlank c = false

theorem IsTrimmed.append {cs cs' : List Char} (h : IsTrimmed cs) (middle : List Char)
    (h' : IsTrimmed cs') : IsTrimmed (cs ++ middle ++ cs') := by
  obtain ⟨c, hc, hhead⟩ := h.head
  obtain ⟨c', hc', hlast⟩ := h'.last
  refine ⟨⟨c, ?_, hhead⟩, ⟨c', ?_, hlast⟩⟩
  · rw [Option.mem_def] at hc ⊢
    rw [List.append_assoc, List.head?_append, hc, Option.some_or]
  · rw [Option.mem_def] at hc' ⊢
    rw [List.getLast?_append, hc', Option.some_or]

theorem IsTrimmed.trimChars_eq {cs : List Char} (h : IsTrimmed cs) : trimChars cs = cs := by
  obtain ⟨c, hc, hhead⟩ := h.head
  obtain ⟨c', hc', hlast⟩ := h.last
  have hstart : trimStartChars cs = cs := by
    cases cs with
    | nil => cases hc
    | cons d ds =>
      obtain rfl := Option.some.inj hc
      rw [trimStartChars, List.dropWhile_cons_of_neg (by simp [hhead])]
  have hend : trimEndChars cs = cs := by
    refine List.rdropWhile_eq_self_iff.2 fun hne => ?_
    rw [List.getLast?_eq_some_getLast hne] at hc'
    obtain rfl := Option.some.inj hc'
    simp [hlast]
  rw [trimChars, hstart, hend]

/-- What is left of a text by trimming is trimmed. -/
theorem isTrimmed_trimChars {cs : List Char} (h : trimChars cs ≠ []) : IsTrimmed (trimChars cs) := by
  have hlast : ¬isBlank ((trimChars cs).getLast h) := List.rdropWhile_last_not _ _ h
  refine ⟨?_, ⟨_, List.getLast?_eq_some_getLast h, by simpa using hlast⟩⟩
  obtain ⟨rest, hrest⟩ : trimChars cs <+: trimStartChars cs := List.rdropWhile_prefix _ _
  have hstart : trimStartChars cs ≠ [] := by
    rintro hnil
    rw [hnil] at hrest
    exact h (List.append_eq_nil_iff.1 hrest).1
  have hhead : isBlank ((trimStartChars cs).head hstart) = false := List.head_dropWhile_not _ hstart
  refine ⟨_, ?_, hhead⟩
  rw [Option.mem_def, ← List.head?_eq_some_head hstart, ← hrest, List.head?_append_of_ne_nil _ h]

end Text

namespace Sha256

theorem isBlank_of_mem_hexOfByte {byte : UInt8} {c : Char} (h : c ∈ hexOfByte byte) :
    Text.isBlank c = false := by
  have hdigits : ∀ n < 16, Text.isBlank (hexDigits.getD n '0') = false := by decide
  have hbyte := byte.toNat_lt
  simp only [hexOfByte, List.mem_cons, List.not_mem_nil, or_false] at h
  obtain rfl | rfl := h
  · exact hdigits _ (by omega)
  · exact hdigits _ (by omega)

theorem trim_hex (text : String) : Text.trim (hex text) = hex text := by
  apply Text.trim_eq_self
  intro c hc
  simp only [hex, String.toList_ofList, List.mem_flatMap] at hc
  obtain ⟨byte, -, hmem⟩ := hc
  exact isBlank_of_mem_hexOfByte hmem

end Sha256

end SourceCorpus
