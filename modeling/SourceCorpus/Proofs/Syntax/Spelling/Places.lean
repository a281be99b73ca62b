import Mathlib.Data.List.TakeWhile
import SourceCorpus.Syntax.Builder

/-!
Places in a source and the text between them, and what a lookahead tells of the text of its token.
-/

namespace SourceCorpus.Syntax

def stretch (source : List Char) (i j : Nat) : List Char := (source.drop i).take (j - i)

structure IsWord (w : List Char) : Prop where
  ne_nil : w ≠ []
  continues : ∀ c ∈ w, Text.isIdentifierStart c ∨ Text.isIdentifierContinue c

theorem isWord_of_all {w : List Char} (h : w ≠ [])
    (hall : w.all fun c => Text.isIdentifierStart c || Text.isIdentifierContinue c) : IsWord w := by
  refine ⟨h, fun c hc => ?_⟩
  have hletter := List.all_eq_true.1 hall c hc
  rwa [Bool.or_eq_true] at hletter

theorem IsWord.not_mem {w : List Char} {c : Char} (h : IsWord w)
    (hc : ¬(Text.isIdentifierStart c ∨ Text.isIdentifierContinue c)) : c ∉ w :=
  fun hmem => hc (h.continues c hmem)

theorem not_mem_of_isWord {w : List Char} (h : IsWord w) : '.' ∉ w ∧ '#' ∉ w :=
  ⟨h.not_mem (by decide +kernel), h.not_mem (by decide +kernel)⟩

def Cursor.Of (source : List Char) (c : Cursor) : Prop :=
  c.rest = source.drop c.position.offset

variable {source : List Char} {c : Cursor} {i j k n : Nat}

theorem stretch_append (hij : i ≤ j) (hjk : j ≤ k) :
    stretch source i j ++ stretch source j k = stretch source i k := by
  have hdrop : source.drop j = (source.drop i).drop (j - i) := by
    rw [List.drop_drop, Nat.add_sub_cancel' hij]
  have hlength : k - i = (j - i) + (k - j) := by omega
  rw [stretch, stretch, stretch, hdrop, hlength, List.take_add]

theorem mem_stretch_of_le {a : Char} (hij : i ≤ j) (hjk : j ≤ k) {l : Nat} (hkl : k ≤ l)
    (h : a ∈ stretch source j k) : a ∈ stretch source i l := by
  rw [← stretch_append hij (Nat.le_trans hjk hkl), ← stretch_append hjk hkl]
  exact List.mem_append_right _ (List.mem_append_left _ h)

/-! ### Characters of identifiers -/

def blankCodes : List Nat :=
  [9, 10, 11, 12, 13, 0x20, 0x85, 0xA0, 0x1680, 0x2000, 0x2001, 0x2002, 0x2003, 0x2004, 0x2005,
    0x2006, 0x2007, 0x2008, 0x2009, 0x200A, 0x2028, 0x2029, 0x202F, 0x205F, 0x3000]

theorem mem_blankCodes {a : Char} (h : Text.isBlank a) : a.toNat ∈ blankCodes := by
  simp only [Text.isBlank, Bool.or_eq_true, Bool.and_eq_true, decide_eq_true_eq, beq_iff_eq] at h
  simp only [blankCodes, List.mem_cons, List.not_mem_nil, or_false]
  omega

theorem isBlank_eq_false_of_identifier {a : Char}
    (h : Text.isIdentifierStart a ∨ Text.isIdentifierContinue a) : Text.isBlank a = false := by
  -- There are so few blank characters that each is looked up in the tables of identifiers.
  have hcodes : ∀ n ∈ blankCodes, Text.isIdentifierStart (Char.ofNat n) = false ∧
      Text.isIdentifierContinue (Char.ofNat n) = false := by decide +kernel
  rw [Bool.eq_false_iff]
  intro hblank
  have hnone := hcodes a.toNat (mem_blankCodes hblank)
  rw [Char.ofNat_toNat] at hnone
  rw [hnone.1, hnone.2] at h
  exact h.elim Bool.false_ne_true Bool.false_ne_true

theorem IsWord.compactChars {w : List Char} (h : IsWord w) : Text.compactChars w = w := by
  refine List.filter_eq_self.2 fun a ha => ?_
  rw [isBlank_eq_false_of_identifier (h.continues a ha), Bool.not_false]

/-! ### Cursors -/

namespace Cursor

theorem rest_drop (n : Nat) (c : Cursor) : (c.drop n).rest = c.rest.drop n := by
  induction n generalizing c with
  | zero => rfl
  | succ n ih =>
    obtain ⟨rest, position⟩ := c
    cases rest with
    | nil => rfl
    | cons a rest => exact ih ⟨rest, position.step a⟩

theorem offset_step (p : Position) (a : Char) : (p.step a).offset = p.offset + 1 := by
  unfold Position.step
  split <;> rfl

theorem offset_drop (n : Nat) (c : Cursor) :
    (c.drop n).position.offset = c.position.offset + min n c.rest.length := by
  induction n generalizing c with
  | zero => rw [Nat.zero_min]; rfl
  | succ n ih =>
    obtain ⟨rest, position⟩ := c
    cases rest with
    | nil => rfl
    | cons a rest =>
      change (Cursor.drop n ⟨rest, position.step a⟩).position.offset = _
      rw [ih, offset_step, List.length_cons, Nat.add_assoc, Nat.succ_min_succ, Nat.add_comm 1]

theorem offset_le_offset_drop (n : Nat) (c : Cursor) :
    c.position.offset ≤ (c.drop n).position.offset := by
  rw [offset_drop]
  exact Nat.le_add_right _ _

theorem Of.drop (h : c.Of source) (n : Nat) : (c.drop n).Of source := by
  rw [Of, rest_drop, offset_drop, ← List.drop_drop, ← h]
  rcases Nat.le_total n c.rest.length with hn | hn
  · rw [Nat.min_eq_left hn]
  · rw [Nat.min_eq_right hn, List.drop_length, List.drop_eq_nil_of_le hn]

/-- The text that a cursor moves over. -/
theorem Of.stretch_drop (h : c.Of source) (n : Nat) :
    stretch source c.position.offset (c.drop n).position.offset = c.rest.take n := by
  rw [stretch, ← h, offset_drop, Nat.add_sub_cancel_left]
  rcases Nat.le_total n c.rest.length with hn | hn
  · rw [Nat.min_eq_left hn]
  · rw [Nat.min_eq_right hn, List.take_length, List.take_of_length_le hn]

theorem Of.dropWhile (h : c.Of source) (p : Char → Bool) : (c.dropWhile p).Of source := h.drop _

theorem of_ofSource (source : List Char) : (Cursor.ofSource source).Of source := rfl

end Cursor

/-! ### Tokens -/

/-- The lookahead stands in the source, and its token is what is written there. -/
structure Lookahead.Fits (source : List Char) (l : Lookahead) : Prop where
  before : l.before.Of source
  after : l.after.Of source
  le : l.before.position.offset ≤ l.after.position.offset
  word : ∀ keyword, l.token = .word keyword →
    IsWord (stretch source l.before.position.offset l.after.position.offset)
  dot : l.token = .sign .dot →
    stretch source l.before.position.offset l.after.position.offset = ['.']

theorem Token.isWord_of_read {cs : List Char} {keyword : Option Keyword}
    (h : Token.read cs = (.word keyword, n)) : IsWord (cs.take n) := by
  unfold Token.read at h
  split at h
  · cases h
  next a rest =>
    dsimp only at h
    split at h
    next hstart =>
      cases h
      rw [Nat.add_comm, List.take_succ_cons,
        ← List.prefix_iff_eq_take.1 (List.takeWhile_prefix Text.isIdentifierContinue)]
      refine ⟨List.cons_ne_nil _ _, fun b hb => ?_⟩
      rcases List.mem_cons.1 hb with rfl | hb
      · exact .inl hstart
      · exact .inr (List.mem_takeWhile_imp hb)
    next =>
      split at h
      · split at h <;> cases h
      · split at h <;> cases h

theorem Sign.eq_dot_of_read {cs : List Char} (h : Sign.read? cs = some (.dot, n)) :
    cs.take n = ['.'] := by
  obtain ⟨⟨spelling, sign⟩, hfind, hentry⟩ := Option.map_eq_some_iff.1 h
  obtain ⟨rfl, rfl⟩ : sign = .dot ∧ spelling.length = n := Prod.ext_iff.1 hentry
  have hspelling : spelling = ['.'] := by
    have hall : ∀ entry ∈ Sign.spellings, entry.2 = .dot → entry.1 = ['.'] := by decide
    exact hall _ (List.mem_of_find?_eq_some hfind) rfl
  subst hspelling
  have hstarts : ['.'].isPrefixOf cs := List.find?_some (p := fun (entry : List Char × Sign) =>
    entry.1.isPrefixOf cs) hfind
  rw [List.isPrefixOf_iff_prefix] at hstarts
  exact (List.prefix_iff_eq_take.1 hstarts).symm

theorem Token.eq_dot_of_read {cs : List Char} (h : Token.read cs = (.sign .dot, n)) :
    cs.take n = ['.'] := by
  unfold Token.read at h
  split at h
  · cases h
  · dsimp only at h
    split at h
    · cases h
    · split at h
      · split at h <;> cases h
      · split at h
        next hsign =>
          cases h
          exact Sign.eq_dot_of_read hsign
        · cases h

namespace Lookahead

/-- A token that is read where the cursor stands. -/
theorem fits_read {before : Cursor} (h : before.Of source) {token : Token}
    (hread : Token.read before.rest = (token, n)) :
    Fits source ⟨token, before, before.drop n⟩ := by
  refine ⟨h, h.drop n, Cursor.offset_le_offset_drop n before, ?_, ?_⟩
  · rintro keyword rfl
    rw [h.stretch_drop]
    exact Token.isWord_of_read hread
  · rintro rfl
    rw [h.stretch_drop]
    exact Token.eq_dot_of_read hread

/-- A token that is neither a word nor a sign. -/
theorem fits_other {token : Token} {before : Cursor} (h : before.Of source) (n : Nat)
    (hword : ∀ keyword, token ≠ .word keyword) (hdot : token ≠ .sign .dot) :
    Fits source ⟨token, before, before.drop n⟩ :=
  ⟨h, h.drop n, Cursor.offset_le_offset_drop n before, fun keyword hkeyword =>
    absurd hkeyword (hword keyword), fun h => absurd h hdot⟩

end Lookahead

end SourceCorpus.Syntax
