import Mathlib.Data.List.Basic
import SourceCorpus.Text.Lines

/-!
Cutting a text at a character, and joining the pieces with it. Main statement: the two undo each
other.
-/

namespace SourceCorpus.Text

theorem splitChar_ne_nil (sep : Char) (cs : List Char) : splitChar sep cs ≠ [] := by
  cases cs with
  | nil => simp [splitChar]
  | cons c cs =>
    rw [splitChar]
    split
    · simp
    · split <;> simp

theorem splitChar_cons_ne {sep c : Char} (h : c ≠ sep) {cs piece : List Char}
    {pieces : List (List Char)} (hs : splitChar sep cs = piece :: pieces) :
    splitChar sep (c :: cs) = (c :: piece) :: pieces := by
  rw [splitChar, if_neg h, hs]

theorem joinWith_cons_cons (sep piece next : List Char) (pieces : List (List Char)) :
    joinWith sep (piece :: next :: pieces) = piece ++ sep ++ joinWith sep (next :: pieces) := by
  rw [joinWith]
  exact List.cons_ne_nil next pieces

theorem intercalate_eq_joinWith (sep : List Char) (pieces : List (List Char)) :
    sep.intercalate pieces = joinWith sep pieces := by
  induction pieces with
  | nil => rfl
  | cons piece pieces ih =>
    cases pieces with
    | nil => simp [joinWith]
    | cons next pieces => rw [List.intercalate_cons_cons, ih, joinWith_cons_cons]

theorem joinWith_splitChar (sep : Char) (cs : List Char) :
    joinWith [sep] (splitChar sep cs) = cs := by
  induction cs with
  | nil => rfl
  | cons c cs ih =>
    obtain ⟨piece, pieces, hs⟩ := List.exists_cons_of_ne_nil (splitChar_ne_nil sep cs)
    rw [hs] at ih
    by_cases hc : c = sep
    · subst hc
      rw [splitChar, if_pos rfl, hs, joinWith, ih]
      · rfl
      · simp
    · rw [splitChar_cons_ne hc hs]
      cases pieces with
      | nil => simpa [joinWith] using ih
      | cons next pieces => simpa [joinWith] using ih

theorem splitChar_injective (sep : Char) : Function.Injective (splitChar sep) := fun a b h => by
  rw [← joinWith_splitChar sep a, h, joinWith_splitChar]

theorem joinWith_append (sep : List Char) {first second : List (List Char)} (h : first ≠ [])
    (h' : second ≠ []) :
    joinWith sep (first ++ second) = joinWith sep first ++ sep ++ joinWith sep second := by
  induction first with
  | nil => exact absurd rfl h
  | cons piece first ih =>
    cases first with
    | nil =>
      obtain ⟨next, second, rfl⟩ := List.exists_cons_of_ne_nil h'
      rfl
    | cons next first =>
      have hrest := ih (List.cons_ne_nil next first)
      rw [List.cons_append] at hrest
      rw [List.cons_append, List.cons_append, joinWith_cons_cons, joinWith_cons_cons, hrest]
      simp only [List.append_assoc]

/-- What stands behind the last piece stands behind them all. -/
theorem joinWith_append_last (sep : List Char) (pieces : List (List Char)) (last cs : List Char) :
    joinWith sep (pieces ++ [last ++ cs]) = joinWith sep (pieces ++ [last]) ++ cs := by
  cases pieces with
  | nil => rfl
  | cons piece pieces =>
    have hne : piece :: pieces ≠ [] := List.cons_ne_nil _ _
    rw [joinWith_append sep hne (List.cons_ne_nil _ _), joinWith_append sep hne (List.cons_ne_nil _ _),
      joinWith, joinWith, List.append_assoc _ last]

theorem map_joinWith (f : Char → Char) (sep : List Char) (pieces : List (List Char)) :
    (joinWith sep pieces).map f = joinWith (sep.map f) (pieces.map (·.map f)) := by
  induction pieces with
  | nil => rfl
  | cons piece pieces ih =>
    cases pieces with
    | nil => rfl
    | cons next pieces =>
      rw [joinWith_cons_cons, List.map_append, List.map_append, ih]
      exact (joinWith_cons_cons ..).symm

/-- Pieces at the beginning of others come from the same text, or from one that the separator ends.
-/
theorem eq_or_prefix_of_splitChar_prefix {sep : Char} {cs cs' : List Char}
    (h : splitChar sep cs <+: splitChar sep cs') : cs = cs' ∨ cs ++ [sep] <+: cs' := by
  obtain ⟨rest, hrest⟩ := h
  cases rest with
  | nil => exact .inl (splitChar_injective sep ((List.append_nil _).symm.trans hrest))
  | cons piece rest =>
    refine .inr ⟨joinWith [sep] (piece :: rest), ?_⟩
    rw [← joinWith_splitChar sep cs', ← hrest,
      joinWith_append [sep] (splitChar_ne_nil sep cs) (List.cons_ne_nil piece rest),
      joinWith_splitChar]

/-- A beginning that ends in a separator ends before a text that holds none. -/
theorem prefix_of_prefix_append {sep : Char} {cs text ending : List Char} (h : sep ∉ ending)
    (hbegins : cs ++ [sep] <+: text ++ ending) : cs ++ [sep] <+: text := by
  obtain ⟨rest, hrest⟩ := hbegins
  rw [List.append_assoc] at hrest
  obtain ⟨middle, rfl, hmiddle⟩ | ⟨middle, -, hmiddle⟩ := List.append_eq_append_iff.1 hrest
  · cases middle with
    | nil =>
      obtain rfl : [sep] ++ rest = ending := hmiddle
      exact absurd List.mem_cons_self h
    | cons c middle =>
      obtain rfl : sep = c := List.head_eq_of_cons_eq hmiddle
      exact ⟨middle, by simp⟩
  · subst hmiddle
    exact absurd (List.mem_append_right _ List.mem_cons_self) h

/-- What stands before the first separator. -/
theorem takeWhile_ne_append_cons {sep : Char} {piece : List Char} (h : sep ∉ piece)
    (cs : List Char) : (piece ++ sep :: cs).takeWhile (· ≠ sep) = piece := by
  have hall : ∀ c ∈ piece, decide (c ≠ sep) = true := fun c hc =>
    decide_eq_true fun heq => h (heq ▸ hc)
  rw [List.takeWhile_append_of_pos hall, List.takeWhile_cons_of_neg (by simp), List.append_nil]

theorem splitChar_of_not_mem {sep : Char} {cs : List Char} (h : sep ∉ cs) :
    splitChar sep cs = [cs] := by
  induction cs with
  | nil => rfl
  | cons c cs ih =>
    rw [List.mem_cons, not_or] at h
    exact splitChar_cons_ne (Ne.symm h.1) (ih h.2)

theorem splitChar_append_cons {sep : Char} {piece : List Char} (h : sep ∉ piece) (cs : List Char) :
    splitChar sep (piece ++ sep :: cs) = piece :: splitChar sep cs := by
  induction piece with
  | nil => rw [List.nil_append, splitChar, if_pos rfl]
  | cons c piece ih =>
    rw [List.mem_cons, not_or] at h
    exact splitChar_cons_ne (Ne.symm h.1) (ih h.2)

/-- A text that holds no separator only makes the last piece longer. -/
theorem splitChar_append {sep : Char} {ending : List Char} (h : sep ∉ ending) (cs : List Char) :
    ∃ pieces last, splitChar sep cs = pieces ++ [last] ∧
      splitChar sep (cs ++ ending) = pieces ++ [last ++ ending] := by
  induction cs with
  | nil => exact ⟨[], [], rfl, splitChar_of_not_mem h⟩
  | cons c cs ih =>
    obtain ⟨pieces, last, hs, he⟩ := ih
    by_cases hc : c = sep
    · subst hc
      exact ⟨[] :: pieces, last, by simp [splitChar, hs], by simp [splitChar, he]⟩
    · cases pieces with
      | nil => exact ⟨[], c :: last, splitChar_cons_ne hc hs, splitChar_cons_ne hc he⟩
      | cons piece pieces =>
        exact ⟨(c :: piece) :: pieces, last, splitChar_cons_ne hc hs, splitChar_cons_ne hc he⟩

/-- Pieces that hold no separator are read back from the text that they are joined to. -/
theorem splitChar_joinWith {sep : Char} {pieces : List (List Char)} (hne : pieces ≠ [])
    (h : ∀ piece ∈ pieces, sep ∉ piece) : splitChar sep (joinWith [sep] pieces) = pieces := by
  induction pieces with
  | nil => exact absurd rfl hne
  | cons piece pieces ih =>
    rw [List.forall_mem_cons] at h
    cases pieces with
    | nil => exact splitChar_of_not_mem h.1
    | cons next pieces =>
      rw [joinWith_cons_cons, List.append_assoc, List.singleton_append, splitChar_append_cons h.1,
        ih (List.cons_ne_nil _ _) h.2]

theorem not_mem_of_mem_splitChar {sep : Char} {cs piece : List Char} (h : piece ∈ splitChar sep cs) :
    sep ∉ piece := by
  induction cs generalizing piece with
  | nil => exact List.mem_singleton.1 h ▸ List.not_mem_nil
  | cons c cs ih =>
    by_cases hc : c = sep
    · rw [splitChar, if_pos hc, List.mem_cons] at h
      rcases h with rfl | h
      · exact List.not_mem_nil
      · exact ih h
    · obtain ⟨first, pieces, hs⟩ := List.exists_cons_of_ne_nil (splitChar_ne_nil sep cs)
      rw [splitChar_cons_ne hc hs, List.mem_cons] at h
      rw [hs] at ih
      rcases h with rfl | h
      · exact List.not_mem_cons_of_ne_of_not_mem (Ne.symm hc) (ih List.mem_cons_self)
      · exact ih (List.mem_cons_of_mem first h)

theorem reverse_joinWith (sep : Char) (pieces : List (List Char)) :
    (joinWith [sep] pieces).reverse = joinWith [sep] (pieces.map List.reverse).reverse := by
  induction pieces with
  | nil => rfl
  | cons piece pieces ih =>
    cases pieces with
    | nil => rfl
    | cons next pieces =>
      rw [joinWith_cons_cons, List.append_assoc, List.reverse_append, List.reverse_append, ih,
        List.map_cons (a := piece), List.reverse_cons (a := piece.reverse),
        joinWith_append [sep] (by simp) (List.cons_ne_nil _ _)]
      rfl

theorem splitChar_reverse (sep : Char) (cs : List Char) :
    splitChar sep cs.reverse = ((splitChar sep cs).map List.reverse).reverse := by
  conv_lhs => rw [← joinWith_splitChar sep cs, reverse_joinWith]
  refine splitChar_joinWith (by simpa using splitChar_ne_nil sep cs) fun piece hpiece => ?_
  obtain ⟨other, hother, rfl⟩ := List.mem_map.1 (List.mem_reverse.1 hpiece)
  exact mt List.mem_reverse.1 (not_mem_of_mem_splitChar hother)

end SourceCorpus.Text
