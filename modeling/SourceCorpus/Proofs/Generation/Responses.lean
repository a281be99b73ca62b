import Mathlib.Data.List.Forall2
import SourceCorpus.Generation.Response
import SourceCorpus.Proofs.Text.Gaps
import SourceCorpus.Proofs.Text.Pieces

/-!
What cleaning leaves of a response. Main statement: a response is refused exactly if it is all blank,
and brought to a normal form otherwise: each gap keeps what stands before its first and behind its last
line break, has two line breaks instead of more, and is not changed by cleaning again.
-/

namespace SourceCorpus.Response

open Text

/-- A gap with two line breaks in place of all from the first to the last one. -/
def squeeze (gap : List Char) : List Char :=
  if gap.count '\n' ≤ 1 then gap
  else gap.takeWhile (· ≠ '\n') ++ '\n' :: '\n' :: gap.rtakeWhile (· ≠ '\n')

variable {gap before middle after rest cs : List Char} {n : Nat}

/-! ### Squeezing a gap -/

/-- A gap has no line break, or one, or a first and a last one. -/
theorem gap_cases (gap : List Char) : '\n' ∉ gap ∨
    (∃ before after, '\n' ∉ before ∧ '\n' ∉ after ∧ gap = before ++ '\n' :: after) ∨
    ∃ before middle after, '\n' ∉ before ∧ '\n' ∉ after ∧
      gap = before ++ '\n' :: (middle ++ '\n' :: after) := by
  by_cases hgap : '\n' ∈ gap
  · obtain ⟨before, rest, rfl, hbefore⟩ := List.eq_append_cons_of_mem hgap
    by_cases hrest : '\n' ∈ rest
    · obtain ⟨back, front, hback, hno⟩ := List.eq_append_cons_of_mem (List.mem_reverse.2 hrest)
      refine .inr (.inr ⟨before, front.reverse, back.reverse, hbefore, by simpa using hno, ?_⟩)
      rw [← List.reverse_reverse rest, hback]
      simp
    · exact .inr (.inl ⟨before, rest, hbefore, hrest, rfl⟩)
  · exact .inl hgap

theorem squeeze_of_count_le (h : gap.count '\n' ≤ 1) : squeeze gap = gap := if_pos h

theorem count_of_not_mem (hbefore : '\n' ∉ before) (hafter : '\n' ∉ after) (middle : List Char) :
    (before ++ middle ++ after).count '\n' = middle.count '\n' := by
  rw [List.count_append, List.count_append, List.count_eq_zero_of_not_mem hbefore,
    List.count_eq_zero_of_not_mem hafter, Nat.zero_add, Nat.add_zero]

theorem squeeze_of_not_mem (h : '\n' ∉ gap) : squeeze gap = gap :=
  squeeze_of_count_le (by rw [List.count_eq_zero_of_not_mem h]; exact Nat.zero_le 1)

theorem count_single (hbefore : '\n' ∉ before) (hafter : '\n' ∉ after) :
    (before ++ '\n' :: after).count '\n' = 1 := by
  rw [List.append_cons, count_of_not_mem hbefore hafter]
  rfl

theorem squeeze_single (hbefore : '\n' ∉ before) (hafter : '\n' ∉ after) :
    squeeze (before ++ '\n' :: after) = before ++ '\n' :: after :=
  squeeze_of_count_le (Nat.le_of_eq (count_single hbefore hafter))

theorem squeeze_cut (hbefore : '\n' ∉ before) (hafter : '\n' ∉ after) (middle : List Char) :
    squeeze (before ++ '\n' :: (middle ++ '\n' :: after)) = before ++ '\n' :: '\n' :: after := by
  have hcount : ¬(before ++ '\n' :: (middle ++ '\n' :: after)).count '\n' ≤ 1 := by
    simp only [List.count_append, List.count_cons_self]
    omega
  have hback : (before ++ '\n' :: (middle ++ '\n' :: after)).rtakeWhile (· ≠ '\n') = after := by
    have hreverse : (before ++ '\n' :: (middle ++ '\n' :: after)).reverse =
        after.reverse ++ '\n' :: (before ++ '\n' :: middle).reverse := by simp
    rw [List.rtakeWhile, hreverse, takeWhile_ne_append_cons (mt List.mem_reverse.1 hafter),
      List.reverse_reverse]
  rw [squeeze, if_neg hcount, takeWhile_ne_append_cons hbefore, hback]

theorem squeeze_squeeze (gap : List Char) : squeeze (squeeze gap) = squeeze gap := by
  obtain hnone | ⟨before, after, hbefore, hafter, rfl⟩ |
    ⟨before, middle, after, hbefore, hafter, rfl⟩ := gap_cases gap
  · rw [squeeze_of_not_mem hnone, squeeze_of_not_mem hnone]
  · rw [squeeze_single hbefore hafter, squeeze_single hbefore hafter]
  · rw [squeeze_cut hbefore hafter]
    exact squeeze_cut hbefore hafter []

/-- What is left of a gap has at most two line breaks, and nothing between two. -/
theorem narrow_squeeze (gap : List Char) : (squeeze gap).count '\n' ≤ 2 ∧
    ((squeeze gap).count '\n' = 2 → ['\n', '\n'] <:+: squeeze gap) := by
  by_cases hcount : gap.count '\n' ≤ 1
  · rw [squeeze_of_count_le hcount]
    exact ⟨by omega, fun h => by omega⟩
  · obtain hnone | ⟨before, after, hbefore, hafter, rfl⟩ |
      ⟨before, middle, after, hbefore, hafter, rfl⟩ := gap_cases gap
    · rw [List.count_eq_zero_of_not_mem hnone] at hcount
      exact absurd (Nat.zero_le 1) hcount
    · exact absurd (Nat.le_of_eq (count_single hbefore hafter)) hcount
    · rw [squeeze_cut hbefore hafter, List.append_cons, List.append_cons, List.append_assoc before,
        count_of_not_mem hbefore hafter]
      exact ⟨Nat.le_refl 2, fun _ => ⟨before, after, rfl⟩⟩

theorem isAllBlank_squeeze (h : isAllBlank gap) : isAllBlank (squeeze gap) := by
  obtain hnone | ⟨before, after, hbefore, hafter, rfl⟩ |
    ⟨before, middle, after, hbefore, hafter, rfl⟩ := gap_cases gap
  · rwa [squeeze_of_not_mem hnone]
  · rwa [squeeze_single hbefore hafter]
  · rw [squeeze_cut hbefore hafter]
    simp only [isAllBlank_append, isAllBlank_cons] at h ⊢
    exact ⟨h.1, h.2.1, h.2.1, h.2.2.2.2⟩

/-! ### Collapsing the gaps of a text -/

theorem lastBreak?_cons_of_not_isBlank {c : Char} (h : isBlank c = false) (cs : List Char) :
    lastBreak? (c :: cs) = none := by
  rw [lastBreak?, h, if_neg Bool.false_ne_true]

theorem lastBreak?_append_of_not_mem (hgap : isAllBlank gap) (hno : '\n' ∉ gap)
    (hrest : lastBreak? rest = none) : lastBreak? (gap ++ rest) = none := by
  induction gap with
  | nil => exact hrest
  | cons c gap ih =>
    rw [isAllBlank, List.all_cons, Bool.and_eq_true] at hgap
    rw [List.mem_cons, not_or] at hno
    rw [List.cons_append, lastBreak?, if_pos hgap.1, ih hgap.2 hno.2]
    exact if_neg (Ne.symm hno.1)

theorem lastBreak?_append (hgap : isAllBlank gap) (hrest : lastBreak? rest = some n) :
    lastBreak? (gap ++ rest) = some (gap.length + n) := by
  induction gap with
  | nil => rw [List.nil_append, hrest, List.length_nil, Nat.zero_add]
  | cons c gap ih =>
    rw [isAllBlank, List.all_cons, Bool.and_eq_true] at hgap
    rw [List.cons_append, lastBreak?, if_pos hgap.1, ih hgap.2, List.length_cons]
    exact congrArg some (by omega)

theorem collapseFrom_append (skipped : List Char) (c : Char) (cs : List Char) :
    collapseFrom (skipped.length + 1) (skipped ++ c :: cs) = collapse cs := by
  induction skipped with
  | nil => rfl
  | cons _ _ ih => exact ih

theorem collapse_append_of_not_mem (h : '\n' ∉ before) (rest : List Char) :
    collapse (before ++ rest) = before ++ collapse rest := by
  induction before with
  | nil => rfl
  | cons c before ih =>
    rw [List.mem_cons, not_or] at h
    rw [List.cons_append, collapse, collapseFrom, if_neg (Ne.symm h.1)]
    exact congrArg (c :: ·) (ih h.2)

theorem collapse_break_of_none (h : lastBreak? rest = none) :
    collapse ('\n' :: rest) = '\n' :: collapse rest := by
  rw [collapse, collapseFrom, if_pos rfl, h]
  rfl

theorem collapse_break_of_some (h : lastBreak? rest = some n) :
    collapse ('\n' :: rest) = '\n' :: '\n' :: collapseFrom n rest := by
  rw [collapse, collapseFrom, if_pos rfl, h]

/-- A gap is squeezed, whatever stands behind it. -/
theorem collapse_gap (hgap : isAllBlank gap) (hrest : lastBreak? rest = none) :
    collapse (gap ++ rest) = squeeze gap ++ collapse rest := by
  obtain hnone | ⟨before, after, hbefore, hafter, rfl⟩ |
    ⟨before, middle, after, hbefore, hafter, rfl⟩ := gap_cases gap
  · rw [squeeze_of_not_mem hnone, collapse_append_of_not_mem hnone]
  · simp only [isAllBlank_append, isAllBlank_cons] at hgap
    have hlast : lastBreak? (after ++ rest) = none :=
      lastBreak?_append_of_not_mem hgap.2.2 hafter hrest
    rw [squeeze_single hbefore hafter, List.append_assoc, List.append_assoc, List.cons_append,
      List.cons_append, collapse_append_of_not_mem hbefore, collapse_break_of_none hlast,
      collapse_append_of_not_mem hafter]
  · simp only [isAllBlank_append, isAllBlank_cons] at hgap
    obtain ⟨-, hbreak, hmiddle, -, hblank⟩ := hgap
    -- The search goes on to the last break, and what it passed is skipped.
    have hlast : lastBreak? ('\n' :: (after ++ rest)) = some 1 := by
      rw [lastBreak?, if_pos hbreak, lastBreak?_append_of_not_mem hblank hafter hrest]
      rfl
    have hfound : lastBreak? (middle ++ '\n' :: (after ++ rest)) = some (middle.length + 1) :=
      lastBreak?_append hmiddle hlast
    have hskip : collapseFrom (middle.length + 1) (middle ++ '\n' :: (after ++ rest)) =
        after ++ collapse rest := by
      rw [collapseFrom_append, collapse_append_of_not_mem hafter]
    rw [squeeze_cut hbefore hafter]
    simp only [List.append_assoc, List.cons_append]
    rw [collapse_append_of_not_mem hbefore, collapse_break_of_some hfound, hskip]

theorem collapse_cons_of_not_isBlank {c : Char} (h : isBlank c = false) (cs : List Char) :
    collapse (c :: cs) = c :: collapse cs := by
  have hno : '\n' ∉ [c] := fun hmem => by
    rw [← List.mem_singleton.1 hmem] at h
    exact absurd h (by decide)
  exact collapse_append_of_not_mem hno cs

theorem collapse_of_isAllBlank (h : isAllBlank gap) : collapse gap = squeeze gap := by
  have hnil : lastBreak? [] = none := rfl
  have hcollapse : collapse (gap ++ []) = squeeze gap ++ [] := collapse_gap h hnil
  rwa [List.append_nil, List.append_nil] at hcollapse

theorem collapse_gap_cons {c : Char} (hgap : isAllBlank gap) (hc : isBlank c = false)
    (cs : List Char) : collapse (gap ++ c :: cs) = squeeze gap ++ c :: collapse cs := by
  rw [collapse_gap hgap (lastBreak?_cons_of_not_isBlank hc cs), collapse_cons_of_not_isBlank hc]

/-- Every gap of a text is squeezed for itself. -/
theorem gaps_collapse (cs : List Char) : gaps (collapse cs) = (gaps cs).map squeeze := by
  induction cs using gapInduction with
  | ending gap hgap =>
    rw [collapse_of_isAllBlank hgap, gaps_of_isAllBlank (isAllBlank_squeeze hgap),
      gaps_of_isAllBlank hgap, List.map_singleton]
  | step gap c rest hgap hc ih =>
    rw [collapse_gap_cons hgap hc, gaps_append_cons hc, gaps_append_cons hc,
      gaps_of_isAllBlank (isAllBlank_squeeze hgap), gaps_of_isAllBlank hgap, ih, List.map_append,
      List.map_singleton]

theorem compactChars_collapse (cs : List Char) : compactChars (collapse cs) = compactChars cs := by
  induction cs using gapInduction with
  | ending gap hgap =>
    rw [collapse_of_isAllBlank hgap, compactChars_of_isAllBlank (isAllBlank_squeeze hgap),
      compactChars_of_isAllBlank hgap]
  | step gap c rest hgap hc ih =>
    rw [collapse_gap_cons hgap hc, compactChars_append, compactChars_append,
      compactChars_of_isAllBlank (isAllBlank_squeeze hgap), compactChars_of_isAllBlank hgap,
      compactChars_cons hc, compactChars_cons hc, ih]

theorem isAllBlank_collapse (cs : List Char) : isAllBlank (collapse cs) = isAllBlank cs := by
  rw [Bool.eq_iff_iff, isAllBlank_iff_compactChars, isAllBlank_iff_compactChars,
    compactChars_collapse]

theorem innerGaps_collapse (cs : List Char) :
    innerGaps (collapse cs) = (innerGaps cs).map squeeze := by
  rw [innerGaps, gaps_collapse, ← List.map_tail, ← List.map_dropLast, innerGaps]

/-- A text of which the gaps are squeezed already stays as it is. -/
theorem collapse_eq_self (h : ∀ gap ∈ gaps cs, squeeze gap = gap) : collapse cs = cs := by
  refine eq_of_gaps_eq ?_ (compactChars_collapse cs)
  rw [gaps_collapse, List.map_congr_left h, List.map_id']

/-! ### Cleaning -/

/-- The text as cleaning leaves it: as `squeeze` leaves each gap inside, and with no blanks around. -/
theorem gaps_cleaned (h : isAllBlank cs = false) :
    gaps (trimChars (collapse cs)) = [] :: ((innerGaps cs).map squeeze ++ [[]]) := by
  have hcollapse : isAllBlank (collapse cs) = false := by rw [isAllBlank_collapse, h]
  rw [(isTrimmed_trimChars_of_not_isAllBlank hcollapse).gaps_eq, innerGaps_trimChars hcollapse,
    innerGaps_collapse]

/-- The text is a normal form of the response. -/
structure IsNormalForm (response text : List Char) : Prop where
  trimmed : IsTrimmed text
  characters : compactChars text = compactChars response
  narrow : ∀ gap ∈ gaps text, gap.count '\n' ≤ 2 ∧ (gap.count '\n' = 2 → ['\n', '\n'] <:+: gap)
  kept : List.Forall₂ (fun gap gap' => gap.count '\n' ≤ 1 → gap' = gap) (innerGaps response)
    (innerGaps text)
  stable : clean (String.ofList text) = .ok (String.ofList text)

theorem isNormalForm (h : isAllBlank cs = false) : IsNormalForm cs (trimChars (collapse cs)) := by
  have hcollapse : isAllBlank (collapse cs) = false := by rw [isAllBlank_collapse, h]
  have htrimmed : IsTrimmed (trimChars (collapse cs)) :=
    isTrimmed_trimChars_of_not_isAllBlank hcollapse
  have hgaps : ∀ gap ∈ gaps (trimChars (collapse cs)), ∃ gap', squeeze gap' = gap := by
    intro gap hgap
    rw [gaps_cleaned h, List.mem_cons, List.mem_append, List.mem_singleton] at hgap
    rcases hgap with rfl | hgap | rfl
    · exact ⟨[], rfl⟩
    · obtain ⟨gap', -, hgap'⟩ := List.mem_map.1 hgap
      exact ⟨gap', hgap'⟩
    · exact ⟨[], rfl⟩
  refine ⟨htrimmed, ?_, ?_, ?_, ?_⟩
  · rw [compactChars_trimChars, compactChars_collapse]
  · intro gap hgap
    obtain ⟨gap', rfl⟩ := hgaps gap hgap
    exact narrow_squeeze gap'
  · rw [innerGaps_trimChars hcollapse, innerGaps_collapse, List.forall₂_map_right_iff]
    exact List.forall₂_same.2 fun gap _ => squeeze_of_count_le
  · have hcollapsed : collapse (trimChars (collapse cs)) = trimChars (collapse cs) := by
      refine collapse_eq_self fun gap hgap => ?_
      obtain ⟨gap', rfl⟩ := hgaps gap hgap
      exact squeeze_squeeze gap'
    rw [clean, String.toList_ofList, hcollapsed, htrimmed.trimChars_eq]
    exact if_neg htrimmed.ne_nil

/-- A response that is all blank is refused, and any other is brought to its normal form. -/
theorem clean_normalizes (response : String) :
    if isAllBlank response.toList then
      clean response = .error (.malformedOutput "empty response")
    else ∃ text, clean response = .ok text ∧ IsNormalForm response.toList text.toList := by
  cases hblank : isAllBlank response.toList with
  | true =>
    have hnil : trimChars (collapse response.toList) = [] := by
      rw [trimChars_eq_nil_iff, isAllBlank_collapse, hblank]
    rw [if_pos rfl, clean, hnil, if_pos rfl]
  | false =>
    have hform : IsNormalForm response.toList (trimChars (collapse response.toList)) :=
      isNormalForm hblank
    rw [if_neg Bool.false_ne_true]
    refine ⟨_, if_neg hform.trimmed.ne_nil, ?_⟩
    rwa [String.toList_ofList]

example : clean " \r\n\n" = .error (.malformedOutput "empty response") := by decide +kernel

example : clean "First.\n\n   \n\nSecond,\r\n \tthird. " =
    .ok "First.\n\nSecond,\r\n \tthird." := by decide +kernel

end SourceCorpus.Response
