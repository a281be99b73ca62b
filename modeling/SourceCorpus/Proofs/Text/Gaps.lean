import SourceCorpus.Proofs.Text.Trimming

/-!
The gaps of a text, which are the blanks between its other characters. Main statements: a text is
known by its gaps and its other characters, and trimming empties the two gaps at its ends.
-/

namespace SourceCorpus.Text

/-- The blanks before each other character of the text, and behind the last one. -/
def gaps (cs : List Char) : List (List Char) := cs.splitOnP fun c => !isBlank c

def innerGaps (cs : List Char) : List (List Char) := (gaps cs).tail.dropLast

variable {c : Char} {cs cs' gap : List Char}

theorem isAllBlank_iff : isAllBlank cs ↔ ∀ c ∈ cs, isBlank c := List.all_eq_true

theorem isAllBlank_cons : isAllBlank (c :: cs) ↔ isBlank c ∧ isAllBlank cs := by
  rw [isAllBlank, List.all_cons, Bool.and_eq_true]
  rfl

theorem isAllBlank_append : isAllBlank (cs ++ cs') ↔ isAllBlank cs ∧ isAllBlank cs' := by
  rw [isAllBlank, List.all_append, Bool.and_eq_true]
  rfl

theorem isAllBlank_iff_compactChars : isAllBlank cs ↔ compactChars cs = [] := by
  rw [isAllBlank_iff, compactChars, List.filter_eq_nil_iff]
  exact forall₂_congr fun c _ => by rw [Bool.not_eq_true, Bool.not_eq_false']

theorem compactChars_append : compactChars (cs ++ cs') = compactChars cs ++ compactChars cs' :=
  List.filter_append ..

theorem compactChars_cons (h : isBlank c = false) (cs : List Char) :
    compactChars (c :: cs) = c :: compactChars cs :=
  List.filter_cons_of_pos (by rw [h, Bool.not_false])

theorem compactChars_of_isAllBlank (h : isAllBlank gap) : compactChars gap = [] :=
  isAllBlank_iff_compactChars.1 h

/-! ### Cutting a text at its gaps -/

theorem gaps_of_isAllBlank (h : isAllBlank gap) : gaps gap = [gap] :=
  List.splitOnP_eq_singleton fun c hc => by rw [isAllBlank_iff.1 h c hc, Bool.not_true]

theorem gaps_append_cons (h : isBlank c = false) (cs cs' : List Char) :
    gaps (cs ++ c :: cs') = gaps cs ++ gaps cs' :=
  List.splitOnP_append_cons cs cs' (by rw [h, Bool.not_false])

theorem gaps_nil : gaps [] = [[]] := rfl

theorem gaps_cons (h : isBlank c = false) (cs : List Char) : gaps (c :: cs) = [] :: gaps cs :=
  gaps_append_cons h [] cs

/-- A text is a gap, or a gap before a character and a shorter text. -/
theorem gapInduction {P : List Char → Prop} (ending : ∀ gap, isAllBlank gap → P gap)
    (step : ∀ gap c rest, isAllBlank gap → isBlank c = false → P rest → P (gap ++ c :: rest))
    (cs : List Char) : P cs := by
  have hgap : isAllBlank (cs.takeWhile isBlank) := List.all_takeWhile
  have hcut : cs.takeWhile isBlank ++ cs.dropWhile isBlank = cs := List.takeWhile_append_dropWhile
  cases hrest : cs.dropWhile isBlank with
  | nil =>
    rw [hrest, List.append_nil] at hcut
    exact hcut ▸ ending _ hgap
  | cons c rest =>
    have hc : isBlank c = false := by
      have hne : cs.dropWhile isBlank ≠ [] := hrest ▸ List.cons_ne_nil _ _
      simpa only [hrest, List.head_cons] using List.head_dropWhile_not isBlank hne
    have hshorter : rest.length < cs.length := by
      rw [← hcut, hrest, List.length_append, List.length_cons]
      omega
    rw [← hcut, hrest]
    exact step _ c rest hgap hc (gapInduction ending step rest)
termination_by cs.length

/-- Texts with the same gaps and the same characters between them are the same. -/
theorem eq_of_gaps_eq (hgaps : gaps cs = gaps cs') (hchars : compactChars cs = compactChars cs') :
    cs = cs' := by
  rw [← List.splitOnP_spec (p := fun c => !isBlank c) cs,
    ← List.splitOnP_spec (p := fun c => !isBlank c) cs']
  rw [gaps, gaps] at hgaps
  rw [compactChars, compactChars] at hchars
  rw [hgaps, hchars]

/-! ### Trimming -/

/-- Trimming takes away blanks only. -/
theorem exists_trimChars (cs : List Char) : ∃ before after, isAllBlank before ∧ isAllBlank after ∧
    cs = before ++ trimChars cs ++ after := by
  let rest := trimStartChars cs
  refine ⟨cs.takeWhile isBlank, rest.rtakeWhile isBlank, List.all_takeWhile, ?_, ?_⟩
  · exact isAllBlank_iff.2 fun c hc => List.mem_rtakeWhile_imp hc
  · have hend : trimChars cs ++ rest.rtakeWhile isBlank = rest := List.rdropWhile_append_rtakeWhile
    rw [List.append_assoc, hend]
    exact List.takeWhile_append_dropWhile.symm

theorem compactChars_trimChars (cs : List Char) : compactChars (trimChars cs) = compactChars cs := by
  obtain ⟨before, after, hbefore, hafter, hcs⟩ := exists_trimChars cs
  conv_rhs => rw [hcs]
  rw [compactChars_append, compactChars_append, compactChars_of_isAllBlank hbefore,
    compactChars_of_isAllBlank hafter, List.nil_append, List.append_nil]

theorem trimChars_eq_nil_iff : trimChars cs = [] ↔ isAllBlank cs := by
  constructor
  · intro h
    rw [isAllBlank_iff_compactChars, ← compactChars_trimChars, h]
    rfl
  · intro h
    rw [trimChars, trimStartChars, List.dropWhile_eq_nil_iff.2 (isAllBlank_iff.1 h)]
    rfl

theorem isTrimmed_trimChars_of_not_isAllBlank (h : isAllBlank cs = false) :
    IsTrimmed (trimChars cs) := by
  refine isTrimmed_trimChars fun hnil => ?_
  rw [trimChars_eq_nil_iff.1 hnil] at h
  cases h

theorem IsTrimmed.ne_nil (h : IsTrimmed cs) : cs ≠ [] := by
  rintro rfl
  obtain ⟨c, hc, -⟩ := h.head
  cases hc

/-- A text that is trimmed has its inner gaps between empty ones, and between blanks around it if it
has some. -/
theorem IsTrimmed.gaps_append {before after : List Char} (h : IsTrimmed cs)
    (hbefore : isAllBlank before) (hafter : isAllBlank after) :
    gaps (before ++ cs ++ after) = before :: (innerGaps cs ++ [after]) := by
  obtain ⟨first, hfirst, hfirstBlank⟩ := h.head
  obtain ⟨last, hlast, hlastBlank⟩ := h.last
  obtain ⟨rest, rfl⟩ := List.head?_eq_some_iff.1 hfirst
  rw [innerGaps, gaps_cons hfirstBlank, List.tail_cons, List.append_assoc, List.cons_append,
    gaps_append_cons hfirstBlank, gaps_of_isAllBlank hbefore, List.singleton_append,
    List.cons_inj_right]
  rcases List.eq_nil_or_concat rest with rfl | ⟨middle, d, rfl⟩
  · exact gaps_of_isAllBlank hafter
  · rw [List.concat_eq_append, ← List.cons_append, Option.mem_def, List.getLast?_concat] at hlast
    obtain rfl := Option.some.inj hlast
    rw [List.concat_eq_append, List.append_assoc, List.singleton_append, gaps_append_cons hlastBlank,
      gaps_append_cons hlastBlank, gaps_of_isAllBlank hafter, gaps_nil, List.dropLast_concat]

theorem IsTrimmed.gaps_eq (h : IsTrimmed cs) : gaps cs = [] :: (innerGaps cs ++ [[]]) := by
  have hnil : isAllBlank [] := rfl
  simpa using h.gaps_append hnil hnil

/-- Trimming leaves the gaps inside a text as they are. -/
theorem innerGaps_trimChars (h : isAllBlank cs = false) : innerGaps (trimChars cs) = innerGaps cs := by
  obtain ⟨before, after, hbefore, hafter, hcs⟩ := exists_trimChars cs
  have htrimmed : IsTrimmed (trimChars cs) := isTrimmed_trimChars_of_not_isAllBlank h
  conv_rhs => rw [hcs, innerGaps, htrimmed.gaps_append hbefore hafter]
  rw [List.tail_cons, List.dropLast_concat]

end SourceCorpus.Text
