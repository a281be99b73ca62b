import Mathlib.Data.List.Forall2
import SourceCorpus.Proofs.Text.Gaps
import SourceCorpus.Proofs.Text.Pieces
import SourceCorpus.Text.Docstring

/-!
The margin of a docstring. Main statement: cleaning leaves the lines from the first to the last that
is not blank, without the blanks before the first line and without as many characters of every other
line as all of them have blanks before their text.
-/

namespace SourceCorpus

open Text

/-! ### Cuts that are given in bytes -/

namespace Text

variable {cs cs' : List Char}

theorem foldl_utf8Size (start : Nat) (cs : List Char) :
    cs.foldl (fun n c => n + c.utf8Size) start = start + byteLength cs := by
  induction cs generalizing start with
  | nil => rfl
  | cons c cs ih =>
    rw [List.foldl_cons, byteLength, List.foldl_cons, ih, ih, Nat.zero_add, Nat.add_assoc]

theorem byteLength_cons (c : Char) (cs : List Char) :
    byteLength (c :: cs) = c.utf8Size + byteLength cs := by
  rw [byteLength, List.foldl_cons, foldl_utf8Size, Nat.zero_add]

end Text

/-- A cut between two characters leaves what stands behind it. -/
theorem dropBytes?_byteLength (before after : List Char) :
    dropBytes? (byteLength before) (before ++ after) = some after := by
  induction before with
  | nil => cases after <;> rfl
  | cons c before ih =>
    have hpos : 0 < c.utf8Size := c.utf8Size_pos
    obtain ⟨n, hn⟩ : ∃ n, byteLength (c :: before) = n + 1 :=
      Nat.exists_eq_succ_of_ne_zero (by rw [byteLength_cons]; omega)
    have hrest : n + 1 - c.utf8Size = byteLength before := by
      rw [← hn, byteLength_cons, Nat.add_sub_cancel_left]
    rw [hn, List.cons_append, dropBytes?, if_pos (by rw [byteLength_cons] at hn; omega), hrest, ih]

namespace Docstring

variable {m : Nat} {line lost rest : List Char} {lines stripped : List (List Char)}

def lostChars (columns : Nat) (line : List Char) : List Char := (line.take columns).takeWhile isBlank

theorem charOffsets_elim (start columns : Nat) (line : List Char) :
    ((((charOffsets start line).take columns).find? fun at_ => !isBlank at_.2).or
      (charOffsets start line)[columns]?).elim (start + byteLength line) (·.1) =
      start + byteLength (lostChars columns line) := by
  induction line generalizing start columns with
  | nil => rw [charOffsets, List.take_nil, lostChars, List.take_nil]; rfl
  | cons c line ih =>
    cases columns with
    | zero => rfl
    | succ columns =>
      rw [charOffsets, List.take_succ_cons, List.find?_cons, List.getElem?_cons_succ, lostChars,
        List.take_succ_cons]
      dsimp only
      cases hc : isBlank c with
      | false =>
        rw [List.takeWhile_cons_of_neg (by rw [hc]; exact Bool.false_ne_true)]
        rfl
      | true =>
        rw [List.takeWhile_cons_of_pos hc, byteLength_cons, byteLength_cons, ← Nat.add_assoc,
          ← Nat.add_assoc]
        exact ih (start + c.utf8Size) columns

/-- A line is cut behind the blanks that it loses. -/
theorem stripOffset_eq (columns : Nat) (line : List Char) :
    stripOffset columns line = byteLength (lostChars columns line) := by
  have helim := charOffsets_elim 0 columns line
  rwa [Nat.zero_add, Nat.zero_add] at helim

/-- The cut is between two characters, so nothing is lost but the blanks. -/
theorem lostChars_append (columns : Nat) (line : List Char) :
    lostChars columns line ++ stripColumns columns line = line := by
  obtain ⟨rest, hrest⟩ : lostChars columns line <+: line :=
    (List.takeWhile_prefix _).trans (List.take_prefix _ _)
  have hdrop := dropBytes?_byteLength (lostChars columns line) rest
  rw [hrest] at hdrop
  rw [stripColumns, stripOffset_eq, hdrop]
  exact hrest

/-! ### Margins -/

/-- The least number of blanks before the text of a line that is not blank, if there is one. -/
structure IsCommonMargin (m : Nat) (lines : List (List Char)) : Prop where
  le_margin : ∀ line ∈ lines, isAllBlank line = false → m ≤ margin line
  exists_margin : (∃ line ∈ lines, isAllBlank line = false ∧ margin line = m) ∨
    (∀ line ∈ lines, isAllBlank line) ∧ m = 0

theorem isCommonMargin (lines : List (List Char)) : IsCommonMargin (commonMargin lines) lines := by
  rw [commonMargin]
  cases hmin : ((lines.filter fun line => !isAllBlank line).map margin).min? with
  | none =>
    rw [List.min?_eq_none_iff, List.map_eq_nil_iff, List.filter_eq_nil_iff] at hmin
    have hblank : ∀ line ∈ lines, isAllBlank line := fun line hline => by
      simpa using hmin line hline
    refine ⟨fun line hline htext => ?_, .inr ⟨hblank, rfl⟩⟩
    rw [hblank line hline] at htext
    cases htext
  | some m =>
    rw [List.min?_eq_some_iff] at hmin
    obtain ⟨hmem, hle⟩ := hmin
    refine ⟨fun line hline htext => hle _ (List.mem_map_of_mem (List.mem_filter.2 ⟨hline, ?_⟩)), ?_⟩
    · rw [htext, Bool.not_false]
    · obtain ⟨line, hline, hmargin⟩ := List.mem_map.1 hmem
      obtain ⟨hline, htext⟩ := List.mem_filter.1 hline
      exact .inl ⟨line, hline, by simpa using htext, hmargin⟩

/-- What a line loses: `m` blanks if there is text behind them, and at most `m` if not. The cut, which
is made at a byte, is behind the last byte of these blanks. -/
structure IsLost (m : Nat) (line lost : List Char) : Prop where
  blank : isAllBlank lost
  length_le : lost.length ≤ m
  length_eq : isAllBlank line = false → lost.length = m
  cut : stripOffset m line = byteLength lost

def LosesMargin (m : Nat) (line rest : List Char) : Prop :=
  ∃ lost, line = lost ++ rest ∧ IsLost m line lost

theorem isLost_lostChars (h : isAllBlank line = false → m ≤ margin line) :
    IsLost m line (lostChars m line) where
  blank := List.all_takeWhile
  length_le := ((List.takeWhile_prefix _).length_le).trans (List.length_take_le _ _)
  length_eq htext := by rw [lostChars, ← List.take_takeWhile, List.length_take_of_le (h htext)]
  cut := stripOffset_eq m line

/-- The first line has no blanks at its start any more, and the others have lost their margin. -/
inductive Unmargined (m : Nat) : List (List Char) → List (List Char) → Prop where
  | nil : Unmargined m [] []
  | cons {first : List Char} {rest rest' : List (List Char)}
      (h : List.Forall₂ (LosesMargin m) rest rest') :
    Unmargined m (first :: rest) (first.dropWhile isBlank :: rest')

theorem unmargined_spec (lines : List (List Char)) :
    Unmargined (commonMargin lines.tail) lines (unmargined lines) := by
  cases lines with
  | nil => exact .nil
  | cons first rest =>
    refine .cons (List.forall₂_map_right_iff.2 (List.forall₂_same.2 fun line hline => ?_))
    exact ⟨_, (lostChars_append _ line).symm,
      isLost_lostChars ((isCommonMargin rest).le_margin line hline)⟩

/-! ### Blank lines at the ends -/

/-- The lines in the middle are those from the first to the last that is not blank. -/
structure IsShown (before core after : List (List Char)) : Prop where
  before : ∀ line ∈ before, isAllBlank line
  after : ∀ line ∈ after, isAllBlank line
  head : ∀ line ∈ core.head?, isAllBlank line = false
  last : ∀ line ∈ core.getLast?, isAllBlank line = false

theorem exists_dropBlankEnds (lines : List (List Char)) : ∃ before after,
    lines = before ++ dropBlankEnds lines ++ after ∧ IsShown before (dropBlankEnds lines) after := by
  let kept := lines.rdropWhile isAllBlank
  have hkept : kept.takeWhile isAllBlank ++ dropBlankEnds lines = kept :=
    List.takeWhile_append_dropWhile
  refine ⟨kept.takeWhile isAllBlank, lines.rtakeWhile isAllBlank, ?_, ?_, ?_, ?_, ?_⟩
  · rw [hkept]
    exact List.rdropWhile_append_rtakeWhile.symm
  · exact fun line hline => List.mem_takeWhile_imp hline
  · exact fun line hline => List.mem_rtakeWhile_imp hline
  · intro line hline
    have hhead := List.head?_dropWhile_not isAllBlank kept
    rwa [show kept.dropWhile isAllBlank = dropBlankEnds lines from rfl, Option.mem_def.1 hline] at hhead
  · intro line hline
    have hne : kept ≠ [] := by
      intro hnil
      rw [hnil] at hkept
      rw [(List.append_eq_nil_iff.1 hkept).2] at hline
      cases hline
    have hlast : kept.getLast? = some line := by
      rw [← hkept, List.getLast?_append, Option.mem_def.1 hline, Option.some_or]
    rw [List.getLast?_eq_some_getLast hne] at hlast
    obtain rfl := Option.some.inj hlast
    simpa using List.rdropWhile_last_not _ _ hne

/-! ### Characters -/

theorem compactChars_joinWith (lines : List (List Char)) :
    compactChars (joinWith ['\n'] lines) = lines.flatMap compactChars := by
  induction lines with
  | nil => rfl
  | cons line lines ih =>
    cases lines with
    | nil => exact (List.flatMap_singleton compactChars line).symm
    | cons next lines =>
      have hbreak : compactChars ['\n'] = [] := rfl
      rw [joinWith_cons_cons, compactChars_append, compactChars_append, hbreak, List.append_nil, ih,
        ← List.flatMap_cons]

theorem compactChars_dropCarriageReturn (line : List Char) :
    compactChars (dropCarriageReturn line) = compactChars line := by
  rw [dropCarriageReturn]
  split
  next h =>
    obtain ⟨front, rfl⟩ := List.getLast?_eq_some_iff.1 h
    rw [List.dropLast_concat, compactChars_append]
    exact (List.append_nil _).symm
  next => rfl

/-- Cutting into lines leaves out line ends only. -/
theorem compactChars_lines (cs : List Char) :
    (Text.lines cs).flatMap compactChars = compactChars cs := by
  have hpieces (pieces : List (List Char)) :
      (linesOfPieces pieces).flatMap compactChars = pieces.flatMap compactChars := by
    fun_induction linesOfPieces pieces with
    | case1 => rfl
    | case2 last hempty => simp_all [compactChars]
    | case3 last hempty => rfl
    | case4 line rest hrest ih =>
      rw [List.flatMap_cons, List.flatMap_cons, compactChars_dropCarriageReturn, ih]
  rw [Text.lines, hpieces, ← compactChars_joinWith, joinWith_splitChar]

theorem compactChars_expandTabs (cs : List Char) :
    compactChars (expandTabs cs) = compactChars cs := by
  induction cs with
  | nil => rfl
  | cons c cs ih =>
    have hfirst : compactChars (if c = '\t' then List.replicate 8 ' ' else [c]) = compactChars [c] := by
      split
      next h => rw [h]; rfl
      next => rfl
    rw [expandTabs, List.flatMap_cons, compactChars_append, hfirst, ← expandTabs, ih,
      ← compactChars_append, List.singleton_append]

theorem LosesMargin.compactChars_eq (h : LosesMargin m line rest) :
    compactChars rest = compactChars line := by
  obtain ⟨lost, rfl, hlost⟩ := h
  rw [compactChars_append, compactChars_of_isAllBlank hlost.blank, List.nil_append]

theorem compactChars_dropWhile (line : List Char) :
    compactChars (line.dropWhile isBlank) = compactChars line := by
  have hblank : isAllBlank (line.takeWhile isBlank) := List.all_takeWhile
  conv_rhs => rw [← List.takeWhile_append_dropWhile (p := isBlank) (l := line)]
  rw [compactChars_append, compactChars_of_isAllBlank hblank, List.nil_append]

theorem Unmargined.flatMap_compactChars (h : Unmargined m lines stripped) :
    stripped.flatMap compactChars = lines.flatMap compactChars := by
  cases h with
  | nil => rfl
  | @cons first rest rest' h =>
    rw [List.flatMap_cons, List.flatMap_cons, compactChars_dropWhile]
    congr 1
    induction h with
    | nil => rfl
    | cons hline _ ih => rw [List.flatMap_cons, List.flatMap_cons, hline.compactChars_eq, ih]

theorem forall_isAllBlank_iff :
    (∀ line ∈ lines, isAllBlank line) ↔ lines.flatMap compactChars = [] := by
  rw [List.flatMap_eq_nil_iff]
  exact forall₂_congr fun line _ => isAllBlank_iff_compactChars

theorem IsShown.flatMap_compactChars {before core after : List (List Char)}
    (h : IsShown before core after) :
    (before ++ core ++ after).flatMap compactChars = core.flatMap compactChars := by
  rw [List.flatMap_append, List.flatMap_append, forall_isAllBlank_iff.1 h.before,
    forall_isAllBlank_iff.1 h.after, List.nil_append, List.append_nil]

/-- Of blank lines none is shown. -/
theorem IsShown.eq_nil {before core after : List (List Char)} (h : IsShown before core after)
    (hblank : ∀ line ∈ core, isAllBlank line) : core = [] := by
  cases core with
  | nil => rfl
  | cons line core =>
    have htext := h.head line rfl
    rw [hblank line List.mem_cons_self] at htext
    cases htext

/-- The text is the docstring without its margin, and with all its characters that are not blank. -/
structure RemovesMargin (raw text : List Char) : Prop where
  exists_lines : ∃ m stripped before core after, IsCommonMargin m (Text.lines (expandTabs raw)).tail ∧
    Unmargined m (Text.lines (expandTabs raw)) stripped ∧ stripped = before ++ core ++ after ∧
    IsShown before core after ∧ text = joinWith ['\n'] core
  eq_nil_iff : text = [] ↔ ∀ line ∈ Text.lines (expandTabs raw), isAllBlank line
  characters : compactChars text = compactChars raw

/-- Cleaning removes exactly the margin. -/
theorem clean_removesMargin (raw : String) : RemovesMargin raw.toList (clean raw).toList := by
  let all := Text.lines (expandTabs raw.toList)
  have hunmargined : Unmargined (commonMargin all.tail) all (unmargined all) := unmargined_spec all
  obtain ⟨before, after, hcut, hshown⟩ := exists_dropBlankEnds (unmargined all)
  have htext : (clean raw).toList = joinWith ['\n'] (dropBlankEnds (unmargined all)) :=
    String.toList_ofList
  have hcore : (dropBlankEnds (unmargined all)).flatMap compactChars = all.flatMap compactChars := by
    rw [← hunmargined.flatMap_compactChars, hcut, hshown.flatMap_compactChars, ← hcut]
  have hchars : compactChars (clean raw).toList = all.flatMap compactChars := by
    rw [htext, compactChars_joinWith, hcore]
  refine ⟨⟨_, _, before, _, after, isCommonMargin _, hunmargined, hcut, hshown, htext⟩, ?_, ?_⟩
  · rw [forall_isAllBlank_iff, ← hcore, ← forall_isAllBlank_iff]
    constructor
    · intro hnil
      rw [forall_isAllBlank_iff, hcore, ← hchars, hnil]
      rfl
    · intro hblank
      rw [htext, hshown.eq_nil hblank]
      rfl
  · rw [hchars, compactChars_lines, compactChars_expandTabs]

example : clean " Sum.\n\n \u3000 one\n   \u3000two\r\n   " = "Sum.\n\none\n\u3000two" := by
  decide +kernel

end Docstring

end SourceCorpus
