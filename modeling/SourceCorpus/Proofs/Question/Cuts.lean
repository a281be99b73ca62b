import Mathlib.Data.List.Infix
import SourceCorpus.Proofs.Question.Templates

/-!
Cutting a text at its placeholders. Main statements: every text can be cut at all occurrences of some
placeholders in one way, and as these do not overlap, as many are cut as there are places at which one
begins.
-/

namespace SourceCorpus

namespace Text

def occurrences (pattern cs : List Char) : Nat := cs.tails.countP fun rest => pattern.isPrefixOf rest

theorem occurrences_cons (pattern : List Char) (c : Char) (cs : List Char) :
    occurrences pattern (c :: cs) =
      occurrences pattern cs + if pattern <+: c :: cs then 1 else 0 := by
  simp only [occurrences, List.tails_cons, List.countP_cons, List.isPrefixOf_iff_prefix]

theorem occurrences_pos_iff {pattern cs : List Char} :
    0 < occurrences pattern cs ↔ pattern <:+: cs := by
  simp only [occurrences, List.countP_pos_iff, List.mem_tails, List.isPrefixOf_iff_prefix,
    List.infix_iff_prefix_suffix, and_comm]

theorem occurrences_eq_zero {pattern cs : List Char} (h : ¬pattern <:+: cs) :
    occurrences pattern cs = 0 :=
  Nat.eq_zero_of_not_pos fun hpos => h (occurrences_pos_iff.1 hpos)

end Text

open Text

/-! ### Occurrences of placeholders -/

section Marks

variable {mark other : String} {c : Char} {cs : List Char}

theorem IsMark.eq_cons (h : IsMark mark) : ∃ name, mark.toList = '{' :: name ∧ '{' ∉ name := by
  obtain ⟨hmark, hopen, -⟩ := h
  generalize mark.toList.tail.dropLast = name at hmark hopen
  exact ⟨name ++ ['}'], hmark, by simpa using hopen⟩

/-- A placeholder does not reach into the next one. -/
theorem IsMark.prefix_of_append (h : IsMark mark) (hother : IsMark other) {rest : List Char}
    (hfront : mark.toList <+: c :: (cs ++ (other.toList ++ rest))) : mark.toList <+: c :: cs := by
  obtain ⟨name, hmark, hopen⟩ := h.eq_cons
  obtain ⟨name', hmark', -⟩ := hother.eq_cons
  rw [hmark, List.cons_prefix_cons] at hfront ⊢
  refine ⟨hfront.1, ?_⟩
  rcases Nat.lt_or_ge cs.length name.length with hlt | hle
  · have hstart : cs ++ ['{'] <+: cs ++ (other.toList ++ rest) := by simp [hmark']
    have hsub : cs ++ ['{'] <+: name :=
      List.prefix_of_prefix_length_le hstart hfront.2 (by simpa using Nat.succ_le_of_lt hlt)
    exact absurd (hsub.subset (by simp)) hopen
  · exact List.prefix_of_prefix_length_le hfront.2 (List.prefix_append cs _) hle

theorem IsMark.occurrences_append (h : IsMark mark) (hcs : '{' ∉ cs) (rest : List Char) :
    occurrences mark.toList (cs ++ rest) = occurrences mark.toList rest := by
  obtain ⟨name, hmark, -⟩ := h.eq_cons
  induction cs with
  | nil => rfl
  | cons c cs ih =>
    rw [List.mem_cons, not_or] at hcs
    have hno : ¬mark.toList <+: c :: (cs ++ rest) := by
      rw [hmark, List.cons_prefix_cons]
      exact fun hfront => hcs.1 hfront.1
    rw [List.cons_append, occurrences_cons, if_neg hno, ih hcs.2, Nat.add_zero]

theorem IsMark.occurrences_mark (h : IsMark mark) (hother : IsMark other) (rest : List Char) :
    occurrences mark.toList (other.toList ++ rest) =
      occurrences mark.toList rest + if other = mark then 1 else 0 := by
  have hbegins : mark.toList <+: other.toList ++ rest ↔ other = mark := by
    refine ⟨fun hfront => Decidable.not_not.1 fun hne => h.not_prefix hother hne hfront, ?_⟩
    rintro rfl
    exact List.prefix_append _ _
  obtain ⟨name, hmark, hopen⟩ := hother.eq_cons
  rw [hmark, List.cons_append] at hbegins ⊢
  simp only [occurrences_cons, hbegins, h.occurrences_append hopen]

/-- Before a placeholder, the occurrences are those in the text up to it. -/
theorem IsMark.occurrences_append_mark (h : IsMark mark) (hother : IsMark other)
    (cs rest : List Char) :
    occurrences mark.toList (cs ++ (other.toList ++ rest)) =
      occurrences mark.toList cs + occurrences mark.toList (other.toList ++ rest) := by
  induction cs with
  | nil =>
    have hnone : occurrences mark.toList [] = 0 := occurrences_eq_zero (by simpa using h.ne_nil)
    rw [hnone, Nat.zero_add, List.nil_append]
  | cons c cs ih =>
    have hbegins : mark.toList <+: c :: (cs ++ (other.toList ++ rest)) ↔ mark.toList <+: c :: cs :=
      ⟨h.prefix_of_append hother, fun hfront => hfront.trans (List.prefix_append (c :: cs) _)⟩
    simp only [List.cons_append, occurrences_cons, hbegins, ih]
    omega

end Marks

/-! ### Cuts -/

namespace Template

@[simp]
theorem written_ending (text : String) : (ending text).written = text.toList := rfl

@[simp]
theorem written_slot (before mark : String) (rest : Template) :
    (slot before mark rest).written = before.toList ++ (mark.toList ++ rest.written) := rfl

def pieces : Template → List String
  | ending text => [text]
  | slot before _ rest => before :: rest.pieces

/-- The template is the text, cut at all occurrences of the marks. -/
structure Cuts (marks : List String) (cs : List Char) (t : Template) : Prop where
  written : t.written = cs
  cut : ∀ mark ∈ t.marks, mark ∈ marks
  free : ∀ piece ∈ t.pieces, ∀ mark ∈ marks, ¬mark.toList <:+: piece.toList

instance (marks : List String) (cs : List Char) (t : Template) : Decidable (t.Cuts marks cs) :=
  decidable_of_iff (t.written = cs ∧ (∀ mark ∈ t.marks, mark ∈ marks) ∧
      ∀ piece ∈ t.pieces, ∀ mark ∈ marks, ¬mark.toList <:+: piece.toList)
    ⟨fun h => ⟨h.1, h.2.1, h.2.2⟩, fun h => ⟨h.written, h.cut, h.free⟩⟩

def prepend (c : Char) : Template → Template
  | ending text => ending (String.ofList (c :: text.toList))
  | slot before mark rest => slot (String.ofList (c :: before.toList)) mark rest

variable {marks : List String} {mark : String} {t : Template} {c : Char} {cs : List Char}

theorem Cuts.prepend (h : t.Cuts marks cs) (hno : ∀ mark ∈ marks, ¬mark.toList <+: c :: cs) :
    (t.prepend c).Cuts marks (c :: cs) := by
  -- An occurrence that begins with the new character would be one in the text.
  have hpiece {piece : String} (hpiece : piece.toList <+: cs)
      (hfree : ∀ mark ∈ marks, ¬mark.toList <:+: piece.toList) :
      ∀ mark ∈ marks, ¬mark.toList <:+: (String.ofList (c :: piece.toList)).toList := by
    intro mark hmark hoccurs
    rw [String.toList_ofList, List.infix_cons_iff] at hoccurs
    refine hoccurs.elim (fun hfront => hno mark hmark (hfront.trans ?_)) (hfree mark hmark)
    exact List.cons_prefix_cons.2 ⟨rfl, hpiece⟩
  obtain ⟨hwritten, hmarks, hpieces⟩ := h
  cases t with
  | ending text =>
    refine ⟨?_, hmarks, List.forall_mem_singleton.2 (hpiece ?_ (hpieces text (.head _)))⟩
    · rw [Template.prepend, written_ending, String.toList_ofList, ← hwritten, written_ending]
    · exact hwritten ▸ List.prefix_refl _
  | slot before mark rest =>
    rw [Template.pieces, List.forall_mem_cons] at hpieces
    refine ⟨?_, hmarks, List.forall_mem_cons.2 ⟨hpiece ?_ hpieces.1, hpieces.2⟩⟩
    · rw [Template.prepend, written_slot, String.toList_ofList, ← hwritten, written_slot]
      rfl
    · exact hwritten ▸ List.prefix_append _ _

theorem exists_cuts (hmarks : ∀ mark ∈ marks, IsMark mark) (cs : List Char) :
    ∃ t : Template, t.Cuts marks cs := by
  induction hlength : cs.length using Nat.strongRecOn generalizing cs with
  | ind n ih =>
    by_cases hfound : ∃ mark ∈ marks, mark.toList <+: cs
    · obtain ⟨mark, hmark, rest, rfl⟩ := hfound
      have hne : 0 < mark.toList.length := List.length_pos_iff.2 (hmarks mark hmark).ne_nil
      obtain ⟨t, hwritten, htmarks, hpieces⟩ := ih rest.length (by simp at hlength; omega) rest rfl
      refine ⟨slot "" mark t, ?_, List.forall_mem_cons.2 ⟨hmark, htmarks⟩,
        List.forall_mem_cons.2 ⟨fun other hother => ?_, hpieces⟩⟩
      · rw [← hwritten]
        rfl
      · simpa using (hmarks other hother).ne_nil
    · rw [not_exists] at hfound
      cases cs with
      | nil =>
        refine ⟨ending "", rfl, fun _ => (nomatch ·), List.forall_mem_singleton.2 fun mark hmark => ?_⟩
        simpa using (hmarks mark hmark).ne_nil
      | cons c cs =>
        obtain ⟨t, ht⟩ := ih cs.length (by simp at hlength; omega) cs rfl
        exact ⟨t.prepend c, ht.prepend fun mark hmark hfront => hfound mark ⟨hmark, hfront⟩⟩

/-- The first cut is at the first occurrence: no placeholder begins in what stands before it. -/
theorem eq_nil_of_append {other : String} (hmarks : ∀ mark ∈ marks, IsMark mark)
    (hmark : mark ∈ marks) (hother : other ∈ marks) {before more rest rest' : List Char}
    (hfree : ¬mark.toList <:+: before ++ more)
    (h : mark.toList ++ rest = more ++ (other.toList ++ rest')) : more = [] := by
  cases more with
  | nil => rfl
  | cons c more =>
    have hfront : mark.toList <+: c :: (more ++ (other.toList ++ rest')) := ⟨rest, h⟩
    have hin := (hmarks mark hmark).prefix_of_append (hmarks other hother) hfront
    exact absurd (hin.isInfix.trans (List.suffix_append before _).isInfix) hfree

/-- There is one way to cut a text. -/
theorem Cuts.unique (hmarks : ∀ mark ∈ marks, IsMark mark) {t' : Template} (h : t.Cuts marks cs)
    (h' : t'.Cuts marks cs) : t = t' := by
  obtain ⟨rfl, htmarks, hpieces⟩ := h
  obtain ⟨hsame, htmarks', hpieces'⟩ := h'
  -- A cut that has a mark where the other has none would leave that mark in a free piece.
  induction t generalizing t' with
  | ending text =>
    cases t' with
    | ending text' => rw [String.toList_inj.1 hsame]
    | slot before' mark' rest' =>
      refine absurd ?_ (hpieces text (.head _) mark' (htmarks' mark' (.head _)))
      exact ⟨before'.toList, rest'.written, by rw [List.append_assoc]; exact hsame⟩
  | slot before mark rest ih =>
    cases t' with
    | ending text' =>
      refine absurd ?_ (hpieces' text' (.head _) mark (htmarks mark (.head _)))
      exact ⟨before.toList, rest.written, by rw [List.append_assoc]; exact hsame.symm⟩
    | slot before' mark' rest' =>
      rw [Template.marks, List.forall_mem_cons] at htmarks htmarks'
      rw [Template.pieces, List.forall_mem_cons] at hpieces hpieces'
      rw [written_slot, written_slot] at hsame
      -- Of two pieces in the same place the longer one would have a mark in it.
      have hbefore : before'.toList = before.toList := by
        obtain ⟨more, hmore, hrest⟩ | ⟨more, hmore, hrest⟩ := List.append_eq_append_iff.1 hsame
        · have hfree := hpieces.1 mark' htmarks'.1
          rw [hmore] at hfree
          rw [hmore, eq_nil_of_append hmarks htmarks'.1 htmarks.1 hfree hrest, List.append_nil]
        · have hfree := hpieces'.1 mark htmarks.1
          rw [hmore] at hfree
          rw [hmore, eq_nil_of_append hmarks htmarks.1 htmarks'.1 hfree hrest, List.append_nil]
      rw [hbefore] at hsame
      have hbehind := List.append_cancel_left hsame
      have hmark : mark' = mark := Decidable.not_not.1 fun hne =>
        IsMark.not_prefix (hmarks mark htmarks.1) (hmarks mark' htmarks'.1) hne
          ⟨rest.written, hbehind.symm⟩
      subst hmark
      rw [String.toList_inj.1 hbefore, ih htmarks.2 hpieces.2 (List.append_cancel_left hbehind)
        htmarks'.2 hpieces'.2]

theorem existsUnique_cuts (hmarks : ∀ mark ∈ marks, IsMark mark) (cs : List Char) :
    ∃! t : Template, t.Cuts marks cs := by
  obtain ⟨t, ht⟩ := exists_cuts hmarks cs
  exact ⟨t, ht, fun _ ht' => ht'.unique hmarks ht⟩

/-- A placeholder is cut as often as it occurs. -/
theorem Cuts.occurrences_eq (h : t.Cuts marks cs) (hmarks : ∀ mark ∈ marks, IsMark mark)
    (hmark : mark ∈ marks) : occurrences mark.toList cs = t.marks.count mark := by
  obtain ⟨rfl, htmarks, hpieces⟩ := h
  induction t with
  | ending text =>
    exact occurrences_eq_zero (hpieces text (.head _) mark hmark)
  | slot before other rest ih =>
    rw [Template.pieces, List.forall_mem_cons] at hpieces
    rw [Template.marks, List.forall_mem_cons] at htmarks
    have hother := hmarks other htmarks.1
    rw [written_slot, (hmarks mark hmark).occurrences_append_mark hother,
      (hmarks mark hmark).occurrences_mark hother, ih htmarks.2 hpieces.2,
      occurrences_eq_zero (hpieces.1 mark hmark), Template.marks, List.count_cons]
    simp only [beq_iff_eq, Nat.zero_add]

end Template

end SourceCorpus
