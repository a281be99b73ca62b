import Mathlib.Tactic.LinearCombination
import Mathlib.Tactic.Zify
import SourceCorpus.Proofs.Question.Cuts
import SourceCorpus.Proofs.Question.Instructions

/-!
Replacing placeholders one after the other. Main statement: this fills in the placeholders of a text
at once exactly if each of them, when its turn comes, still occurs as often as in the text that was
given, or is replaced by itself.
-/

namespace SourceCorpus

namespace Text

/-- The second text is the first with this many occurrences of the mark replaced. -/
inductive Fills (mark value : List Char) : Nat → List Char → List Char → Prop
  | nil : Fills mark value 0 [] []
  | keep {n : Nat} {cs ds : List Char} (c : Char) (h : Fills mark value n cs ds) :
    Fills mark value n (c :: cs) (c :: ds)
  | fill {n : Nat} {cs ds : List Char} (h : Fills mark value n cs ds) :
    Fills mark value (n + 1) (mark ++ cs) (value ++ ds)

variable {pattern value cs ds : List Char} {n : Nat}

theorem Fills.append (h : Fills pattern value n cs ds) (kept : List Char) :
    Fills pattern value n (kept ++ cs) (kept ++ ds) := by
  induction kept with
  | nil => exact h
  | cons c kept ih => exact ih.keep c

theorem Fills.refl (cs : List Char) : Fills pattern value 0 cs cs := by
  simpa using Fills.nil.append cs

/-- What characters are lost and won is told by the number of occurrences. -/
theorem Fills.countP_add (h : Fills pattern value n cs ds) (p : Char → Bool) :
    ds.countP p + n * pattern.countP p = cs.countP p + n * value.countP p := by
  induction h with
  | nil => rw [Nat.zero_mul, Nat.zero_mul]
  | keep c _ ih =>
    simp only [List.countP_cons]
    omega
  | fill _ ih =>
    simp only [List.countP_append, Nat.succ_mul]
    omega

theorem Fills.length_add (h : Fills pattern value n cs ds) :
    ds.length + n * pattern.length = cs.length + n * value.length := by
  simpa using h.countP_add fun _ => true

theorem Fills.eq_of_self (h : Fills pattern pattern n cs ds) : ds = cs := by
  induction h with
  | nil => rfl
  | keep c _ ih => rw [ih]
  | fill _ ih => rw [ih]

theorem occurrences_le_append (pattern cs ds : List Char) :
    occurrences pattern ds ≤ occurrences pattern (cs ++ ds) := by
  induction cs with
  | nil => exact Nat.le_refl _
  | cons c cs ih =>
    rw [List.cons_append, occurrences_cons]
    exact Nat.le_add_right_of_le ih

end Text

open Text

/-! ### Some and all occurrences -/

section Marks

variable {mark other : String} {value cs ds : List Char} {n : Nat}

/-- A text is read from left to right, from one occurrence of the mark to the next. -/
theorem IsMark.induction {P : List Char → Prop} (h : IsMark mark) (nil : P [])
    (found : ∀ rest, P rest → P (mark.toList ++ rest))
    (step : ∀ c cs, ¬mark.toList <+: c :: cs → P cs → P (c :: cs)) (cs : List Char) : P cs := by
  induction hlength : cs.length using Nat.strongRecOn generalizing cs with
  | ind n ih =>
    by_cases hfront : mark.toList <+: cs
    · obtain ⟨rest, rfl⟩ := hfront
      have hpos : 0 < mark.toList.length := List.length_pos_iff.2 h.ne_nil
      rw [List.length_append] at hlength
      exact found rest (ih rest.length (by omega) rest rfl)
    · cases cs with
      | nil => exact nil
      | cons c cs => exact step c cs hfront (ih cs.length (by simp at hlength; omega) cs rfl)

theorem replaceChars_cons (hno : ¬mark.toList <+: c :: cs) :
    replaceChars mark.toList value (c :: cs) = c :: replaceChars mark.toList value cs := by
  rw [replaceChars, replaceFrom, if_neg fun hfound => hno (List.isPrefixOf_iff_prefix.1 hfound.2)]
  rfl

/-- All occurrences are replaced. -/
theorem IsMark.fills_replaceChars (h : IsMark mark) (value cs : List Char) :
    Fills mark.toList value (occurrences mark.toList cs) cs
      (replaceChars mark.toList value cs) := by
  induction cs using h.induction with
  | nil =>
    rw [occurrences_eq_zero (by simpa using h.ne_nil)]
    exact .nil
  | found rest ih =>
    rw [h.occurrences_mark h, if_pos rfl, h.replaceChars_self]
    exact ih.fill
  | step c cs hno ih =>
    rw [occurrences_cons, if_neg hno, replaceChars_cons hno]
    exact ih.keep c

/-- Nothing is replaced where no brace opens. -/
theorem IsMark.exists_of_fills_append (h : IsMark mark) (hcs : '{' ∉ cs) {rest : List Char}
    (hfills : Fills mark.toList value n (cs ++ rest) ds) :
    ∃ more, ds = cs ++ more ∧ Fills mark.toList value n rest more := by
  induction cs generalizing ds with
  | nil => exact ⟨ds, rfl, hfills⟩
  | cons c cs ih =>
    rw [List.mem_cons, not_or] at hcs
    obtain ⟨name, hmark, -⟩ := h.eq_cons
    generalize htext : c :: cs ++ rest = text at hfills
    cases hfills with
    | nil => cases htext
    | keep c' hfills =>
      obtain ⟨rfl, rfl⟩ := List.cons.inj htext
      obtain ⟨more, rfl, hmore⟩ := ih hcs.2 hfills
      exact ⟨more, rfl, hmore⟩
    | fill hfills =>
      rw [hmark] at htext
      exact absurd (List.cons.inj htext).1.symm hcs.1

/-- What begins with a placeholder still begins with it after another one has been replaced behind
its first character. -/
theorem IsMark.prefix_of_fills (h : IsMark mark) (hother : IsMark other) {c : Char}
    (hfills : Fills mark.toList value n cs ds) (hfront : other.toList <+: c :: cs) :
    other.toList <+: c :: ds := by
  obtain ⟨name, hname, hopen⟩ := hother.eq_cons
  rw [hname, List.cons_prefix_cons] at hfront ⊢
  obtain ⟨hc, rest, rfl⟩ := hfront
  obtain ⟨more, rfl, -⟩ := h.exists_of_fills_append hopen hfills
  exact ⟨hc, List.prefix_append _ _⟩

theorem IsMark.le_occurrences (h : IsMark mark) (hfills : Fills mark.toList value n cs ds) :
    n ≤ occurrences mark.toList cs := by
  induction hfills with
  | nil => exact Nat.zero_le _
  | keep c _ ih =>
    rw [occurrences_cons]
    exact Nat.le_add_right_of_le ih
  | fill _ ih =>
    rw [h.occurrences_mark h, if_pos rfl]
    exact Nat.succ_le_succ ih

/-- If as many occurrences are replaced as there are, these are all. -/
theorem IsMark.eq_replaceChars_of_fills (h : IsMark mark)
    (hfills : Fills mark.toList value (occurrences mark.toList cs) cs ds) :
    ds = replaceChars mark.toList value cs := by
  generalize hn : occurrences mark.toList cs = n at hfills
  induction hfills with
  | nil => rfl
  | @keep n cs ds c hfills ih =>
    rw [occurrences_cons] at hn
    by_cases hfront : mark.toList <+: c :: cs
    · rw [if_pos hfront] at hn
      exact absurd (h.le_occurrences hfills) (by omega)
    · rw [if_neg hfront] at hn
      rw [replaceChars_cons hfront, ih hn]
  | fill _ ih =>
    rw [h.occurrences_mark h, if_pos rfl] at hn
    rw [h.replaceChars_self, ih (Nat.succ.inj hn)]

/-- If to replace some occurrences is to replace all, these are all, or nothing changes. -/
theorem IsMark.eq_occurrences_of_fills (h : IsMark mark)
    (hfills : Fills mark.toList value n cs (replaceChars mark.toList value cs)) :
    n = occurrences mark.toList cs ∨ value = mark.toList := by
  by_cases hlength : value.length = mark.toList.length
  · refine or_iff_not_imp_right.2 fun hne => ?_
    generalize hds : replaceChars mark.toList value cs = ds at hfills
    induction hfills with
    | nil => exact (occurrences_eq_zero (by simpa using h.ne_nil)).symm
    | @keep n cs ds c hfills ih =>
      by_cases hfront : mark.toList <+: c :: cs
      -- One that is not replaced would be a part of the text in which all are.
      · have hkept := h.prefix_of_fills h hfills hfront
        obtain ⟨rest, hrest⟩ := hfront
        obtain ⟨more, hmore⟩ := hkept
        rw [← hrest, h.replaceChars_self, ← hmore] at hds
        exact absurd (List.append_inj_left hds hlength) hne
      · rw [replaceChars_cons hfront] at hds
        rw [occurrences_cons, if_neg hfront]
        exact ih (List.cons.inj hds).2
    | fill _ ih =>
      rw [h.replaceChars_self] at hds
      rw [h.occurrences_mark h, if_pos rfl, ih (List.append_cancel_left hds)]
  · have hsome := hfills.length_add
    have hall := (h.fills_replaceChars value cs).length_add
    zify at hsome hall hlength ⊢
    have hmul : ((n : ℤ) - occurrences mark.toList cs) * (value.length - mark.toList.length) = 0 := by
      linear_combination hall - hsome
    exact .inl (sub_eq_zero.1 ((mul_eq_zero.1 hmul).resolve_right (sub_ne_zero.2 hlength)))

/-- Replacing one placeholder leaves all occurrences of another one. -/
theorem IsMark.occurrences_le_of_fills (h : IsMark mark) (hother : IsMark other) (hne : mark ≠ other)
    (hfills : Fills mark.toList value n cs ds) :
    occurrences other.toList cs ≤ occurrences other.toList ds := by
  induction hfills with
  | nil => exact Nat.le_refl _
  | @keep n cs ds c hfills ih =>
    rw [occurrences_cons, occurrences_cons]
    by_cases hfront : other.toList <+: c :: cs
    · rw [if_pos hfront, if_pos (h.prefix_of_fills hother hfills hfront)]
      exact Nat.succ_le_succ ih
    · rw [if_neg hfront]
      exact Nat.le_add_right_of_le ih
  | fill _ ih =>
    rw [hother.occurrences_mark h, if_neg hne]
    exact ih.trans (occurrences_le_append _ _ _)

/-- Braces that open are lost with the occurrences and won with their values. -/
theorem IsMark.count_brace_add (h : IsMark mark) (hfills : Fills mark.toList value n cs ds) :
    ds.count '{' + n = cs.count '{' + n * value.count '{' := by
  obtain ⟨name, hmark, hopen⟩ := h.eq_cons
  have hone : mark.toList.countP (· == '{') = 1 := by
    rw [hmark, ← List.count, List.count_cons_self, List.count_eq_zero.2 hopen]
  have hadd := hfills.countP_add (· == '{')
  rwa [hone, Nat.mul_one] at hadd

end Marks

/-! ### One placeholder after the other -/

/-- Each placeholder, when its turn comes, occurs as often as in the text that was asked about, or is
replaced by itself. -/
def KeepsMarks (asked : String) : List (String × String) → String → Prop
  | [], _ => True
  | entry :: entries, text =>
    (occurrences entry.1.toList text.toList = occurrences entry.1.toList asked.toList ∨
      entry.2 = entry.1) ∧ KeepsMarks asked entries (replace text entry.1 entry.2)

instance decidableKeepsMarks (asked : String) :
    (entries : List (String × String)) → (text : String) → Decidable (KeepsMarks asked entries text)
  | [], _ => inferInstanceAs (Decidable True)
  | entry :: entries, text =>
    have := decidableKeepsMarks asked entries (replace text entry.1 entry.2)
    inferInstanceAs (Decidable (_ ∧ _))

def replaceInTurn (entries : List (String × String)) (text : String) : String :=
  entries.foldl (fun text entry => replace text entry.1 entry.2) text

theorem replaceInTurn_cons (entry : String × String) (entries : List (String × String))
    (text : String) : replaceInTurn (entry :: entries) text =
      replaceInTurn entries (replace text entry.1 entry.2) := rfl

theorem replaceInTurn_append (early late : List (String × String)) (text : String) :
    replaceInTurn (early ++ late) text = replaceInTurn late (replaceInTurn early text) :=
  List.foldl_append

theorem keepsMarks_append {asked text : String} {early late : List (String × String)} :
    KeepsMarks asked (early ++ late) text ↔
      KeepsMarks asked early text ∧ KeepsMarks asked late (replaceInTurn early text) := by
  induction early generalizing text with
  | nil => simp [KeepsMarks, replaceInTurn]
  | cons entry early ih =>
    rw [List.cons_append, KeepsMarks, KeepsMarks, ih, and_assoc, replaceInTurn_cons]

theorem le_occurrences_replaceInTurn {mark : String} {entries : List (String × String)}
    (hmark : IsMark mark) (hmarks : ∀ entry ∈ entries, IsMark entry.1 ∧ entry.1 ≠ mark)
    (text : String) :
    occurrences mark.toList text.toList ≤
      occurrences mark.toList (replaceInTurn entries text).toList := by
  induction entries generalizing text with
  | nil => exact Nat.le_refl _
  | cons entry entries ih =>
    rw [List.forall_mem_cons] at hmarks
    have hfills := hmarks.1.1.fills_replaceChars entry.2.toList text.toList
    have hle := hmarks.1.1.occurrences_le_of_fills hmark hmarks.1.2 hfills
    rw [← String.toList_ofList (l := replaceChars _ _ _)] at hle
    exact hle.trans (ih hmarks.2 _)

namespace Template

variable {t : Template} {asked text mark : String} {values : String → Option String}
  {entry : String × String} {entries : List (String × String)}

/-- Giving a placeholder its value replaces it as often as it is in the template. -/
theorem fills_fill (t : Template) (hopen : values mark = none) (value : String) :
    Fills mark.toList value.toList (t.marks.count mark) (t.fill (valueOf values))
      (t.fill (valueOf (withValue values mark value))) := by
  induction t with
  | ending text => exact .refl _
  | slot before other rest ih =>
    rw [marks, fill, fill]
    refine Fills.append ?_ before.toList
    by_cases hsame : other = mark
    · have hwritten : valueOf values other = mark := by simp [valueOf, hsame, hopen]
      have hgiven : valueOf (withValue values mark value) other = value := by
        simp [valueOf, withValue, hsame, hopen]
      rw [hwritten, hgiven, hsame, List.count_cons_self]
      exact ih.fill
    · have hkept : valueOf (withValue values mark value) other = valueOf values other := by
        simp [valueOf, withValue, hsame]
      rw [hkept, List.count_cons_of_ne hsame]
      exact ih.append _

/-- The entries are for different placeholders, which are cut wherever the text that was asked about
has them, and have no values yet. -/
structure AreDue (t : Template) (asked : String) (values : String → Option String)
    (entries : List (String × String)) : Prop where
  isMark : ∀ entry ∈ entries, IsMark entry.1
  nodup : (entries.map (·.1)).Nodup
  isOpen : ∀ entry ∈ entries, values entry.1 = none
  count : ∀ entry ∈ entries, occurrences entry.1.toList asked.toList = t.marks.count entry.1

theorem AreDue.tail (h : t.AreDue asked values (entry :: entries)) :
    t.AreDue asked (withValue values entry.1 entry.2) entries := by
  obtain ⟨hmarks, hnodup, hopen, hcount⟩ := h
  rw [List.map_cons, List.nodup_cons] at hnodup
  refine ⟨fun e he => hmarks e (.tail _ he), hnodup.2, fun e he => ?_,
    fun e he => hcount e (.tail _ he)⟩
  have hne : e.1 ≠ entry.1 := fun hsame => hnodup.1 (hsame ▸ List.mem_map_of_mem he)
  rw [withValue, hopen e (.tail _ he), if_neg hne]
  rfl

theorem AreDue.append {early late : List (String × String)}
    (h : t.AreDue asked values (early ++ late)) :
    t.AreDue asked values early ∧ t.AreDue asked (withEntries values early) late := by
  refine ⟨⟨fun e he => h.isMark e (List.mem_append_left _ he), ?_,
    fun e he => h.isOpen e (List.mem_append_left _ he),
    fun e he => h.count e (List.mem_append_left _ he)⟩, ?_⟩
  · have hnodup := h.nodup
    rw [List.map_append] at hnodup
    exact hnodup.of_append_left
  · induction early generalizing values with
    | nil => rwa [withEntries_nil]
    | cons entry early ih =>
      rw [withEntries_cons]
      exact ih h.tail

theorem AreDue.ne_of_append {early late : List (String × String)}
    (h : t.AreDue asked values (early ++ late)) : ∀ e ∈ early, ∀ e' ∈ late, e.1 ≠ e'.1 := by
  have hnodup := h.nodup
  rw [List.map_append, List.nodup_append] at hnodup
  exact fun e he e' he' =>
    hnodup.2.2 _ (List.mem_map_of_mem he) _ (List.mem_map_of_mem he')

theorem AreDue.mark_ne (h : t.AreDue asked values (entry :: entries)) :
    ∀ e ∈ entries, entry.1 ≠ e.1 := by
  have hnodup := h.nodup
  rw [List.map_cons, List.nodup_cons] at hnodup
  exact fun e he hsame => hnodup.1 (hsame ▸ List.mem_map_of_mem he)

/-- What a placeholder is replaced by in the template, all its occurrences in the text are replaced
by, if these are as many. -/
theorem AreDue.toList_replace (h : t.AreDue asked values (entry :: entries))
    (htext : text.toList = t.fill (valueOf values))
    (hkeeps : occurrences entry.1.toList text.toList = occurrences entry.1.toList asked.toList ∨
      entry.2 = entry.1) :
    (replace text entry.1 entry.2).toList =
      t.fill (valueOf (withValue values entry.1 entry.2)) := by
  have hmark := h.isMark entry (.head _)
  have hfills := t.fills_fill (h.isOpen entry (.head _)) entry.2
  rw [replace, String.toList_ofList]
  rw [← htext] at hfills
  rcases hkeeps with hcount | hself
  · rw [← h.count entry (.head _), ← hcount] at hfills
    exact (hmark.eq_replaceChars_of_fills hfills).symm
  · rw [hself] at hfills ⊢
    exact (hmark.fills_replaceChars _ _).eq_of_self.trans hfills.eq_of_self.symm

/-- Placeholders that occur no more often when their turn comes are filled in all at once. -/
theorem AreDue.toList_replaceInTurn (h : t.AreDue asked values entries)
    (htext : text.toList = t.fill (valueOf values)) (hkeeps : KeepsMarks asked entries text) :
    (replaceInTurn entries text).toList = t.fill (valueOf (withEntries values entries)) := by
  induction entries generalizing values text with
  | nil =>
    rw [replaceInTurn, List.foldl_nil, htext, withEntries_nil]
  | cons entry entries ih =>
    rw [withEntries_cons]
    exact ih h.tail (h.toList_replace htext hkeeps.1) hkeeps.2

/-- Values without braces leave no more opening braces than the template with these values has, and
as many only if no placeholder has come to occur more often. -/
theorem AreDue.count_brace_le (h : t.AreDue asked values entries)
    (hvalues : ∀ entry ∈ entries, '{' ∉ entry.2.toList)
    (hle : ∀ entry ∈ entries,
      occurrences entry.1.toList asked.toList ≤ occurrences entry.1.toList text.toList) :
    (replaceInTurn entries text).toList.count '{' + (t.fill (valueOf values)).count '{' ≤
        (t.fill (valueOf (withEntries values entries))).count '{' + text.toList.count '{' ∧
      ((replaceInTurn entries text).toList.count '{' + (t.fill (valueOf values)).count '{' =
        (t.fill (valueOf (withEntries values entries))).count '{' + text.toList.count '{' →
        KeepsMarks asked entries text) := by
  -- Each mark that is replaced takes one brace away, and a value without braces adds none.
  induction entries generalizing values text with
  | nil =>
    rw [withEntries_nil, Nat.add_comm]
    exact ⟨Nat.le_refl _, fun _ => trivial⟩
  | cons entry entries ih =>
    rw [List.forall_mem_cons] at hvalues hle
    have hmark := h.isMark entry (.head _)
    have hnone : entry.2.toList.count '{' = 0 := List.count_eq_zero.2 hvalues.1
    have htext := hmark.count_brace_add (hmark.fills_replaceChars entry.2.toList text.toList)
    have hfill := hmark.count_brace_add (t.fills_fill (h.isOpen entry (.head _)) entry.2)
    rw [← String.toList_ofList (l := replaceChars _ _ _), ← replace, hnone, Nat.mul_zero] at htext
    rw [hnone, Nat.mul_zero, ← h.count entry (.head _)] at hfill
    have hleft : ∀ e ∈ entries, occurrences e.1.toList asked.toList ≤
        occurrences e.1.toList (replace text entry.1 entry.2).toList := by
      intro e he
      have hone : ∀ e' ∈ [entry], IsMark e'.1 ∧ e'.1 ≠ e.1 :=
        List.forall_mem_singleton.2 ⟨hmark, h.mark_ne e he⟩
      exact (hle.2 e he).trans (le_occurrences_replaceInTurn (h.isMark e (.tail _ he)) hone text)
    obtain ⟨hih, hkeeps⟩ := ih h.tail hvalues.2 hleft
    have hfirst := hle.1
    rw [withEntries_cons, replaceInTurn_cons]
    refine ⟨by omega, fun hsame => ⟨.inl (by omega), hkeeps (by omega)⟩⟩

/-- If all but the first and the last value are without braces, placeholders are filled in at once
only if they occur no more often when their turn comes. Several braces in the last value could make up
for what has been lost before. -/
theorem AreDue.keepsMarks {first last : String × String} {middle : List (String × String)}
    (h : t.AreDue asked values (first :: middle ++ [last]))
    (htext : asked.toList = t.fill (valueOf values))
    (hvalues : ∀ entry ∈ middle, '{' ∉ entry.2.toList)
    (hlast : last.2.toList.count '{' ≤ 1 ∨ KeepsMarks asked (first :: middle) asked)
    (hfilled : (replaceInTurn (first :: middle ++ [last]) asked).toList =
      t.fill (valueOf (withEntries values (first :: middle ++ [last])))) :
    KeepsMarks asked (first :: middle ++ [last]) asked := by
  obtain ⟨hearly, hdue⟩ := h.append
  let text := replaceInTurn (first :: middle) asked
  have hmark := hdue.isMark last (.head _)
  have hall := hmark.fills_replaceChars last.2.toList text.toList
  have hcut := t.fills_fill (hdue.isOpen last (.head _)) last.2
  rw [← hdue.count last (.head _)] at hcut
  have hend : replaceChars last.1.toList last.2.toList text.toList =
      t.fill (valueOf (withValue (withEntries values (first :: middle)) last.1 last.2)) := by
    rw [withEntries_append, withEntries_cons, withEntries_nil, replaceInTurn_append] at hfilled
    rw [← hfilled]
    exact String.toList_ofList.symm
  have hmore : occurrences last.1.toList asked.toList ≤ occurrences last.1.toList text.toList :=
    le_occurrences_replaceInTurn hmark
      (fun e he => ⟨hearly.isMark e he, h.ne_of_append e he last (.head _)⟩) asked
  have hmiddle : KeepsMarks asked (first :: middle) asked := by
    refine hlast.elim (fun hone => ⟨.inl rfl, ?_⟩) id
    have hfirst := hearly.toList_replace htext (.inl rfl)
    have hafter : ∀ e ∈ middle, occurrences e.1.toList asked.toList ≤
        occurrences e.1.toList (replace asked first.1 first.2).toList := fun e he =>
      le_occurrences_replaceInTurn (hearly.isMark e (.tail _ he))
        (List.forall_mem_singleton.2 ⟨hearly.isMark first (.head _), hearly.mark_ne e he⟩) asked
    obtain ⟨hbraces, hkeeps⟩ := hearly.tail.count_brace_le hvalues hafter
    refine hkeeps ?_
    have hreplaced := hmark.count_brace_add hall
    have hfilled := hmark.count_brace_add hcut
    rw [hend] at hreplaced
    rw [withEntries_cons] at hreplaced hfilled
    have hsame : text = replaceInTurn middle (replace asked first.1 first.2) := rfl
    rw [hfirst, ← hsame] at hbraces ⊢
    -- The last value has one opening brace, or none.
    rcases Nat.le_one_iff_eq_zero_or_eq_one.1 hone with hbrace | hbrace
    · rw [hbrace] at hreplaced hfilled
      omega
    · rw [hbrace] at hreplaced hfilled
      omega
  refine keepsMarks_append.2 ⟨hmiddle, ?_, trivial⟩
  rw [← hearly.toList_replaceInTurn htext hmiddle, ← hend] at hcut
  exact (hmark.eq_occurrences_of_fills hcut).imp Eq.symm String.toList_inj.1

end Template

namespace Question

open Template

variable {q : Question} {file source : String} {m : CodeModel} {o : CodeObject}

/-! ### Questions -/

/-- The instruction is the text of the question, cut at all its placeholders, with the values of these
in their places. -/
def RendersAtOnce (q : Question) (m : CodeModel) (o : CodeObject) : Prop :=
  ∀ t : Template, t.Cuts ((placeholders m o).map (·.1)) q.text.toList →
    (q.render m o).toList = t.fill (valueFor m o)

theorem isMark_of_mem_names {mark : String} (h : mark ∈ (placeholders m o).map (·.1)) :
    IsMark mark := by
  obtain ⟨entry, hentry, rfl⟩ := List.mem_map.1 h
  exact isMark_of_mem_placeholders hentry

theorem areDue_placeholders {t : Template}
    (ht : t.Cuts ((placeholders m o).map (·.1)) q.text.toList) :
    t.AreDue q.text (fun _ => none) (placeholders m o) := by
  refine ⟨fun _ => isMark_of_mem_placeholders, ?_, fun _ _ => rfl, fun entry hentry => ?_⟩
  · change ["{filename}", "{qualified_name}", "{function_name}", "{class_name}", "{method_name}",
      "{name}"].Nodup
    decide
  · exact ht.occurrences_eq (fun _ => isMark_of_mem_names) (List.mem_map_of_mem hentry)

/-- Only the file of an object, and the name of a module, can have braces. -/
theorem brace_not_mem_value (h : Extraction.extract file source = .ok m)
    (ho : o ∈ m.objects.toList) : ∀ entry ∈ [("{qualified_name}", o.qualifiedName),
      ("{function_name}", functionName o), ("{class_name}", className m o),
      ("{method_name}", methodName o)], '{' ∉ entry.2.toList := by
  have hqualified : '{' ∉ o.qualifiedName.toList := by
    by_cases hkind : o.kind = .module
    · obtain ⟨i, hi⟩ := List.getElem?_of_mem ho
      have hget : m.get? i = some o := (Extraction.get?_eq m i).trans hi
      rw [(Extraction.hierarchy_of_extract h).module i o hget hkind] at hget
      rw [Extraction.qualifiedName_module h hget]
      decide
    · exact (isQuotable_qualifiedName h ho hkind).2
  simp only [List.forall_mem_cons]
  exact ⟨hqualified, (isQuotable_functionName h ho).2, (isQuotable_className h ho).2,
    (isQuotable_methodName h ho).2, fun _ => (nomatch ·)⟩

/-- The placeholders of a question are filled in at once if each of them, when its turn comes, occurs
as often as in the question or is replaced by itself. Otherwise they are not, unless the name of a
module has several braces and something has come out differently before the name is filled in. -/
theorem rendersAtOnce_iff {q : Question} {file source : String} {m : CodeModel} {o : CodeObject}
    (h : Extraction.extract file source = .ok m) (ho : o ∈ m.objects.toList) :
    (∃! t : Template, t.Cuts ((placeholders m o).map (·.1)) q.text.toList) ∧
      (KeepsMarks q.text (placeholders m o) q.text → q.RendersAtOnce m o) ∧
      (o.name.toList.count '{' ≤ 1 ∨ KeepsMarks q.text ((placeholders m o).take 5) q.text →
        (q.RendersAtOnce m o ↔ KeepsMarks q.text (placeholders m o) q.text)) := by
  have hcuts := existsUnique_cuts (fun _ => isMark_of_mem_names (m := m) (o := o)) q.text.toList
  obtain ⟨t, ht⟩ := hcuts.exists
  have hopen (t : Template) (ht : t.Cuts ((placeholders m o).map (·.1)) q.text.toList) :
      q.text.toList = t.fill (valueOf fun _ => none) := ht.written.symm
  have hrenders (hkeeps : KeepsMarks q.text (placeholders m o) q.text) : q.RendersAtOnce m o :=
    fun t ht => (areDue_placeholders ht).toList_replaceInTurn (hopen t ht) hkeeps
  refine ⟨hcuts, hrenders, fun hname => ⟨fun hfilled => ?_, hrenders⟩⟩
  exact (areDue_placeholders ht).keepsMarks (hopen t ht) (brace_not_mem_value h ho) hname
    (hfilled t ht)

/-- Braces around a placeholder and in the path of the file, and a placeholder that is unknown. -/
theorem rendersAtOnce_of_braces :
    let source := "class C:\n    def f(self): pass\n"
    let q : Question :=
      ⟨"method_purpose", "\x7b{method_name}\x7d in {filename}, {unknown}", .method, .purpose, true⟩
    ∃ m, Extraction.extract "{src}/a.py" source = .ok m ∧ ∃ o ∈ m.objects.toList,
      o.name.toList.count '{' ≤ 1 ∧ KeepsMarks q.text (placeholders m o) q.text ∧
      q.RendersAtOnce m o ∧ (q.render m o).toList = "\x7bf\x7d in {src}/a.py, {unknown}".toList := by
  intro source q
  have hextract : Extraction.extract "{src}/a.py" source =
      .ok (Extraction.modelOf "{src}/a.py" source.toList (Syntax.parse source.toList)) :=
    Extraction.extract_eq_ok_iff.2 ⟨by decide +kernel, rfl⟩
  obtain ⟨m, hm, o, ho, hbraces, hvalues⟩ :
      ∃ m, Extraction.extract "{src}/a.py" source = .ok m ∧ ∃ o ∈ m.objects.toList,
        o.name.toList.count '{' ≤ 1 ∧ placeholders m o =
          [("{filename}", "{src}/a.py"), ("{qualified_name}", "C.f"), ("{function_name}", "C.f"),
            ("{class_name}", "C"), ("{method_name}", "f"), ("{name}", "f")] :=
    ⟨_, hextract, by decide +kernel⟩
  have hkeeps : KeepsMarks q.text (placeholders m o) q.text := by
    rw [hvalues]
    decide +kernel
  have hrenders : q.RendersAtOnce m o := (rendersAtOnce_iff hm ho).2.1 hkeeps
  let t : Template :=
    slot "\x7b" "{method_name}" (slot "\x7d in " "{filename}" (.ending ", {unknown}"))
  have ht : t.Cuts ((placeholders m o).map (·.1)) q.text.toList := by
    rw [hvalues]
    decide +kernel
  refine ⟨m, hm, o, ho, hbraces, hkeeps, hrenders, ?_⟩
  rw [hrenders t ht, valueFor, hvalues]
  decide +kernel

/-- A placeholder in the path of a file is expanded as if it were in the question. -/
theorem not_rendersAtOnce_of_path :
    let q : Question := ⟨"function_docstring", "Docstring of {function_name} in {filename}?",
      .standalone, .freeText, true⟩
    ∃ m, Extraction.extract "{name}.py" "def f(): pass\n" = .ok m ∧ ∃ o ∈ m.objects.toList,
      q.render m o = "Docstring of f in f.py?" ∧ ¬q.RendersAtOnce m o := by
  intro q
  have hextract : Extraction.extract "{name}.py" "def f(): pass\n" = .ok (Extraction.modelOf
      "{name}.py" "def f(): pass\n".toList (Syntax.parse "def f(): pass\n".toList)) :=
    Extraction.extract_eq_ok_iff.2 ⟨by decide +kernel, rfl⟩
  let t : Template :=
    slot "Docstring of " "{function_name}" (slot " in " "{filename}" (.ending "?"))
  have ht : t.Cuts ["{filename}", "{qualified_name}", "{function_name}", "{class_name}",
      "{method_name}", "{name}"] q.text.toList := by decide +kernel
  obtain ⟨m, hm, o, ho, hrender, hfill⟩ :
      ∃ m, Extraction.extract "{name}.py" "def f(): pass\n" = .ok m ∧ ∃ o ∈ m.objects.toList,
        q.render m o = "Docstring of f in f.py?" ∧
        (q.render m o).toList ≠ t.fill (valueFor m o) :=
    ⟨_, hextract, by decide +kernel⟩
  exact ⟨m, hm, o, ho, hrender, fun hrenders => hfill (hrenders t ht)⟩

end Question

end SourceCorpus
