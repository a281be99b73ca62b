import Mathlib.Data.List.TakeWhile
import SourceCorpus.Text.Replace

/-!
Texts with placeholders. Main statements: replacing the placeholders one after the other fills in all
of them at once, and if what is filled in stands between backticks, it can be read back.
-/

namespace SourceCorpus

open Text

abbrev backtick : Char := '\x60'

/-- A text in parts, with a placeholder behind each part but the last. -/
inductive Template where
  | ending (text : String)
  | slot (before mark : String) (rest : Template)

def IsMark (mark : String) : Prop :=
  let name := mark.toList.tail.dropLast
  mark.toList = '{' :: (name ++ ['}']) ∧ '{' ∉ name ∧ '}' ∉ name

instance (mark : String) : Decidable (IsMark mark) :=
  inferInstanceAs (Decidable (_ ∧ _ ∧ _))

namespace Template

def fill (value : String → String) : Template → List Char
  | ending text => text.toList
  | slot before mark rest => before.toList ++ ((value mark).toList ++ rest.fill value)

def written : Template → List Char := fill fun mark => mark

def marks : Template → List String
  | ending _ => []
  | slot _ mark rest => mark :: rest.marks

def lead : Template → String
  | ending text => text
  | slot before _ _ => before

def IsClear : Template → Prop
  | ending text => '{' ∉ text.toList
  | slot before mark rest => '{' ∉ before.toList ∧ IsMark mark ∧ rest.IsClear

def IsQuoted : Template → Prop
  | ending _ => True
  | slot _ _ rest => rest.lead.toList.head? = some backtick ∧ rest.IsQuoted

/-- The values for the placeholders; one without a value stays as it is written. -/
def valueOf (values : String → Option String) (mark : String) : String := (values mark).getD mark

end Template

/-! ### Replacing a placeholder -/

section Replacing

variable {mark other : String} {value cs rest : List Char}

theorem IsMark.ne_nil (h : IsMark mark) : mark.toList ≠ [] := by
  rw [h.1]
  exact List.cons_ne_nil _ _

theorem replaceFrom_length (pattern value cs rest : List Char) :
    replaceFrom pattern value cs.length (cs ++ rest) = replaceFrom pattern value 0 rest := by
  induction cs with
  | nil => rfl
  | cons c cs ih => exact ih

/-- Nothing is replaced where no brace opens. -/
theorem IsMark.replaceChars_append (h : IsMark mark) (hcs : '{' ∉ cs) :
    replaceChars mark.toList value (cs ++ rest) = cs ++ replaceChars mark.toList value rest := by
  obtain ⟨hmark, -⟩ := h
  generalize mark.toList.tail.dropLast = name at hmark
  induction cs with
  | nil => rfl
  | cons c cs ih =>
    rw [List.mem_cons, not_or] at hcs
    have hno : ¬(mark.toList ≠ [] ∧ mark.toList.isPrefixOf (c :: (cs ++ rest))) := by
      simp [hmark, hcs.1]
    rw [List.cons_append, replaceChars, replaceFrom, if_neg hno]
    exact congrArg (c :: ·) (ih hcs.2)

theorem IsMark.replaceChars_self (h : IsMark mark) :
    replaceChars mark.toList value (mark.toList ++ rest) =
      value ++ replaceChars mark.toList value rest := by
  obtain ⟨hmark, -⟩ := h
  generalize mark.toList.tail.dropLast = name at hmark
  have hyes : mark.toList ≠ [] ∧ mark.toList.isPrefixOf (mark.toList ++ rest) :=
    ⟨by simp [hmark], by simp⟩
  have hskip := replaceFrom_length mark.toList value (name ++ ['}']) rest
  rw [hmark, List.cons_append] at hyes ⊢
  rw [replaceChars, replaceFrom, if_pos hyes]
  rw [hmark] at hskip
  exact congrArg (value ++ ·) hskip

/-- What stands before the first occurrence of a character is determined. -/
theorem append_cons_inj {α : Type} {a : α} {xs ys us vs : List α} (hxs : a ∉ xs) (hys : a ∉ ys)
    (h : xs ++ a :: us = ys ++ a :: vs) : xs = ys ∧ us = vs := by
  induction xs generalizing ys with
  | nil =>
    cases ys with
    | nil => exact ⟨rfl, (List.cons.inj h).2⟩
    | cons y ys => exact absurd (List.cons.inj h).1 (List.ne_of_not_mem_cons hys)
  | cons x xs ih =>
    cases ys with
    | nil => exact absurd (List.cons.inj h).1.symm (List.ne_of_not_mem_cons hxs)
    | cons y ys =>
      obtain ⟨rfl, htail⟩ := List.cons.inj h
      obtain ⟨rfl, hus⟩ :=
        ih (List.not_mem_of_not_mem_cons hxs) (List.not_mem_of_not_mem_cons hys) htail
      exact ⟨rfl, hus⟩

/-- A placeholder does not begin where another one does. -/
theorem IsMark.not_prefix (h : IsMark mark) (hother : IsMark other) (hne : other ≠ mark) :
    ¬mark.toList <+: other.toList ++ rest := by
  obtain ⟨hmark, -, hname⟩ := h
  obtain ⟨hmark', -, hname'⟩ := hother
  generalize mark.toList.tail.dropLast = name at hmark hname
  generalize other.toList.tail.dropLast = name' at hmark' hname'
  rw [hmark, hmark', List.cons_append, List.cons_prefix_cons]
  rintro ⟨-, more, hmore⟩
  rw [List.append_assoc, List.append_assoc] at hmore
  obtain ⟨rfl, -⟩ := append_cons_inj hname hname' hmore
  exact hne (String.toList_inj.1 (hmark'.trans hmark.symm))

/-- Another placeholder stays. -/
theorem IsMark.replaceChars_other (h : IsMark mark) (hother : IsMark other) (hne : other ≠ mark) :
    replaceChars mark.toList value (other.toList ++ rest) =
      other.toList ++ replaceChars mark.toList value rest := by
  have hfront : ¬mark.toList <+: other.toList ++ rest := h.not_prefix hother hne
  obtain ⟨hmark, hopen, -⟩ := hother
  generalize other.toList.tail.dropLast = name at hmark hopen
  have hrest : '{' ∉ name ++ ['}'] := by simpa using hopen
  rw [hmark, List.cons_append] at hfront ⊢
  rw [replaceChars, replaceFrom, if_neg fun hfound => hfront (List.isPrefixOf_iff_prefix.1 hfound.2)]
  exact congrArg ('{' :: ·) (h.replaceChars_append hrest)

end Replacing

/-! ### Replacing all placeholders -/

namespace Template

variable {t : Template} {mark : String} {value : List Char} {values : String → Option String}

def withValue (values : String → Option String) (mark : String) (value : String) :
    String → Option String :=
  fun other => (values other).or (if other = mark then some value else none)

/-- Replacing a placeholder gives it a value. What other placeholders have been replaced by stays, as
there are no braces in it. -/
theorem replaceChars_fill (ht : t.IsClear) (hmark : IsMark mark)
    (hvalues : ∀ other ∈ t.marks, ∀ value ∈ values other, '{' ∉ value.toList) (value : String) :
    replaceChars mark.toList value.toList (t.fill (valueOf values)) =
      t.fill (valueOf (withValue values mark value)) := by
  induction t with
  | ending text =>
    have htext : replaceChars mark.toList value.toList (text.toList ++ []) = text.toList ++ [] :=
      hmark.replaceChars_append ht
    rwa [List.append_nil] at htext
  | slot before other rest ih =>
    obtain ⟨hbefore, hother, hrest⟩ := ht
    have hih := ih hrest fun other' hmem => hvalues other' (List.mem_cons_of_mem _ hmem)
    rw [fill, fill, hmark.replaceChars_append hbefore]
    refine congrArg (before.toList ++ ·) ?_
    -- A placeholder that has its value is text by now; an open one is replaced if it is the mark.
    cases hvalue : values other with
    | some known =>
      have hknown := hvalues other List.mem_cons_self known hvalue
      have hsame : valueOf values other = known ∧
          valueOf (withValue values mark value) other = known := by
        simp [valueOf, withValue, hvalue]
      rw [hsame.1, hsame.2, hmark.replaceChars_append hknown, hih]
    | none =>
      have hopen : valueOf values other = other := by simp [valueOf, hvalue]
      rw [hopen]
      by_cases hsame : other = mark
      · have hgiven : valueOf (withValue values mark value) other = value := by
          rw [valueOf, withValue, hvalue, if_pos hsame]
          rfl
        rw [hgiven, hsame, hmark.replaceChars_self, hih]
      · have hleft : valueOf (withValue values mark value) other = other := by
          simp [valueOf, withValue, hvalue, hsame]
        rw [hleft, hmark.replaceChars_other hother hsame, hih]

section

variable {entries : List (String × String)} {text : String}

def withEntries (values : String → Option String) (entries : List (String × String)) :
    String → Option String :=
  fun mark => (values mark).or (entries.lookup mark)

theorem withEntries_nil : withEntries values [] = values := by
  funext mark
  exact Option.or_none

/-- The first value that is given for a placeholder is the one that a look-up finds. -/
theorem withEntries_cons {entry : String × String} : withEntries values (entry :: entries) =
    withEntries (withValue values entry.1 entry.2) entries := by
  funext mark
  rw [withEntries, withEntries, withValue, Option.or_assoc, List.lookup_cons]
  by_cases hmark : mark = entry.1
  · simp [hmark]
  · simp [hmark, beq_eq_false_iff_ne.2 hmark]

theorem withEntries_append (early late : List (String × String)) :
    withEntries values (early ++ late) = withEntries (withEntries values early) late := by
  induction early generalizing values with
  | nil => rw [withEntries_nil, List.nil_append]
  | cons entry early ih => rw [List.cons_append, withEntries_cons, ih, ← withEntries_cons]

theorem foldl_replace (ht : t.IsClear) (hmarks : ∀ entry ∈ entries, IsMark entry.1)
    (hentries : ∀ entry ∈ entries, entry.1 ∈ t.marks → '{' ∉ entry.2.toList)
    (hvalues : ∀ other ∈ t.marks, ∀ value ∈ values other, '{' ∉ value.toList)
    (htext : text.toList = t.fill (valueOf values)) :
    (entries.foldl (fun text entry => replace text entry.1 entry.2) text).toList =
      t.fill (valueOf (withEntries values entries)) := by
  induction entries generalizing values text with
  | nil => rwa [withEntries_nil]
  | cons entry entries ih =>
    rw [List.forall_mem_cons] at hmarks hentries
    have hstep : (replace text entry.1 entry.2).toList =
        t.fill (valueOf (withValue values entry.1 entry.2)) := by
      rw [replace, String.toList_ofList, htext, replaceChars_fill ht hmarks.1 hvalues]
    have hvalues' : ∀ other ∈ t.marks, ∀ value ∈ withValue values entry.1 entry.2 other,
        '{' ∉ value.toList := by
      intro other hother value hvalue
      rw [withValue, Option.mem_def, Option.or_eq_some_iff] at hvalue
      rcases hvalue with hvalue | ⟨-, hvalue⟩
      · exact hvalues other hother value hvalue
      · split at hvalue
        next hsame =>
          rw [← Option.some.inj hvalue]
          exact hentries.1 (hsame ▸ hother)
        next => cases hvalue
    rw [List.foldl_cons, ih hmarks.2 hentries.2 hvalues' hstep, withEntries_cons]

/-- Replacing placeholders one after the other fills them in all at once. -/
theorem foldl_replace_written (ht : t.IsClear) (hmarks : ∀ entry ∈ entries, IsMark entry.1)
    (hentries : ∀ entry ∈ entries, entry.1 ∈ t.marks → '{' ∉ entry.2.toList)
    (htext : text.toList = t.written) :
    (entries.foldl (fun text entry => replace text entry.1 entry.2) text).toList =
      t.fill (valueOf fun mark => entries.lookup mark) := by
  have hnone : ∀ other ∈ t.marks, ∀ value ∈ (none : Option String), '{' ∉ value.toList :=
    fun _ _ _ hvalue => nomatch hvalue
  exact foldl_replace ht hmarks hentries hnone htext

end

/-! ### Reading the values back -/

/-- Texts that are filled in alike have the same values, if no value but the last has a backtick. -/
theorem fill_inj {v w : String → String} (ht : t.IsQuoted)
    (hv : ∀ mark ∈ t.marks.dropLast, backtick ∉ (v mark).toList)
    (hw : ∀ mark ∈ t.marks.dropLast, backtick ∉ (w mark).toList) (h : t.fill v = t.fill w) :
    ∀ mark ∈ t.marks, v mark = w mark := by
  induction t with
  | ending => exact fun _ hmark => nomatch hmark
  | slot before mark rest ih =>
    obtain ⟨hhead, hrest⟩ := ht
    have htail : (v mark).toList ++ rest.fill v = (w mark).toList ++ rest.fill w :=
      List.append_cancel_left h
    cases rest with
    | ending =>
      have hvalue := String.toList_inj.1 (List.append_cancel_right htail)
      exact List.forall_mem_singleton.2 hvalue
    | slot before' mark' rest' =>
      obtain ⟨tail, htail'⟩ := List.head?_eq_some_iff.1 hhead
      rw [lead] at htail'
      simp only [fill, htail', List.cons_append] at htail
      obtain ⟨hvalue, hmore⟩ := append_cons_inj (hv mark List.mem_cons_self)
        (hw mark List.mem_cons_self) htail
      have hsame : (slot before' mark' rest').fill v = (slot before' mark' rest').fill w := by
        simp only [fill, htail', List.cons_append, hmore]
      exact List.forall_mem_cons.2 ⟨String.toList_inj.1 hvalue,
        ih hrest (fun _ hmem => hv _ (List.mem_cons_of_mem _ hmem))
          (fun _ hmem => hw _ (List.mem_cons_of_mem _ hmem)) hsame⟩

/-- What is filled in stands behind the first backtick, if that is before all placeholders. -/
theorem takeWhile_fill (h : backtick ∈ t.lead.toList) (v : String → String) :
    (t.fill v).takeWhile (· != backtick) = t.lead.toList.takeWhile (· != backtick) := by
  cases t with
  | ending text => rfl
  | slot before mark rest =>
    have hstop : (before.toList.takeWhile (· != backtick)).length ≠ before.toList.length := by
      intro hlength
      have hall := List.takeWhile_eq_self_iff.1 ((List.takeWhile_prefix _).eq_of_length hlength)
      exact absurd (hall backtick h) (by decide)
    rw [fill, List.takeWhile_append, if_neg hstop, lead]

end Template

end SourceCorpus
