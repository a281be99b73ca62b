import SourceCorpus.Proofs.Pipeline.Attempts
import SourceCorpus.Proofs.Text.Pieces

/-!
What prompts show of the answers before. Main statement: whatever the generator does, a prompt shows the
questions and answers of all records of the file so far but those about graphs and docstrings, in the
order of the records. So what an earlier prompt shows is the beginning of what a later one shows.
-/

namespace SourceCorpus

/-- The question is about neither the graph nor the docstring of an object. -/
def Question.IsShown (q : Question) : Prop :=
  q.topic? ≠ some .codeGraph ∧ q.topic? ≠ some .docstring

instance (q : Question) : Decidable q.IsShown := inferInstanceAs (Decidable (_ ∧ _))

theorem Question.feedsPrompts_eq (q : Question) : q.feedsPrompts = decide q.IsShown := by
  rw [feedsPrompts]
  split <;> simp_all [IsShown]

def shownLines (made : List (Question × Record)) : String :=
  "\n".intercalate ((made.filter fun x => x.1.IsShown).map fun x =>
    "Q: " ++ x.2.instruction ++ " \nA: " ++ x.2.output)

/-! ### Records that are quoted -/

namespace Assembler

def InRange (s : Assembler) : Prop := ∀ place ∈ s.quoted, place < s.records.length

theorem inRange_empty : InRange .empty := nofun

variable {s : Assembler} {instruction input : String} {answer : Answer} {quoted : Bool}

theorem InRange.add (h : s.InRange) (instruction input : String) (answer : Answer) (quoted : Bool) :
    (s.add instruction input answer quoted).InRange := by
  rw [Assembler.add]
  cases Record.ofAnswer? instruction input answer with
  | none => exact h
  | some record =>
    have hkept : ∀ place ∈ s.quoted, place < (s.records ++ [record]).length := by
      intro place hplace
      rw [List.length_append]
      exact Nat.lt_add_right _ (h place hplace)
    intro place hplace
    dsimp only at hplace ⊢
    split at hplace
    · obtain hplace | hnew := List.mem_append.1 hplace
      · exact hkept place hplace
      · rw [List.mem_singleton.1 hnew, List.length_append]
        exact Nat.lt_succ_self _
    · exact hkept place hplace

/-- A record that is added leaves the quoted records as they are, and may be one of them. -/
theorem quotedRecords_add (h : s.InRange) (instruction input : String) (answer : Answer)
    (quoted : Bool) : (s.add instruction input answer quoted).quotedRecords = s.quotedRecords ++
      if quoted then (Record.ofAnswer? instruction input answer).toList else [] := by
  rw [add]
  cases Record.ofAnswer? instruction input answer with
  | none => cases quoted <;> exact (List.append_nil _).symm
  | some record =>
    have hkept : (s.quoted.filterMap fun place => (s.records ++ [record])[place]?) =
        s.quotedRecords :=
      List.filterMap_congr fun place hplace => List.getElem?_append_left (h place hplace)
    cases quoted with
    | false => exact hkept.trans (List.append_nil _).symm
    | true =>
      change ((s.quoted ++ [s.records.length]).filterMap fun place =>
        (s.records ++ [record])[place]?) = _
      rw [List.filterMap_append, hkept]
      simp

end Assembler

theorem codeQa_mono {records records' : List Record} (h : records <+: records') :
    (codeQa records).toList <+: (codeQa records').toList := by
  obtain ⟨more, rfl⟩ := h
  by_cases hmore : more = []
  · simp [hmore]
  by_cases hrecords : records = []
  · rw [hrecords]
    exact List.nil_prefix
  · rw [codeQa, codeQa, String.toList_intercalate, String.toList_intercalate,
      Text.intercalate_eq_joinWith, Text.intercalate_eq_joinWith, List.map_append, List.map_append,
      Text.joinWith_append _ (by simpa using hrecords) (by simpa using hmore), List.append_assoc]
    exact List.prefix_append _ _

/-! ### Questions in order -/

namespace Inquiry

def recordAt? (i : Inquiry) (a : Analysis) (s : Assembler × Tally) (x : Question × ObjectId) :
    Option Record :=
  Record.ofAnswer? (a.instruction x.1 x.2) (a.input x.2)
    (i.answer a x.1 x.2 (codeQa s.1.quotedRecords) s.2).1

/-- The records that are made when questions are asked one after the other, each with its question. An
answer that is dropped makes none. -/
def made (i : Inquiry) (a : Analysis) (s : Assembler × Tally) :
    List (Question × ObjectId) → List (Question × Record)
  | [] => []
  | x :: asked => (i.recordAt? a s x).toList.map (x.1, ·) ++ i.made a (i.ask a s x) asked

variable {i : Inquiry} {a : Analysis} {s : Assembler × Tally}

theorem attempts_append (i : Inquiry) (a : Analysis) (s : Assembler × Tally)
    (before after : List (Question × ObjectId)) : i.attempts a s (before ++ after) =
      i.attempts a s before ++ i.attempts a (before.foldl (i.ask a) s) after := by
  induction before generalizing s with
  | nil => rfl
  | cons x before ih =>
    rw [List.cons_append, attempts, ih, attempts, List.append_assoc, List.foldl_cons]

theorem inRange_ask (h : s.1.InRange) (i : Inquiry) (a : Analysis) (x : Question × ObjectId) :
    (i.ask a s x).1.InRange :=
  Assembler.InRange.add h _ _ _ _

theorem inRange_foldl_ask (h : s.1.InRange) (i : Inquiry) (a : Analysis)
    (asked : List (Question × ObjectId)) : (asked.foldl (i.ask a) s).1.InRange := by
  induction asked generalizing s with
  | nil => exact h
  | cons x asked ih => exact ih (inRange_ask h i a x)

theorem quotedRecords_ask (h : s.1.InRange) (i : Inquiry) (a : Analysis) (x : Question × ObjectId) :
    (i.ask a s x).1.quotedRecords = s.1.quotedRecords ++
      if x.1.feedsPrompts then (i.recordAt? a s x).toList else [] :=
  Assembler.quotedRecords_add h ..

theorem records_foldl_ask (i : Inquiry) (a : Analysis) (s : Assembler × Tally)
    (asked : List (Question × ObjectId)) : (asked.foldl (i.ask a) s).1.records =
      s.1.records ++ (i.made a s asked).map (·.2) := by
  induction asked generalizing s with
  | nil => exact (List.append_nil _).symm
  | cons x asked ih =>
    have hpair : ((i.recordAt? a s x).toList.map (x.1, ·)).map (·.2) =
        (i.recordAt? a s x).toList := by
      rw [List.map_map]
      exact List.map_id _
    rw [List.foldl_cons, ih, records_ask, made, List.map_append, hpair, List.append_assoc]
    rfl

/-- The quoted records are those whose questions are shown. -/
theorem quotedRecords_foldl_ask (h : s.1.InRange) (i : Inquiry) (a : Analysis)
    (asked : List (Question × ObjectId)) : (asked.foldl (i.ask a) s).1.quotedRecords =
      s.1.quotedRecords ++ ((i.made a s asked).filter fun x => x.1.IsShown).map (·.2) := by
  induction asked generalizing s with
  | nil => exact (List.append_nil _).symm
  | cons x asked ih =>
    rw [List.foldl_cons, ih (inRange_ask h i a x), quotedRecords_ask h, made, List.filter_append,
      List.map_append, List.append_assoc, Question.feedsPrompts_eq]
    cases i.recordAt? a s x with
    | none => simp
    | some record => by_cases hshown : x.1.IsShown <;> simp [hshown]

/-- What a prompt shows when it is made stands at the beginning of what later ones show. -/
theorem prefix_of_mem_attempts (h : s.1.InRange) {asked : List (Question × ObjectId)} {x : Attempt}
    (hx : x ∈ i.attempts a s asked) :
    (codeQa s.1.quotedRecords).toList <+: x.request.material.codeQa.toList := by
  induction asked generalizing s with
  | nil => cases hx
  | cons y asked ih =>
    obtain hx | hx := List.mem_append.1 hx
    · simp [codeQa_of_mem_attemptsAt hx]
    · refine List.IsPrefix.trans (codeQa_mono ?_) (ih (inRange_ask h i a y) hx)
      rw [quotedRecords_ask h]
      exact List.prefix_append _ _

theorem pairwise_attempts (h : s.1.InRange) (i : Inquiry) (a : Analysis)
    (asked : List (Question × ObjectId)) : (i.attempts a s asked).Pairwise fun x y =>
      x.request.material.codeQa.toList <+: y.request.material.codeQa.toList := by
  induction asked generalizing s with
  | nil => exact .nil
  | cons y asked ih =>
    have hown : ∀ x ∈ i.attemptsAt a s y, ∀ z ∈ i.attempts a s (y :: asked),
        x.request.material.codeQa.toList <+: z.request.material.codeQa.toList := by
      intro x hx z hz
      rw [codeQa_of_mem_attemptsAt hx]
      exact prefix_of_mem_attempts h hz
    refine List.pairwise_append.2 ⟨?_, ih (inRange_ask h i a y), fun x hx z hz => ?_⟩
    · exact List.pairwise_of_forall_mem_list fun x hx z hz =>
        hown x hx z (List.mem_append_left _ hz)
    · exact hown x hx z (List.mem_append_right _ hz)

/-- What the prompts for a file show when its questions are asked in this order: the records before
with their questions, graphs and docstrings left out. -/
structure ShowsEarlierAnswers (i : Inquiry) (a : Analysis) (t : Tally)
    (asked : List (Question × ObjectId)) : Prop where
  records : ∀ before, before <+: asked →
    (before.foldl (i.ask a) (.empty, t)).1.records = (i.made a (.empty, t) before).map (·.2)
  /-- The requests are all those that are made of the generator. -/
  requests : (asked.foldl (i.ask a) (.empty, t)).2 = t.after (i.attempts a (.empty, t) asked)
  /-- What a request shows is what the prompt of its call is built from. -/
  prompts : ∀ x ∈ i.attempts a (.empty, t) asked, ∀ n context, x.call? = some (n, context) →
    ∃ g, i.augmenter? = some g ∧ buildPrompt g.settings.promptTemplate x.request.query
      x.request.material g.settings.contextLength = .ok context.prompt
  shown : ∀ before x after, asked = before ++ x :: after →
    let s := before.foldl (i.ask a) (.empty, t)
    i.attempts a (.empty, t) asked = i.attempts a (.empty, t) before ++
        (i.attemptsAt a s x ++ i.attempts a (i.ask a s x) after) ∧
      (i.augmenter?.isSome → x.1.augment → (a.answer x.1 x.2).isPurpose →
        i.attemptsAt a s x ≠ []) ∧
      ∀ attempt ∈ i.attemptsAt a s x,
        attempt.request.material.codeQa = shownLines (i.made a (.empty, t) before)
  grows : (i.attempts a (.empty, t) asked).Pairwise fun x y =>
    x.request.material.codeQa.toList <+: y.request.material.codeQa.toList
  inRange : ∀ before, before <+: asked →
    let s := (before.foldl (i.ask a) (.empty, t)).1
    ∀ place ∈ s.quoted, place < s.records.length

theorem attemptsAt_ne_nil (haugmenter : i.augmenter?.isSome) {x : Question × ObjectId}
    (haugment : x.1.augment) (hpurpose : (a.answer x.1 x.2).isPurpose) :
    i.attemptsAt a s x ≠ [] := by
  obtain ⟨g, hg⟩ := Option.isSome_iff_exists.1 haugmenter
  rw [← Prod.eta x, attemptsAt_of_augment hg haugment hpurpose]
  exact List.cons_ne_nil _ _

/-- Prompts show the earlier answers of their file, in whatever order its questions are asked. -/
theorem showsEarlierAnswers (i : Inquiry) (a : Analysis) (t : Tally)
    (asked : List (Question × ObjectId)) : ShowsEarlierAnswers i a t asked where
  records := fun before _ => records_foldl_ask i a (.empty, t) before
  requests := tally_foldl_ask i a (.empty, t) asked
  prompts := fun x hx n context hcall => by
    obtain ⟨g, hg, k, r, heq⟩ := exists_of_mem_attempts hx
    rw [heq] at hcall
    refine ⟨g, hg, ?_⟩
    rw [heq, Augmenter.request_attempt]
    exact Augmenter.prompt_of_call? hcall
  shown := by
    rintro before x after rfl
    refine ⟨attempts_append .., fun h => attemptsAt_ne_nil h, fun attempt hattempt => ?_⟩
    rw [codeQa_of_mem_attemptsAt hattempt,
      quotedRecords_foldl_ask Assembler.inRange_empty, shownLines, codeQa]
    exact congrArg "\n".intercalate (List.map_map ..)
  grows := pairwise_attempts Assembler.inRange_empty i a asked
  inRange := fun before _ => inRange_foldl_ask Assembler.inRange_empty i a before

end Inquiry

end SourceCorpus
