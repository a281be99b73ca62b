import SourceCorpus.Proofs.Extraction.Descendants
import SourceCorpus.Proofs.Pipeline.Attempts

/-!
Explanations of nested objects along with the object that they are in. Main statement: whichever
requests fail, the record of an object has its own text and the sections of those nested objects that
could be explained, a request that fails costs its own section and no other, and the failures that a run
reports are the requests that failed.
-/

namespace SourceCorpus

/-! ### Requests with another generator -/

namespace Attempt

def number? (x : Attempt) : Option Nat := x.call?.map (·.1)

theorem length_call? {x : Attempt} {k : Nat} (h : x.number? = some k) :
    x.call?.toList.length = 1 := by
  obtain ⟨call, hcall, -⟩ := Option.map_eq_some_iff.1 h
  rw [hcall, Option.toList_some, List.length_singleton]

end Attempt

namespace Augmenter

variable {g g' : Augmenter} {n k : Nat} {r : PurposeRequest}

/-- The call has the next number, and without a call there is no text. -/
theorem number?_attempt (g : Augmenter) (n : Nat) (r : PurposeRequest) :
    (g.attempt n r).number? = some n ∨
      (g.attempt n r).number? = none ∧ (g.attempt n r).result.toOption = none := by
  rw [attempt]
  split
  next => exact .inr ⟨rfl, rfl⟩
  next => exact .inl rfl

theorem eq_of_number?_attempt (h : (g.attempt n r).number? = some k) : n = k := by
  obtain hnumber | ⟨hnone, -⟩ := g.number?_attempt n r
  · rw [hnumber] at h
    exact Option.some.inj h
  · rw [hnone] at h
    cases h

theorem contextOf_congr (hsettings : g'.settings = g.settings) (r : PurposeRequest)
    (prompt : String) : g'.contextOf r prompt = g.contextOf r prompt := by
  rw [contextOf, contextOf, hsettings]

/-- What comes of a request depends on the call that it leads to alone. -/
theorem attempt_congr (hsettings : g'.settings = g.settings)
    (hcall : (g.attempt n r).number? = some n → g'.generator n = g.generator n) :
    g'.attempt n r = g.attempt n r := by
  unfold attempt at hcall ⊢
  rw [hsettings]
  cases hprompt : buildPrompt g.settings.promptTemplate r.query r.material
      g.settings.contextLength with
  | error failure => rfl
  | ok prompt =>
    rw [hprompt] at hcall
    dsimp only
    rw [contextOf_congr hsettings, hcall rfl]

/-- Whether a request leads to a call does not depend on what comes of calls. -/
theorem call?_attempt (hsettings : g'.settings = g.settings) (n : Nat) (r : PurposeRequest) :
    (g'.attempt n r).call? = (g.attempt n r).call? := by
  rw [attempt, attempt, hsettings]
  cases buildPrompt g.settings.promptTemplate r.query r.material g.settings.contextLength with
  | error failure => rfl
  | ok prompt =>
    exact congrArg (fun context => some (n, context)) (contextOf_congr hsettings r prompt)

theorem length_attempts (g : Augmenter) (n : Nat) (requests : List PurposeRequest) :
    (g.attempts n requests).length = requests.length := by
  rw [← List.length_map (·.request), map_request_attempts]

theorem le_number {requests : List PurposeRequest} {x : Attempt} (hx : x ∈ g.attempts n requests)
    (hk : x.number? = some k) : n ≤ k := by
  induction requests generalizing n with
  | nil => cases hx
  | cons r requests ih =>
    obtain hfirst | hx := List.mem_cons.1 hx
    · rw [hfirst] at hk
      exact Nat.le_of_eq (eq_of_number?_attempt hk)
    · exact Nat.le_trans (Nat.le_add_right _ _) (ih hx)

/-- The calls are numbered in order. -/
theorem pairwise_number (g : Augmenter) (n : Nat) (requests : List PurposeRequest) :
    (g.attempts n requests).Pairwise fun x y =>
      ∀ k l, x.number? = some k → y.number? = some l → k < l := by
  induction requests generalizing n with
  | nil => exact .nil
  | cons r requests ih =>
    refine .cons (fun y hy k l hk hl => ?_) (ih _)
    have hle := le_number hy hl
    rw [Attempt.length_call? hk, eq_of_number?_attempt hk] at hle
    exact hle

theorem eq_of_number? {requests : List PurposeRequest} {j j' : Nat} {x y : Attempt}
    (hx : (g.attempts n requests)[j]? = some x) (hy : (g.attempts n requests)[j']? = some y)
    (hk : x.number? = some k) (hk' : y.number? = some k) : j = j' := by
  have hordered := List.pairwise_iff_getElem.1 (g.pairwise_number n requests)
  obtain ⟨hj, rfl⟩ := List.getElem?_eq_some_iff.1 hx
  obtain ⟨hj', rfl⟩ := List.getElem?_eq_some_iff.1 hy
  obtain hlt | heq | hgt := Nat.lt_trichotomy j j'
  · exact absurd (hordered j j' hj hj' hlt k k hk hk') (Nat.lt_irrefl k)
  · exact heq
  · exact absurd (hordered j' j hj' hj hgt k k hk' hk) (Nat.lt_irrefl k)

/-- A call that comes out in another way changes what comes of its own request at most. -/
theorem getElem?_attempts (hsettings : g'.settings = g.settings)
    (hsame : ∀ n ≠ k, g'.generator n = g.generator n) {requests : List PurposeRequest} {j : Nat}
    {x : Attempt} (hx : (g.attempts n requests)[j]? = some x) (hk : x.number? ≠ some k) :
    (g'.attempts n requests)[j]? = some x := by
  induction requests generalizing n j with
  | nil => cases hx
  | cons r requests ih =>
    rw [attempts] at hx
    rw [attempts, call?_attempt hsettings]
    cases j with
    | zero =>
      rw [List.getElem?_cons_zero] at hx ⊢
      rw [← Option.some.inj hx] at hk ⊢
      refine congrArg some (attempt_congr hsettings fun hn => hsame n ?_)
      rintro rfl
      exact hk hn
    | succ j =>
      rw [List.getElem?_cons_succ] at hx ⊢
      exact ih hx

end Augmenter

theorem eq_set_of_getElem? {α : Type} {l l' : List α} {j : Nat} (hlength : l'.length = l.length)
    (h : ∀ n ≠ j, l'[n]? = l[n]?) (hj : j < l'.length) : l' = l.set j l'[j] := by
  refine List.ext_getElem? fun n => ?_
  by_cases hn : n = j
  · subst hn
    rw [List.getElem?_set_self (hlength ▸ hj), List.getElem?_eq_getElem hj]
  · rw [h n hn, List.getElem?_set_ne (Ne.symm hn)]

/-! ### One question -/

/-- A question about the purpose of an object that is asked, along with those about nested objects,
when there are some records and calls already. -/
structure Asking where
  bank : QuestionBank
  generator : Augmenter
  model : CodeModel
  question : Question
  object : ObjectId
  before : Assembler × Tally

namespace Asking

def inquiry (x : Asking) : Inquiry := ⟨x.bank, some x.generator, true⟩

def analysis (x : Asking) : Analysis := .ofModel x.model

abbrev answered (x : Asking) : String := codeQa x.before.1.quotedRecords

def own (x : Asking) : Attempt :=
  x.generator.attempt x.before.2.calls.length
    (x.inquiry.requestFor x.analysis x.question x.object x.answered)

def nested (x : Asking) : List CodeObject := (x.model.descendantsOf x.object).take 32

def later (x : Asking) : List Attempt :=
  x.generator.attempts (x.before.2.calls.length + x.own.call?.toList.length)
    (x.nested.map (Inquiry.nestedRequest x.analysis x.question x.answered))

/-- The sections about nested objects, one for each that was explained. -/
def sections (x : Asking) : List (Option String) :=
  List.zipWith (fun child attempt =>
    attempt.result.toOption.map fun text => child.qualifiedName ++ ": " ++ text) x.nested x.later

def attempts (x : Asking) : List Attempt :=
  x.inquiry.attemptsAt x.analysis x.before (x.question, x.object)

def records (x : Asking) : List Record :=
  (x.inquiry.ask x.analysis x.before (x.question, x.object)).1.records

def recordsWith (x : Asking) (output : String) : List Record :=
  x.before.1.records ++
    [⟨x.analysis.instruction x.question x.object, x.analysis.input x.object, output⟩]

def withGenerator (x : Asking) (g : Augmenter) : Asking := { x with generator := g }

structure IsAugmentable (x : Asking) : Prop where
  augment : x.question.augment
  isPurpose : (x.analysis.answer x.question x.object).isPurpose

/-- The requests that are made and the record that comes of them, whichever of them fail. -/
structure IsolatesFailures (source : String) (x : Asking) : Prop where
  /-- All objects below the object, in the order of their definitions in the source. -/
  nested : ∃ below definitions, x.nested = below.take 32 ∧ x.model.AreBelow x.object below ∧
    definitions.Sublist (Syntax.parse source.toList).definitions ∧
    List.Forall₂ (Extraction.IsObjectOf source.toList) definitions below
  failed : ∀ failure, x.own.result = .error failure →
    x.attempts = [x.own] ∧ x.records = x.recordsWith Answer.placeholder
  explained : ∀ text, x.own.result = .ok text →
    x.attempts = x.own :: x.later ∧
      x.later.map (·.request) =
        x.nested.map (Inquiry.nestedRequest x.analysis x.question x.answered) ∧
      x.records = x.recordsWith ("\n\n".intercalate (text :: x.sections.reduceOption))
  /-- Another outcome of a call about a nested object changes the section of that object alone. -/
  isolated : ∀ text, x.own.result = .ok text → ∀ (j : Nat) (y : Attempt) (k : Nat),
    x.later[j]? = some y → y.number? = some k →
      ∀ g : Augmenter, g.settings = x.generator.settings →
        (∀ n ≠ k, g.generator n = x.generator.generator n) →
          ∃ other, (x.withGenerator g).records = x.recordsWith
            ("\n\n".intercalate (text :: (x.sections.set j other).reduceOption))

variable {x : Asking} {text : String}

theorem sections_eq (x : Asking) : x.sections = Inquiry.sectionsOf x.nested x.later := by
  have hsection : (fun (child : CodeObject) (y : Attempt) =>
      y.result.toOption.map fun text => child.qualifiedName ++ ": " ++ text) =
        fun child y => Inquiry.section? child y.result := by
    funext child y
    cases y.result <;> rfl
  rw [sections, hsection, Inquiry.sectionsOf]

theorem length_later (x : Asking) : x.later.length = x.nested.length := by
  rw [later, Augmenter.length_attempts, List.length_map]

theorem length_sections (x : Asking) : x.sections.length = x.nested.length := by
  rw [sections, List.length_zipWith, length_later, Nat.min_self]

theorem attempts_eq (h : x.IsAugmentable) :
    x.attempts = x.own :: if x.own.isFailed then [] else x.later :=
  Inquiry.attemptsAt_of_augment (i := x.inquiry) rfl h.augment h.isPurpose

/-- The text for the object, if it is explained itself. -/
def text? (x : Asking) : Option String :=
  x.own.result.toOption.map fun text => "\n\n".intercalate (text :: x.sections.reduceOption)

theorem explain_eq (x : Asking) :
    (x.inquiry.explain x.generator x.analysis x.question x.object x.answered x.before.2).1 =
      x.text? := by
  have hown : x.generator.attempt x.before.2.calls.length
      (x.inquiry.requestFor x.analysis x.question x.object x.answered) = x.own := rfl
  have hlater : x.inquiry.nestedAttempts x.generator x.analysis x.question x.object x.answered
      (x.before.2.calls.length + x.own.call?.toList.length) = x.later := rfl
  have hnested : x.inquiry.nestedTargets x.analysis x.object = x.nested := rfl
  rw [Inquiry.explain_eq]
  dsimp only
  rw [hown, hlater, hnested, text?, sections_eq]

theorem answer_eq (h : x.IsAugmentable) :
    (x.inquiry.answer x.analysis x.question x.object x.answered x.before.2).1 =
      (x.text?.map Answer.text).getD (.purpose Answer.placeholder) := by
  have hanswer := Inquiry.answer_of_augment (i := x.inquiry) rfl h.augment h.isPurpose x.answered
    x.before.2
  rw [hanswer, explain_eq, Analysis.answer_eq_of_isPurpose h.isPurpose]

theorem records_eq (h : x.IsAugmentable) : x.records = x.before.1.records ++
    (Record.ofAnswer? (x.analysis.instruction x.question x.object) (x.analysis.input x.object)
      ((x.text?.map Answer.text).getD (.purpose Answer.placeholder))).toList := by
  rw [records, records_ask]
  dsimp only
  rw [answer_eq h]

theorem generates_of_text? (h : x.text? = some text) : x.generator.Generates text := by
  have hgenerated := (explain_eq x).trans h
  rcases hexplain : x.inquiry.explain x.generator x.analysis x.question x.object x.answered
    x.before.2 with ⟨generated, t⟩
  rw [hexplain] at hgenerated
  obtain rfl : generated = some text := hgenerated
  exact Inquiry.generates_of_explain hexplain

theorem records_of_error (h : x.IsAugmentable) {failure : GenerationFailure}
    (hown : x.own.result = .error failure) : x.records = x.recordsWith Answer.placeholder := by
  rw [records_eq h, text?, hown]
  rfl

/-- A text that is made of replies is trimmed and not blank, so that its record is kept as it is. -/
theorem records_of_ok (h : x.IsAugmentable) (hown : x.own.result = .ok text) :
    x.records = x.recordsWith ("\n\n".intercalate (text :: x.sections.reduceOption)) := by
  have htext : x.text? = some ("\n\n".intercalate (text :: x.sections.reduceOption)) := by
    rw [text?, hown, Except.toOption, Option.map_some]
  rw [records_eq h, htext, Option.map_some, Option.getD_some,
    Record.ofAnswer?_text (generates_of_text? htext).isTrimmed, recordsWith, Option.toList_some]

/-- The objects below an object are those of definitions in the order of the source. -/
theorem exists_definitions {file source : String} {m : CodeModel}
    (h : Extraction.extract file source = .ok m) {id : ObjectId} {o : CodeObject}
    (ho : m.get? id = some o) : ∃ definitions : List Syntax.Tree,
      definitions.Sublist (Syntax.parse source.toList).definitions ∧
        List.Forall₂ (Extraction.IsObjectOf source.toList) definitions (m.descendantsOf id) := by
  have hfinds := Extraction.findsDescendants_of_isNested (Extraction.isNested_of_extract h)
    (Extraction.listsChildren_of_extract h)
  have hobjects : List.Forall₂ (Extraction.IsObjectOf source.toList)
      (Extraction.owners (Syntax.parse source.toList)) m.objects.toList :=
    (Extraction.haveKinds_of_extract h).imp fun _ _ hkind => hkind.1
  have hbehind := List.forall₂_drop (id + 1) hobjects
  rw [hfinds.interval id o ho, List.prefix_iff_eq_take.1 (List.takeWhile_prefix _)]
  refine ⟨_, ?_, List.forall₂_take _ hbehind⟩
  exact (List.take_sublist _ _).trans (List.drop_sublist id _)

/-- A request that came to a text has led to a call. -/
theorem number?_own (hown : x.own.result = .ok text) :
    x.own.number? = some x.before.2.calls.length := by
  obtain hnumber | ⟨-, hnone⟩ := x.generator.number?_attempt x.before.2.calls.length
    (x.inquiry.requestFor x.analysis x.question x.object x.answered)
  · exact hnumber
  · rw [← own, hown] at hnone
    cases hnone

section

variable {g : Augmenter} {k : Nat}

theorem own_withGenerator (hsettings : g.settings = x.generator.settings)
    (hsame : ∀ n ≠ k, g.generator n = x.generator.generator n)
    (hown : x.before.2.calls.length ≠ k) : (x.withGenerator g).own = x.own :=
  Augmenter.attempt_congr hsettings fun _ => hsame _ hown

theorem getElem?_later_withGenerator (hsettings : g.settings = x.generator.settings)
    (hsame : ∀ n ≠ k, g.generator n = x.generator.generator n)
    (hown : (x.withGenerator g).own = x.own) {j : Nat} {y : Attempt} (hy : x.later[j]? = some y)
    (hk : y.number? ≠ some k) : (x.withGenerator g).later[j]? = some y := by
  have hlater : (x.withGenerator g).later =
      g.attempts (x.before.2.calls.length + x.own.call?.toList.length)
        (x.nested.map (Inquiry.nestedRequest x.analysis x.question x.answered)) := by
    rw [later, hown]
    rfl
  rw [hlater]
  exact Augmenter.getElem?_attempts hsettings hsame hy hk

/-- The section of the nested object that the call is about is the only one that may change. -/
theorem sections_withGenerator (hsettings : g.settings = x.generator.settings)
    (hsame : ∀ n ≠ k, g.generator n = x.generator.generator n)
    (hown : (x.withGenerator g).own = x.own) {j : Nat} {y : Attempt} (hy : x.later[j]? = some y)
    (hk : y.number? = some k) :
    ∃ other, (x.withGenerator g).sections = x.sections.set j other := by
  have hlength : (x.withGenerator g).sections.length = x.sections.length := by
    rw [length_sections, length_sections]
    rfl
  have hj : j < (x.withGenerator g).sections.length := by
    rw [hlength, length_sections, ← length_later]
    exact (List.getElem?_eq_some_iff.1 hy).1
  refine ⟨_, eq_set_of_getElem? hlength (fun n hn => ?_) hj⟩
  have hnested : (x.withGenerator g).nested = x.nested := rfl
  rw [sections, sections, hnested, List.getElem?_zipWith, List.getElem?_zipWith]
  cases hz : x.later[n]? with
  | none =>
    have hbeyond : (x.withGenerator g).later[n]? = none := by
      rw [List.getElem?_eq_none_iff, length_later, hnested, ← length_later]
      exact List.getElem?_eq_none_iff.1 hz
    rw [hbeyond]
  | some z =>
    have hother : z.number? ≠ some k := fun hnumber => hn (Augmenter.eq_of_number? hz hy hnumber hk)
    rw [getElem?_later_withGenerator hsettings hsame hown hz hother]

theorem records_withGenerator (h : x.IsAugmentable) (hown : x.own.result = .ok text) {j : Nat}
    {y : Attempt} (hy : x.later[j]? = some y) (hk : y.number? = some k)
    (hsettings : g.settings = x.generator.settings)
    (hsame : ∀ n ≠ k, g.generator n = x.generator.generator n) :
    ∃ other, (x.withGenerator g).records = x.recordsWith
      ("\n\n".intercalate (text :: (x.sections.set j other).reduceOption)) := by
  have hcalled := Attempt.length_call? (number?_own hown)
  have hfirst : x.before.2.calls.length ≠ k := by
    have hle := Augmenter.le_number (List.mem_of_getElem? hy) hk
    omega
  have hsameOwn := own_withGenerator hsettings hsame hfirst
  have hownAgain : (x.withGenerator g).own.result = .ok text := by rw [hsameOwn, hown]
  have hagain : (x.withGenerator g).IsAugmentable := ⟨h.augment, h.isPurpose⟩
  obtain ⟨other, hother⟩ := sections_withGenerator hsettings hsame hsameOwn hy hk
  refine ⟨other, ?_⟩
  rw [records_of_ok hagain hownAgain, hother]
  rfl

end

theorem isolatesFailures_of_extract {file source : String}
    (hextract : Extraction.extract file source = .ok x.model) (h : x.IsAugmentable) :
    x.IsolatesFailures source where
  nested := by
    obtain ⟨o, ho⟩ : ∃ o, x.model.get? x.object = some o := Analysis.exists_of_isPurpose h.isPurpose
    obtain ⟨definitions, hsub, hobjects⟩ := exists_definitions hextract ho
    have hfinds := Extraction.findsDescendants_of_isNested (Extraction.isNested_of_extract hextract)
      (Extraction.listsChildren_of_extract hextract)
    exact ⟨_, definitions, rfl, hfinds.below x.object, hsub, hobjects⟩
  failed := fun failure hown => by
    refine ⟨?_, records_of_error h hown⟩
    rw [attempts_eq h, Attempt.isFailed, hown]
    rfl
  explained := fun text hown => by
    refine ⟨?_, ?_, records_of_ok h hown⟩
    · rw [attempts_eq h, Attempt.isFailed, hown]
      rfl
    · rw [later, Augmenter.map_request_attempts]
  isolated := fun text hown j y k hy hk g hsettings hsame =>
    records_withGenerator h hown hy hk hsettings hsame

end Asking

namespace Pipeline

/-- The failures that a run reports are the requests that failed, over all files together. -/
structure CountsFailures (σ : Type) [DatasetStore σ] (p : Pipeline) (files : List SourceFile) :
    Prop where
  inOrder : ∀ (s s' : σ × Tally) (r : Report), p.run s files = (.ok r, s') →
    r.generationFailures = (p.attempts s files).countP (·.isFailed)
  byWorkers : ∀ (s s' : σ) (turns : List Turn) (r : Report),
    p.runWorkers s files turns = (.ok r, s') →
      r.generationFailures = (p.attemptsOver (.ready s files) turns).countP (·.isFailed)

theorem countsFailures (σ : Type) [DatasetStore σ] (p : Pipeline) (files : List SourceFile) :
    p.CountsFailures σ files where
  inOrder s s' r hrun := by
    rw [run] at hrun
    dsimp only at hrun
    split at hrun
    · obtain rfl := Except.ok.inj (Prod.mk.inj hrun).1
      rw [reportOf, tally_processFiles]
      exact Nat.add_sub_cancel_left _ _
    · cases (Prod.mk.inj hrun).1
  byWorkers s s' turns r hrun := by
    rw [runWorkers] at hrun
    dsimp only at hrun
    split at hrun
    · obtain rfl := Except.ok.inj (Prod.mk.inj hrun).1
      rw [reportOf, work, failures_foldl_takeTurn]
      exact Nat.zero_add _
    · cases (Prod.mk.inj hrun).1

end Pipeline

/-- A request that fails costs one section at most, and is counted once. -/
theorem isolatesFailures {file source : String} {x : Asking}
    (hextract : Extraction.extract file source = .ok x.model) (h : x.IsAugmentable) :
    x.IsolatesFailures source ∧ ∀ (σ : Type) [DatasetStore σ] (p : Pipeline)
      (files : List SourceFile), p.CountsFailures σ files :=
  ⟨Asking.isolatesFailures_of_extract hextract h, fun σ _ => Pipeline.countsFailures σ⟩

/-- A class with a method, and a function behind it: the call about the method fails. -/
theorem isolatesFailures_of_method :
    let source := "class C:\n    def f(self): pass\ndef g(): pass\n"
    let q : Question := ⟨"file_purpose", "Why {name}?", .file, .purpose, true⟩
    let generator : Augmenter := ⟨⟨"{query}", 1000, 1000, true⟩, fun n _ =>
      ⟨if n = 2 then .failure (.provider "busy") else .text ("Call " ++ toString n ++ "."), 0⟩⟩
    ∃ x : Asking, x.question = q ∧ x.generator = generator ∧
      Extraction.extract "t.py" source = .ok x.model ∧ x.IsAugmentable ∧
      x.IsolatesFailures source ∧
      x.records = [⟨"Why t?", "",
        "Call 0.\n\nC: Call 1.\n\ng: Call 3."⟩] := by
  intro source q generator
  let x : Asking := ⟨⟨[q]⟩, generator,
    Extraction.modelOf "t.py" source.toList (Syntax.parse source.toList), q, CodeModel.moduleId,
      (.empty, .zero)⟩
  have hextract : Extraction.extract "t.py" source = .ok x.model :=
    Extraction.extract_eq_ok_iff.2 ⟨by decide +kernel, rfl⟩
  have haugmentable : x.IsAugmentable := ⟨rfl, by decide +kernel⟩
  have hisolates := isolatesFailures hextract haugmentable
  have hfinds := Extraction.findsDescendants_of_isNested (Extraction.isNested_of_extract hextract)
    (Extraction.listsChildren_of_extract hextract)
  have hnested : x.nested = x.model.objects.toList.tail.take 32 :=
    congrArg (List.take 32) hfinds.ofModule
  have hsections : x.sections = [some "C: Call 1.", none, some "g: Call 3."] := by
    rw [Asking.sections, Asking.later, hnested]
    decide +kernel
  have hown : x.own.result = .ok "Call 0." := by decide +kernel
  refine ⟨x, rfl, rfl, hextract, haugmentable, hisolates.1, ?_⟩
  rw [(hisolates.1.explained _ hown).2.2, hsections]
  decide +kernel

end SourceCorpus
