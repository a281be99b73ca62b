import Mathlib.Data.List.ReduceOption
import SourceCorpus.Proofs.Pipeline.Incremental

/-!
Runs with a generator, next to the same runs without one. Main statement: whatever the generator does,
a file gets the same records about the same objects, its graph and its fingerprint, and only the
placeholders for purposes that may be augmented are replaced, by texts that are not blank.
-/

namespace SourceCorpus

open Text

/-! ### What is generated -/

/-- The text is what was left by cleaning a reply that came in time. -/
def Augmenter.Replies (g : Augmenter) (text : String) : Prop :=
  ∃ n context, (Augmenter.receive context.timeoutMilliseconds (g.generator n context)).bind
    Response.clean = .ok text

/-- The text is a reply, and behind it the replies about nested objects under their names. -/
def Augmenter.Generates (g : Augmenter) (text : String) : Prop :=
  ∃ own sections, g.Replies own ∧ text = "\n\n".intercalate (own :: sections) ∧
    ∀ part ∈ sections, ∃ name reply, g.Replies reply ∧ part = name ++ ": " ++ reply

/-- The record of a run with a generator is about what that of a run without one is about, and has
another output at most where that one has a placeholder. -/
structure Replaces (g : Augmenter) (q : Question) (plain r : Record) : Prop where
  instruction : r.instruction = plain.instruction
  input : r.input = plain.input
  output : q.isAugmentable = false → r.output = plain.output
  purpose : q.isAugmentable → plain.output = Answer.placeholder ∧
    (r.output = Answer.placeholder ∨ g.Generates r.output ∧ isAllBlank r.output.toList = false)

def Analysis.recordOf? (a : Analysis) (asked : Question × ObjectId) : Option Record :=
  Record.ofAnswer? (a.instruction asked.1 asked.2) (a.input asked.2) (a.answer asked.1 asked.2)

structure KeepsRecords (g : Augmenter) (a : Analysis) (asked : List (Question × ObjectId))
    (plain records : List Record) : Prop where
  plain_eq : plain = asked.filterMap a.recordOf?
  replaced : ∃ answered, records = answered.reduceOption ∧
    List.Forall₂ (fun x r => Option.Rel (Replaces g x.1) (a.recordOf? x) r) asked answered
  /-- The records are about the same objects and come in the same order. -/
  asked_eq : records.map (fun r => (r.instruction, r.input)) =
    plain.map fun r => (r.instruction, r.input)

namespace Augmenter

variable {g : Augmenter} {text : String}

theorem replies_of_explain {r : PurposeRequest} {t t' : Tally}
    (h : g.explain r t = (.ok text, t')) : g.Replies text := by
  rw [explain, request] at h
  -- Without a prompt nothing is asked, and a reply that cleaning refuses is no text.
  cases hprompt : buildPrompt g.settings.promptTemplate r.query r.material
      g.settings.contextLength with
  | error failure =>
    rw [hprompt] at h
    cases h
  | ok prompt =>
    rw [hprompt] at h
    let context := g.contextOf r prompt
    cases hreply : (receive context.timeoutMilliseconds
        (g.generator t.calls.length context)).bind Response.clean with
    | error failure =>
      simp only [context, hreply] at h
      cases h
    | ok reply =>
      simp only [context, hreply] at h
      cases h
      exact ⟨_, context, hreply⟩

theorem isTrimmed_of_clean {raw : String} (h : Response.clean raw = .ok text) :
    IsTrimmed text.toList := by
  rw [Response.clean] at h
  split at h
  · cases h
  · next hne =>
    obtain rfl := Except.ok.inj h
    rw [String.toList_ofList]
    exact isTrimmed_trimChars hne

theorem Replies.isTrimmed (h : g.Replies text) : IsTrimmed text.toList := by
  obtain ⟨n, context, hreply⟩ := h
  cases hraw : receive context.timeoutMilliseconds (g.generator n context) with
  | error failure =>
    rw [hraw] at hreply
    cases hreply
  | ok raw =>
    rw [hraw] at hreply
    exact isTrimmed_of_clean hreply

theorem Generates.isTrimmed (h : g.Generates text) : IsTrimmed text.toList := by
  obtain ⟨own, sections, hown, rfl, hsections⟩ := h
  have htrimmed : IsTrimmed own.toList := hown.isTrimmed
  clear hown
  induction sections generalizing own with
  | nil => exact htrimmed
  | cons part sections ih =>
    rw [List.forall_mem_cons] at hsections
    obtain ⟨⟨name, reply, hreply, rfl⟩, hsections⟩ := hsections
    -- The separator and the part are taken over by the text in front of them.
    refine ih (own ++ "\n\n" ++ (name ++ ": " ++ reply)) hsections ?_
    have happend := htrimmed.append ("\n\n" ++ name ++ ": ").toList hreply.isTrimmed
    simpa only [String.toList_append, List.append_assoc] using happend

end Augmenter

/-! ### Answers and records -/

namespace Inquiry

variable {i : Inquiry} {g : Augmenter} {a : Analysis} {q : Question} {id : ObjectId}
  {answered text : String} {t t' : Tally}

theorem mem_explainNested {children : List CodeObject} {part : String}
    (h : part ∈ (explainNested g a q answered children t).1) :
    ∃ name reply, g.Replies reply ∧ part = name ++ ": " ++ reply := by
  induction children generalizing t with
  | nil => cases h
  | cons child children ih =>
    rw [explainNested] at h
    cases hexplain : g.explain (nestedRequest a q answered child) t with
    | mk result t₁ =>
      rw [hexplain] at h
      dsimp only at h
      rcases List.mem_append.1 h with h | h
      · cases result with
        | error failure => cases h
        | ok reply =>
          rw [section?, Option.toList_some, List.mem_singleton] at h
          exact ⟨child.qualifiedName, reply, Augmenter.replies_of_explain hexplain, h⟩
      · exact ih h

theorem generates_of_explain (h : i.explain g a q id answered t = (some text, t')) :
    g.Generates text := by
  rw [explain] at h
  split at h
  · cases h
  · next own t₁ hown =>
    cases h
    exact ⟨own, _, Augmenter.replies_of_explain hown, rfl, fun part => mem_explainNested⟩

/-- An answer is that of a run without a generator, or a generated text in place of a purpose. -/
theorem answer_eq (h : i.augmenter? = some g) (a : Analysis) (q : Question) (id : ObjectId)
    (answered : String) (t : Tally) : (i.answer a q id answered t).1 = a.answer q id ∨
    (q.augment ∧ (a.answer q id).isPurpose ∧
      ∃ text, g.Generates text ∧ (i.answer a q id answered t).1 = .text text) := by
  rw [answer, h]
  dsimp only
  split
  next hpurpose =>
    rw [Bool.and_eq_true] at hpurpose
    cases hexplain : i.explain g a q id answered t with
    | mk generated t₁ => cases generated with
      | none => exact .inl rfl
      | some text =>
        exact .inr ⟨hpurpose.1, hpurpose.2, text, generates_of_explain hexplain, rfl⟩
  next => exact .inl rfl

end Inquiry

theorem Record.ofAnswer?_text {instruction input text : String} (h : IsTrimmed text.toList) :
    Record.ofAnswer? instruction input (.text text) = some ⟨instruction, input, text⟩ := by
  have htrim : Text.trim text = text := by rw [Text.trim, h.trimChars_eq, String.ofList_toList]
  have hne : text ≠ "" := by
    rintro rfl
    obtain ⟨c, hc, -⟩ := h.head
    cases hc
  rw [ofAnswer?, Answer.output?, Option.bind_some, htrim, if_neg hne]

namespace Analysis

variable {a : Analysis} {q : Question} {id : ObjectId}

theorem isPurpose_of_answer (h : (a.answer q id).isPurpose) : q.isPurpose := by
  unfold answer answerFor at h
  repeat' split at h
  all_goals first | assumption | cases h

theorem exists_of_isPurpose (h : (a.answer q id).isPurpose) : ∃ o, a.model.get? id = some o := by
  rw [answer] at h
  split at h
  next o ho => exact ⟨o, ho⟩
  next => cases h

/-- A question about a purpose is answered by the placeholder, if it is answered at all. -/
theorem answer_of_isPurpose (a : Analysis) (id : ObjectId) (hq : q.isPurpose) :
    a.answer q id = .purpose Answer.placeholder ∨ (a.answer q id).output? = none := by
  unfold answer answerFor
  repeat' split
  all_goals first | exact .inr rfl | exact .inl rfl

theorem answer_eq_of_isPurpose (h : (a.answer q id).isPurpose) :
    a.answer q id = .purpose Answer.placeholder := by
  refine (answer_of_isPurpose a id (isPurpose_of_answer h)).resolve_right fun hnone => ?_
  cases hcase : a.answer q id <;> rw [hcase] at hnone h <;> contradiction

theorem recordOf?_of_purpose (h : a.answer q id = .purpose Answer.placeholder) :
    a.recordOf? (q, id) = some ⟨a.instruction q id, a.input id, Answer.placeholder⟩ := by
  rw [recordOf?, h]
  rfl

theorem output_of_isPurpose {r : Record} (h : a.recordOf? (q, id) = some r) (hq : q.isPurpose) :
    r.output = Answer.placeholder := by
  rcases answer_of_isPurpose a id hq with hanswer | hnone
  · rw [recordOf?_of_purpose hanswer] at h
    exact congrArg Record.output (Option.some.inj h).symm
  · rw [recordOf?, Record.ofAnswer?, hnone] at h
    cases h

end Analysis

section Records

variable {i : Inquiry} {g : Augmenter} {a : Analysis} {q : Question} {id : ObjectId}

theorem Replaces.refl {r : Record} (h : a.recordOf? (q, id) = some r) : Replaces g q r r := by
  refine ⟨rfl, rfl, fun _ => rfl, fun hq => ?_⟩
  rw [Question.isAugmentable, Bool.and_eq_true] at hq
  have houtput := Analysis.output_of_isPurpose h hq.1
  exact ⟨houtput, .inl houtput⟩

theorem isAllBlank_of_isTrimmed {cs : List Char} (h : IsTrimmed cs) : isAllBlank cs = false := by
  obtain ⟨c, hc, hblank⟩ := h.head
  rw [isAllBlank, List.all_eq_false]
  exact ⟨c, List.mem_of_mem_head? hc, by simp [hblank]⟩

/-- One question with a generator and without. -/
theorem rel_ofAnswer? (h : i.augmenter? = some g) (answered : String) (t : Tally) :
    Option.Rel (Replaces g q) (a.recordOf? (q, id))
      (Record.ofAnswer? (a.instruction q id) (a.input id) (i.answer a q id answered t).1) := by
  rcases Inquiry.answer_eq h a q id answered t with heq | ⟨haugment, hpurpose, text, htext, heq⟩
  · rw [heq]
    change Option.Rel _ (a.recordOf? (q, id)) (a.recordOf? (q, id))
    cases hr : a.recordOf? (q, id) with
    | none => exact .none
    | some r => exact .some (.refl hr)
  -- A reply is trimmed and not blank, so that a record with it is never dropped.
  · have hq := Analysis.isPurpose_of_answer hpurpose
    have hanswer := Analysis.answer_eq_of_isPurpose hpurpose
    rw [Analysis.recordOf?_of_purpose hanswer, heq, Record.ofAnswer?_text htext.isTrimmed]
    refine .some ⟨rfl, rfl, fun hnot => ?_, fun _ => ⟨rfl, .inr ⟨htext, ?_⟩⟩⟩
    · rw [Question.isAugmentable, hq, haugment] at hnot
      cases hnot
    · exact isAllBlank_of_isTrimmed htext.isTrimmed

theorem Assembler.records_add (s : Assembler) (instruction input : String) (answer : Answer)
    (quoted : Bool) : (s.add instruction input answer quoted).records =
      s.records ++ (Record.ofAnswer? instruction input answer).toList := by
  rw [add]
  cases Record.ofAnswer? instruction input answer with
  | none => exact (List.append_nil _).symm
  | some r => rfl

theorem records_ask (i : Inquiry) (a : Analysis) (s : Assembler × Tally)
    (x : Question × ObjectId) : (i.ask a s x).1.records = s.1.records ++
      (Record.ofAnswer? (a.instruction x.1 x.2) (a.input x.2)
        (i.answer a x.1 x.2 (codeQa s.1.quotedRecords) s.2).1).toList :=
  Assembler.records_add ..

theorem reduceOption_cons {α : Type} (o : Option α) (l : List (Option α)) :
    (o :: l).reduceOption = o.toList ++ l.reduceOption := by
  cases o <;> rfl

/-- A run over questions adds for each a record that is related to the one without a generator. -/
theorem records_foldl_ask (h : i.augmenter? = some g) (s : Assembler × Tally)
    (asked : List (Question × ObjectId)) :
    ∃ answered, (asked.foldl (i.ask a) s).1.records = s.1.records ++ answered.reduceOption ∧
      List.Forall₂ (fun x r => Option.Rel (Replaces g x.1) (a.recordOf? x) r) asked answered := by
  induction asked generalizing s with
  | nil => exact ⟨[], (List.append_nil _).symm, .nil⟩
  | cons x asked ih =>
    obtain ⟨answered, hrecords, hreplaced⟩ := ih (i.ask a s x)
    refine ⟨_ :: answered, ?_, .cons (rel_ofAnswer? h (codeQa s.1.quotedRecords) s.2) hreplaced⟩
    rw [List.foldl_cons, hrecords, records_ask, List.append_assoc, reduceOption_cons]

theorem records_foldl_collect (s : Assembler) (asked : List (Question × ObjectId)) :
    (asked.foldl a.collect s).records = s.records ++ asked.filterMap a.recordOf? := by
  induction asked generalizing s with
  | nil => exact (List.append_nil _).symm
  | cons x asked ih =>
    have hstep : (a.collect s x).records = s.records ++ (a.recordOf? x).toList :=
      Assembler.records_add ..
    rw [List.foldl_cons, ih, hstep, List.append_assoc, List.filterMap_cons]
    cases a.recordOf? x <;> rfl

theorem asked_eq_of_replaced {asked : List (Question × ObjectId)} {answered : List (Option Record)}
    (h : List.Forall₂ (fun x r => Option.Rel (Replaces g x.1) (a.recordOf? x) r) asked answered) :
    answered.reduceOption.map (fun r => (r.instruction, r.input)) =
      (asked.filterMap a.recordOf?).map fun r => (r.instruction, r.input) := by
  induction h with
  | nil => rfl
  | @cons x r asked answered hr _ ih =>
    rw [List.filterMap_cons, reduceOption_cons, List.map_append, ih]
    generalize a.recordOf? x = plain at hr ⊢
    cases hr with
    | none => rfl
    | some hr => rw [Option.toList_some, List.map_singleton, hr.instruction, hr.input]; rfl

theorem keepsRecords (h : i.augmenter? = some g) (a : Analysis) (t : Tally) :
    KeepsRecords g a (i.questionsFor a) ((i.questionsFor a).filterMap a.recordOf?)
      (i.records a t).1 := by
  obtain ⟨answered, hrecords, hreplaced⟩ :=
    records_foldl_ask (a := a) h (.empty, t) (i.questionsFor a)
  have hall : (i.records a t).1 = answered.reduceOption := hrecords
  rw [hall]
  exact ⟨rfl, ⟨answered, rfl, hreplaced⟩, asked_eq_of_replaced hreplaced⟩

theorem records_of_none (h : i.augmenter? = none) (a : Analysis) (t : Tally) :
    (i.records a t).1 = (i.questionsFor a).filterMap a.recordOf? := by
  have hall : (i.records a t).1 = ((i.questionsFor a).foldl (i.ask a) (.empty, t)).1.records := rfl
  rw [hall, Inquiry.foldl_ask_of_none h]
  exact records_foldl_collect .empty (i.questionsFor a)

end Records

/-! ### Files -/

/-- What two runs make of a file, and of the stores before them, if only the latter run has a
generator. -/
inductive SameButGenerated {σ : Type} [DatasetStore σ] (g : Augmenter) (f : SourceFile)
    (asked : Analysis → List (Question × ObjectId)) (s s' : σ) :
    FileOutcome × σ → FileOutcome × σ → Prop where
  /-- Neither run stores anything. -/
  | skipped {e : ParseError} (h : Extraction.extract f.id f.source = .error e) :
      SameButGenerated g f asked s s' (⟨f.id, .skipped e, []⟩, s) (⟨f.id, .skipped e, []⟩, s')
  | generated {m : CodeModel} {plain augmented : Artifact}
      (h : Extraction.extract f.id f.source = .ok m) (file : augmented.file = plain.file)
      (graph : augmented.graph = plain.graph) (fingerprint : augmented.fingerprint = plain.fingerprint)
      (records : KeepsRecords g (.ofModel m) (asked (.ofModel m)) plain.records augmented.records) :
      SameButGenerated g f asked s s'
        (⟨f.id, .generated, plain.records⟩, (DatasetStore.save s plain).1)
        (⟨f.id, .generated, augmented.records⟩, (DatasetStore.save s' augmented).1)

theorem Inquiry.artifact_of_ok {i : Inquiry} {f : SourceFile} {m : CodeModel} (t : Tally)
    (h : Extraction.extract f.id f.source = .ok m) :
    i.artifact f t = (.ok (i.artifactOf f m t).1, (i.artifactOf f m t).2) := by
  rw [artifact, h]

/-- A generator changes the outputs of purposes that may be augmented and nothing else. -/
theorem sameButGenerated_processFile {σ : Type} [DatasetStore σ] (bank : QuestionBank)
    (detailed : Bool) (v : Validity) (g : Augmenter) (s s' : σ) (t t' : Tally) (f : SourceFile) :
    let plain : Pipeline := ⟨⟨bank, none, detailed⟩, v, false⟩
    let augmented : Pipeline := ⟨⟨bank, some g, detailed⟩, v, false⟩
    SameButGenerated g f plain.inquiry.questionsFor s s'
      ((plain.processFile (s, t) f).1, (plain.processFile (s, t) f).2.1)
      ((augmented.processFile (s', t') f).1, (augmented.processFile (s', t') f).2.1) := by
  intro plain augmented
  cases hextract : Extraction.extract f.id f.source with
  | error e =>
    rw [Pipeline.processFile_of_error rfl hextract, Pipeline.processFile_of_error rfl hextract]
    exact .skipped hextract
  | ok m =>
    rw [Pipeline.processFile_of_artifact rfl (Inquiry.artifact_of_ok t hextract),
      Pipeline.processFile_of_artifact rfl (Inquiry.artifact_of_ok t' hextract)]
    refine .generated hextract rfl rfl rfl ?_
    have hplain : (plain.inquiry.artifactOf f m t).1.records = _ :=
      records_of_none (i := plain.inquiry) rfl (.ofModel m) t
    rw [hplain]
    exact keepsRecords (i := augmented.inquiry) rfl (.ofModel m) t'

end SourceCorpus
