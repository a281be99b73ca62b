import SourceCorpus.Proofs.Pipeline.Turns

/-!
The requests that are made of a generator, in order. Main statements: the calls and the failures that a
tally gains are those of the requests, over a question, a file, a run and the turns of workers.
-/

namespace SourceCorpus

/-- A request that was made of a generator, and what came of it. -/
structure Attempt where
  request : PurposeRequest
  /-- The number of the call and what the generator got. A prompt that is too long makes no call. -/
  call? : Option (Nat × GenerationContext)
  result : Except GenerationFailure String

def Attempt.isFailed (x : Attempt) : Bool := !x.result.isOk

namespace Tally

def after (t : Tally) (attempts : List Attempt) : Tally :=
  ⟨t.calls ++ (attempts.filterMap (·.call?)).map (·.2),
    t.failures + attempts.countP (·.isFailed)⟩

@[simp] theorem after_nil (t : Tally) : t.after [] = t := by simp [after]

theorem after_append (t : Tally) (xs ys : List Attempt) :
    t.after (xs ++ ys) = (t.after xs).after ys := by
  simp [after, List.append_assoc, Nat.add_assoc]

theorem after_singleton_after (t : Tally) (x : Attempt) (xs : List Attempt) :
    (t.after [x]).after xs = t.after (x :: xs) :=
  (after_append t [x] xs).symm

theorem after_singleton (t : Tally) (x : Attempt) :
    t.after [x] = ⟨t.calls ++ x.call?.toList.map (·.2), t.failures + x.isFailed.toNat⟩ := by
  cases hcall : x.call? <;> cases hfailed : x.isFailed <;> simp [after, hcall, hfailed]

theorem length_calls_after (t : Tally) (x : Attempt) :
    (t.after [x]).calls.length = t.calls.length + x.call?.toList.length := by
  cases h : x.call? <;> simp [after, h]

end Tally

namespace Augmenter

def attempt (g : Augmenter) (n : Nat) (r : PurposeRequest) : Attempt :=
  match buildPrompt g.settings.promptTemplate r.query r.material g.settings.contextLength with
  | .error failure => ⟨r, none, .error failure⟩
  | .ok prompt =>
    let context := g.contextOf r prompt
    ⟨r, some (n, context),
      (receive context.timeoutMilliseconds (g.generator n context)).bind Response.clean⟩

/-- What comes of requests, one after the other, when `n` calls were made before. -/
def attempts (g : Augmenter) (n : Nat) : List PurposeRequest → List Attempt
  | [] => []
  | r :: requests =>
    let x := g.attempt n r
    x :: g.attempts (n + x.call?.toList.length) requests

variable {g : Augmenter}

theorem request_attempt (g : Augmenter) (n : Nat) (r : PurposeRequest) :
    (g.attempt n r).request = r := by
  unfold attempt
  split <;> rfl

theorem map_request_attempts (g : Augmenter) (n : Nat) (requests : List PurposeRequest) :
    (g.attempts n requests).map (·.request) = requests := by
  induction requests generalizing n with
  | nil => rfl
  | cons r requests ih => rw [attempts, List.map_cons, ih, request_attempt]

theorem exists_of_mem_attempts {n : Nat} {requests : List PurposeRequest} {x : Attempt}
    (hx : x ∈ g.attempts n requests) : ∃ k, ∃ r ∈ requests, x = g.attempt k r := by
  induction requests generalizing n with
  | nil => cases hx
  | cons r requests ih =>
    obtain hfirst | hx := List.mem_cons.1 hx
    · exact ⟨n, r, List.mem_cons_self, hfirst⟩
    · obtain ⟨k, r', hr', heq⟩ := ih hx
      exact ⟨k, r', List.mem_cons_of_mem r hr', heq⟩

/-- A call is made with the prompt that is built from its request. -/
theorem prompt_of_call? {n k : Nat} {r : PurposeRequest} {context : GenerationContext}
    (h : (g.attempt n r).call? = some (k, context)) :
    buildPrompt g.settings.promptTemplate r.query r.material g.settings.contextLength =
      .ok context.prompt := by
  rw [attempt] at h
  split at h
  next => cases h
  next prompt hprompt =>
    cases h
    exact hprompt

theorem request_eq (g : Augmenter) (r : PurposeRequest) (t : Tally) :
    g.request r t =
      let x := g.attempt t.calls.length r
      (x.result, ⟨t.calls ++ x.call?.toList.map (·.2), t.failures⟩) := by
  rw [request, attempt]
  cases buildPrompt g.settings.promptTemplate r.query r.material g.settings.contextLength with
  | error failure => simp
  | ok prompt => rfl

theorem explain_eq (g : Augmenter) (r : PurposeRequest) (t : Tally) :
    g.explain r t =
      let x := g.attempt t.calls.length r
      (x.result, t.after [x]) := by
  rw [explain, request_eq]
  generalize g.attempt t.calls.length r = x
  obtain ⟨r, call?, failure | text⟩ := x <;> cases call? <;> rfl

end Augmenter

namespace Inquiry

/-! ### One question -/

def sectionsOf (children : List CodeObject) (attempts : List Attempt) : List (Option String) :=
  List.zipWith (fun child x => section? child x.result) children attempts

theorem sectionsOf_cons (child : CodeObject) (children : List CodeObject) (x : Attempt)
    (xs : List Attempt) :
    sectionsOf (child :: children) (x :: xs) = section? child x.result :: sectionsOf children xs :=
  rfl

def nestedAttempts (i : Inquiry) (g : Augmenter) (a : Analysis) (q : Question) (id : ObjectId)
    (answered : String) (n : Nat) : List Attempt :=
  g.attempts n ((i.nestedTargets a id).map (nestedRequest a q answered))

/-- The requests about an object. If the first fails, none follows. -/
def attemptsFor (i : Inquiry) (g : Augmenter) (a : Analysis) (q : Question) (id : ObjectId)
    (answered : String) (n : Nat) : List Attempt :=
  let own := g.attempt n (i.requestFor a q id answered)
  own :: if own.isFailed then []
    else i.nestedAttempts g a q id answered (n + own.call?.toList.length)

def attemptsAt (i : Inquiry) (a : Analysis) (s : Assembler × Tally) (asked : Question × ObjectId) :
    List Attempt :=
  match i.augmenter? with
  | none => []
  | some g =>
    if asked.1.augment && (a.answer asked.1 asked.2).isPurpose then
      i.attemptsFor g a asked.1 asked.2 (codeQa s.1.quotedRecords) s.2.calls.length
    else []

variable {i : Inquiry} {g : Augmenter} {a : Analysis} {q : Question} {id : ObjectId}
  {answered : String}

theorem explainNested_eq (g : Augmenter) (a : Analysis) (q : Question) (answered : String)
    (children : List CodeObject) (t : Tally) :
    explainNested g a q answered children t =
      let xs := g.attempts t.calls.length (children.map (nestedRequest a q answered))
      ((sectionsOf children xs).reduceOption, t.after xs) := by
  induction children generalizing t with
  | nil => exact Prod.ext rfl (Tally.after_nil t).symm
  | cons child children ih =>
    rw [explainNested, Augmenter.explain_eq]
    dsimp only
    rw [ih, Tally.length_calls_after]
    dsimp only
    rw [Tally.after_singleton_after, List.map_cons, Augmenter.attempts, sectionsOf_cons,
      reduceOption_cons]

/-- The text for an object: if it is explained itself, then with the sections about what is nested in
it. -/
theorem explain_eq (i : Inquiry) (g : Augmenter) (a : Analysis) (q : Question) (id : ObjectId)
    (answered : String) (t : Tally) :
    i.explain g a q id answered t =
      let own := g.attempt t.calls.length (i.requestFor a q id answered)
      (own.result.toOption.map fun text => "\n\n".intercalate (text ::
          (sectionsOf (i.nestedTargets a id) (i.nestedAttempts g a q id answered
            (t.calls.length + own.call?.toList.length))).reduceOption),
        t.after (i.attemptsFor g a q id answered t.calls.length)) := by
  rw [explain, Augmenter.explain_eq, attemptsFor]
  dsimp only
  generalize hown : g.attempt t.calls.length (i.requestFor a q id answered) = own
  cases hresult : own.result with
  | error failure =>
    have hfailed : own.isFailed = true := by rw [Attempt.isFailed, hresult]; rfl
    rw [if_pos hfailed]
    rfl
  | ok text =>
    have hmade : own.isFailed = false := by rw [Attempt.isFailed, hresult]; rfl
    rw [if_neg (by rw [hmade]; exact Bool.false_ne_true)]
    dsimp only
    rw [explainNested_eq, Tally.length_calls_after]
    dsimp only
    rw [Tally.after_singleton_after]
    rfl

theorem answer_of_augment (h : i.augmenter? = some g) (haugment : q.augment)
    (hpurpose : (a.answer q id).isPurpose) (answered : String) (t : Tally) :
    i.answer a q id answered t =
      (((i.explain g a q id answered t).1.map Answer.text).getD (a.answer q id),
        (i.explain g a q id answered t).2) := by
  rw [answer, h]
  dsimp only
  rw [haugment, hpurpose, Bool.and_self, if_pos rfl]
  rcases i.explain g a q id answered t with ⟨_ | text, u⟩ <;> rfl

theorem attemptsAt_of_augment {s : Assembler × Tally} (h : i.augmenter? = some g)
    (haugment : q.augment) (hpurpose : (a.answer q id).isPurpose) :
    i.attemptsAt a s (q, id) =
      i.attemptsFor g a q id (codeQa s.1.quotedRecords) s.2.calls.length := by
  rw [attemptsAt, h]
  dsimp only
  rw [haugment, hpurpose, Bool.and_self, if_pos rfl]

theorem tally_answer (i : Inquiry) (a : Analysis) (s : Assembler × Tally)
    (asked : Question × ObjectId) :
    (i.answer a asked.1 asked.2 (codeQa s.1.quotedRecords) s.2).2 =
      s.2.after (i.attemptsAt a s asked) := by
  rw [answer, attemptsAt]
  cases i.augmenter? with
  | none => exact (Tally.after_nil s.2).symm
  | some g =>
    dsimp only
    split
    · rw [explain_eq]
      dsimp only
      cases (g.attempt s.2.calls.length
        (i.requestFor a asked.1 asked.2 (codeQa s.1.quotedRecords))).result <;> rfl
    · exact (Tally.after_nil s.2).symm

theorem tally_ask (i : Inquiry) (a : Analysis) (s : Assembler × Tally)
    (asked : Question × ObjectId) : (i.ask a s asked).2 = s.2.after (i.attemptsAt a s asked) :=
  tally_answer i a s asked

/-- All requests about an object show the same earlier answers. -/
theorem exists_of_mem_attemptsFor {n : Nat} {x : Attempt}
    (hx : x ∈ i.attemptsFor g a q id answered n) :
    ∃ k r, x = g.attempt k r ∧ r.material.codeQa = answered := by
  rw [attemptsFor, List.mem_cons] at hx
  obtain hown | hx := hx
  · exact ⟨n, _, hown, rfl⟩
  · split at hx
    · cases hx
    · obtain ⟨k, r, hr, heq⟩ := Augmenter.exists_of_mem_attempts hx
      obtain ⟨child, -, rfl⟩ := List.mem_map.1 hr
      exact ⟨k, _, heq, rfl⟩

theorem exists_of_mem_attemptsAt {s : Assembler × Tally} {asked : Question × ObjectId} {x : Attempt}
    (hx : x ∈ i.attemptsAt a s asked) : ∃ g, i.augmenter? = some g ∧
      ∃ k r, x = g.attempt k r ∧ r.material.codeQa = codeQa s.1.quotedRecords := by
  unfold attemptsAt at hx
  split at hx
  next => cases hx
  next g hg =>
    split at hx
    · exact ⟨g, hg, exists_of_mem_attemptsFor hx⟩
    · cases hx

theorem codeQa_of_mem_attemptsAt {s : Assembler × Tally} {asked : Question × ObjectId} {x : Attempt}
    (hx : x ∈ i.attemptsAt a s asked) : x.request.material.codeQa = codeQa s.1.quotedRecords := by
  obtain ⟨g, -, k, r, heq, hr⟩ := exists_of_mem_attemptsAt hx
  rw [heq, Augmenter.request_attempt, hr]

/-! ### A file -/

def attempts (i : Inquiry) (a : Analysis) (s : Assembler × Tally) :
    List (Question × ObjectId) → List Attempt
  | [] => []
  | x :: asked => i.attemptsAt a s x ++ i.attempts a (i.ask a s x) asked

theorem exists_of_mem_attempts {s : Assembler × Tally} {asked : List (Question × ObjectId)}
    {x : Attempt} (hx : x ∈ i.attempts a s asked) :
    ∃ g, i.augmenter? = some g ∧ ∃ k r, x = g.attempt k r := by
  induction asked generalizing s with
  | nil => cases hx
  | cons y asked ih =>
    obtain hx | hx := List.mem_append.1 hx
    · obtain ⟨g, hg, k, r, heq, -⟩ := exists_of_mem_attemptsAt hx
      exact ⟨g, hg, k, r, heq⟩
    · exact ih hx

theorem tally_foldl_ask (i : Inquiry) (a : Analysis) (s : Assembler × Tally)
    (asked : List (Question × ObjectId)) :
    (asked.foldl (i.ask a) s).2 = s.2.after (i.attempts a s asked) := by
  induction asked generalizing s with
  | nil => exact (Tally.after_nil s.2).symm
  | cons x asked ih => rw [List.foldl_cons, ih, tally_ask, attempts, Tally.after_append]

def attemptsOf (i : Inquiry) (m : CodeModel) (t : Tally) : List Attempt :=
  i.attempts (.ofModel m) (.empty, t) (i.questionsFor (.ofModel m))

def attemptsOn (i : Inquiry) (f : SourceFile) (t : Tally) : List Attempt :=
  (Extraction.extract f.id f.source).toOption.toList.flatMap fun m => i.attemptsOf m t

theorem tally_artifact (i : Inquiry) (f : SourceFile) (t : Tally) :
    (i.artifact f t).2 = t.after (i.attemptsOn f t) := by
  rw [artifact, attemptsOn]
  cases Extraction.extract f.id f.source with
  | error e => exact (Tally.after_nil t).symm
  | ok m =>
    have hmade := tally_foldl_ask i (.ofModel m) (.empty, t) (i.questionsFor (.ofModel m))
    exact hmade.trans (congrArg t.after (List.append_nil _).symm)

end Inquiry

namespace Pipeline

variable {σ : Type} [DatasetStore σ]

/-! ### Files one after the other -/

def attemptsOn (p : Pipeline) (s : σ × Tally) (f : SourceFile) : List Attempt :=
  if (p.stored? s.1 f).isSome then [] else p.inquiry.attemptsOn f s.2

def attempts (p : Pipeline) (s : σ × Tally) : List SourceFile → List Attempt
  | [] => []
  | f :: files => p.attemptsOn s f ++ p.attempts (p.processFile s f).2 files

theorem tally_processFile (p : Pipeline) (s : σ × Tally) (f : SourceFile) :
    (p.processFile s f).2.2 = s.2.after (p.attemptsOn s f) := by
  rw [processFile, outcome, attemptsOn]
  cases p.stored? s.1 f with
  | some records => exact (Tally.after_nil s.2).symm
  | none =>
    have htally := p.inquiry.tally_artifact f s.2
    rcases hartifact : p.inquiry.artifact f s.2 with ⟨e | artifact, t⟩ <;>
      · rw [hartifact] at htally
        exact htally

theorem tally_processFiles (p : Pipeline) (s : σ × Tally) (files : List SourceFile) :
    (p.processFiles s files).2.2 = s.2.after (p.attempts s files) := by
  induction files generalizing s with
  | nil => exact (Tally.after_nil s.2).symm
  | cons f files ih =>
    rw [processFiles, attempts, Tally.after_append, ← tally_processFile]
    exact ih (p.processFile s f).2

/-! ### Workers -/

/-- The requests that are made in a turn: only questioning a file makes any. -/
def attemptsIn (p : Pipeline) (w : Workers σ) (turn : Turn) : List Attempt :=
  match w.tasks[turn.worker]? with
  | some (f, .questioning) => (p.inquiry.renumbered turn.callNumber).attemptsOn f .zero
  | _ => []

def attemptsOver (p : Pipeline) (w : Workers σ) : List Turn → List Attempt
  | [] => []
  | turn :: turns => p.attemptsIn w turn ++ p.attemptsOver (p.takeTurn w turn) turns

theorem failures_advance (p : Pipeline) (f : SourceFile) (number : Nat → Nat) (s : σ)
    (stage : Stage) : (p.advance f number s stage).2.2 = match stage with
      | .questioning => ((p.inquiry.renumbered number).attemptsOn f .zero).countP (·.isFailed)
      | _ => 0 := by
  cases stage with
  | waiting =>
    rw [advance]
    split
    · cases p.validity <;> rfl
    · rfl
  | comparing => rw [advance]; split <;> rfl
  | loading => rw [advance]; split <;> rfl
  | questioning =>
    have htally := (p.inquiry.renumbered number).tally_artifact f .zero
    have hfailures : ((p.inquiry.renumbered number).artifact f .zero).2.failures =
        ((p.inquiry.renumbered number).attemptsOn f .zero).countP (·.isFailed) := by
      rw [htally]
      exact Nat.zero_add _
    rw [advance]
    dsimp only
    rw [← hfailures]
    split
    next heq => rw [heq]
    next heq => rw [heq]
  | saving artifact => rfl
  | finished outcome => rfl

theorem failures_takeTurn (p : Pipeline) (w : Workers σ) (turn : Turn) :
    (p.takeTurn w turn).failures = w.failures + (p.attemptsIn w turn).countP (·.isFailed) := by
  rw [takeTurn, attemptsIn]
  cases w.tasks[turn.worker]? with
  | none => rfl
  | some task =>
    obtain ⟨f, stage⟩ := task
    dsimp only
    split
    next hdone => cases stage <;> first | rfl | cases hdone
    next =>
      dsimp only
      rw [failures_advance]
      cases stage <;> rfl

theorem failures_foldl_takeTurn (p : Pipeline) (w : Workers σ) (turns : List Turn) :
    (turns.foldl p.takeTurn w).failures =
      w.failures + (p.attemptsOver w turns).countP (·.isFailed) := by
  induction turns generalizing w with
  | nil => rfl
  | cons turn turns ih =>
    rw [List.foldl_cons, ih, failures_takeTurn, attemptsOver, List.countP_append, Nat.add_assoc]

end Pipeline

end SourceCorpus
