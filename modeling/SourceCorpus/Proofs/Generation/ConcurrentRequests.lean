import SourceCorpus.Proofs.Generation.Switchboard
import SourceCorpus.Proofs.Pipeline.Attempts

/-!
What comes of requests that are made at the same time. Main statement: in whatever order things happen, one
call runs at a time, no request is out of time before its turn, each gets what came of its own call, the
failures are counted, and a request that nothing disturbs ends as if it was made alone.
-/

namespace SourceCorpus

variable {a : Augmenter} {requests : List PurposeRequest} {i : Nat} {s s' : Switchboard}

/-! ### A request that nothing disturbs -/

namespace Conversation

theorem Advances.result (a : Augmenter) (i : Nat) (d : Desk) (failures : Nat) (r : PurposeRequest)
    (outcome : Except GenerationFailure String) (l : Line) :
    Relation.ReflTransGen (Advances a i) (d, failures, ⟨r, .settled outcome, l⟩)
      (d, failures + (!(outcome.bind Response.clean).isOk).toNat,
        ⟨r, .returned (outcome.bind Response.clean), l⟩) :=
  .tail (.single .count) .giveBack

/-- A reply in time is received, and one that is late is not waited for. -/
theorem Moves.receive_or_expire (a : Augmenter) (r : PurposeRequest) (g : Generation) :
    Moves a ⟨r, .listening, ⟨.gone, true, g.reply.sent?⟩⟩
      ⟨r, .settled (Augmenter.receive a.settings.timeoutMilliseconds g),
        ⟨.gone, true, g.reply.sent?⟩⟩ := by
  rw [Augmenter.receive]
  split
  next => exact .expire
  next =>
    cases hreply : g.reply with
    | text text => exact .receive rfl
    | failure failure => exact .receive rfl
    | nothing => exact .hangUp rfl rfl

theorem Advances.call {r : PurposeRequest} {prompt : String} (hprompt : a.promptFor r = .ok prompt)
    (i : Nat) (calls : List (Nat × GenerationContext)) (failures : Nat) :
    let context := a.contextOf r prompt
    let generation := a.generator calls.length context
    Relation.ReflTransGen (Advances a i) (⟨none, calls⟩, failures, ⟨r, .ready, .unused⟩)
      (⟨none, calls ++ [(i, context)]⟩, failures,
        ⟨r, .settled (Augmenter.receive a.settings.timeoutMilliseconds generation),
          ⟨.gone, true, generation.reply.sent?⟩⟩) := by
  intro context generation
  refine .head (.caller (.start hprompt)) ?_
  refine .head (.thread .enter) ?_
  refine .head (.thread .announce) ?_
  refine .head (.caller (.hear rfl)) ?_
  refine .head (.thread .call) ?_
  refine .head (.thread .finish) ?_
  refine .head (.thread .release) ?_
  refine .head (.thread .close) ?_
  exact .single (.caller (.receive_or_expire a r generation))

/-- A request can come to what it comes to when it is made alone. -/
theorem Advances.alone (a : Augmenter) (i : Nat) (calls : List (Nat × GenerationContext))
    (failures : Nat) (r : PurposeRequest) :
    let x := a.attempt calls.length r
    ∃ l, Relation.ReflTransGen (Advances a i) (⟨none, calls⟩, failures, ⟨r, .ready, .unused⟩)
      (⟨none, calls ++ x.call?.toList.map fun call => (i, call.2)⟩, failures + x.isFailed.toNat,
        ⟨r, .returned x.result, l⟩) := by
  intro x
  cases hprompt : a.promptFor r with
  | error failure =>
    have hx : x = ⟨r, none, .error failure⟩ := by
      rw [Augmenter.promptFor] at hprompt
      simp only [x, Augmenter.attempt, hprompt]
    rw [hx]
    simp only [Option.toList_none, List.map_nil, List.append_nil]
    exact ⟨.unused, .head (.caller (.refuse hprompt)) (Advances.result a i _ failures r _ _)⟩
  | ok prompt =>
    have hx : x = ⟨r, some (calls.length, a.contextOf r prompt),
        (Augmenter.receive a.settings.timeoutMilliseconds
          (a.generator calls.length (a.contextOf r prompt))).bind Response.clean⟩ := by
      rw [Augmenter.promptFor] at hprompt
      simp only [x, Augmenter.attempt, hprompt]
      rfl
    rw [hx]
    exact ⟨_, (Advances.call hprompt i calls failures).trans (Advances.result a i _ failures r _ _)⟩

end Conversation

namespace Switchboard

/-- What happens in one conversation happens at the switchboard. -/
theorem run_update {c : Conversation} {next : Desk × Nat × Conversation}
    (hget : s.conversations[i]? = some c)
    (hrun : Relation.ReflTransGen (Conversation.Advances a i) (s.desk, s.failures, c) next) :
    Relation.ReflTransGen (Step a) s (s.update i next) := by
  induction hrun with
  | refl =>
    have hsame : s.update i (s.desk, s.failures, c) = s := by rw [update, set_eq_self hget]
    rw [hsame]
  | @tail next last _ hadvance ih =>
    have hlt : i < s.conversations.length := (List.getElem?_eq_some_iff.1 hget).1
    have hlast : (s.update i next).update i last = s.update i last := by
      simp only [update, List.set_set]
    rw [← hlast]
    exact ih.tail (.advance (List.getElem?_set_self hlt) hadvance)

theorem Fits.exists_run_explain (h : s.Fits a requests) {c : Conversation}
    (hget : s.conversations[i]? = some c) (hready : c.caller = .ready) (hturn : s.desk.turn = none) :
    ∃ s' l, Relation.ReflTransGen (Step a) s s' ∧ s'.desk.turn = none ∧
      s'.tally = (a.explain c.request s.tally).2 ∧ s'.conversations =
        s.conversations.set i ⟨c.request, .returned (a.explain c.request s.tally).1, l⟩ := by
  have hc : c = ⟨c.request, .ready, .unused⟩ := by
    have hline := h.caller i c hget
    rw [Conversation.Fits, hready] at hline
    rw [← hready, ← hline]
  have hdesk : s.desk = ⟨none, s.desk.calls⟩ := by rw [← hturn]
  obtain ⟨l, hrun⟩ := Conversation.Advances.alone a i s.desk.calls s.failures c.request
  rw [← hdesk, ← hc] at hrun
  have hlength : s.tally.calls.length = s.desk.calls.length := List.length_map _
  refine ⟨_, l, run_update hget hrun, rfl, ?_, ?_⟩
  · rw [Augmenter.explain_eq, hlength]
    simp [Tally.after_singleton, tally, update, Function.comp_def]
  · rw [Augmenter.explain_eq, hlength]
    rfl

end Switchboard

/-! ### What requests come to -/

def Desk.HasNoCall (d : Desk) (i : Nat) : Prop := ∀ number context, ¬d.HasCall i number context

/-- What the `i`th request can come to, before it is cleaned. -/
inductive Conversation.Answers (a : Augmenter) (d : Desk) (i : Nat) (c : Conversation) :
    Except GenerationFailure String → Prop where
  /-- The reply to its own call. -/
  | reply {number : Nat} {context : GenerationContext} {outcome : Except GenerationFailure String}
      (hcall : d.HasCall i number context)
      (hreply : (a.generator number context).reply.sent? = some outcome) : Answers a d i c outcome
  /-- It had its turn. -/
  | timeout (hstarted : c.line.started = true) (hturn : c.line.thread.isSilent = false) :
      Answers a d i c (.error (.timeout a.settings.timeoutMilliseconds))
  | exitedEarly (hgone : c.line.thread = .gone) (hnone : d.HasNoCall i) :
      Answers a d i c (.error .exitedEarly)
  /-- Its own call, if it was made, has left nothing. -/
  | exitedSilently (hgone : c.line.thread = .gone) (hnothing : ∀ number context,
      d.HasCall i number context → (a.generator number context).reply = .nothing) :
      Answers a d i c (.error .exitedSilently)
  | notStarted (reason : String) (hnone : d.HasNoCall i) : Answers a d i c (.error (.notStarted reason))
  | unfit {failure : GenerationFailure} (hprompt : a.promptFor c.request = .error failure)
      (hnone : d.HasNoCall i) : Answers a d i c (.error failure)

theorem Thread.hasTurn_of_isCalling {thread : Thread} (h : thread.isCalling = true) :
    thread.hasTurn = true := by
  cases thread with
  | calling => rfl
  | _ => cases h

section

variable {r : PurposeRequest} {d : Desk} {l : Line}

theorem Line.Fits.hasNoCall (h : l.Fits a r i d)
    (hcalling : ∀ number context, l.thread ≠ .calling number context)
    (hover : l.thread.isOver = false) : d.HasNoCall i := fun number context hcall => by
  rw [h.isOver_of_call hcalling hcall] at hover
  cases hover

theorem Line.Fits.hasNoCall_of_not_started (h : l.Fits a r i d) (hstarted : l.started = false) :
    d.HasNoCall i := fun number context hcall => by
  rw [(h.called number context hcall).1] at hstarted
  cases hstarted

theorem Line.Fits.isSilent_eq_false (h : l.Fits a r i d) (hstarted : l.started = true) :
    l.thread.isSilent = false := by
  rw [Bool.eq_false_iff]
  intro hsilent
  rw [h.silent hsilent] at hstarted
  cases hstarted

end

theorem Line.Settles.answers {c : Conversation} {d : Desk} {outcome : Except GenerationFailure String}
    (h : c.line.Settles a c.request outcome) (hline : c.line.Fits a c.request i d) :
    c.Answers a d i outcome := by
  cases h with
  | unfit habsent hprompt =>
    exact .unfit hprompt (hline.hasNoCall (by simp [habsent]) (by rw [habsent]; rfl))
  | notStarted habsent hprompt reason =>
    exact .notStarted reason (hline.hasNoCall (by simp [habsent]) (by rw [habsent]; rfl))
  | missed hgone hstarted => exact .exitedEarly hgone (hline.hasNoCall_of_not_started hstarted)
  | replied hreply =>
    obtain ⟨-, number, context, hcall, hsent⟩ := hline.replied outcome hreply
    exact .reply hcall hsent
  | expired hstarted => exact .timeout hstarted (hline.isSilent_eq_false hstarted)
  | silent hgone hstarted hreply =>
    exact .exitedSilently hgone (hline.silence (by rw [hgone]; rfl) hreply)

/-- A caller whose thread has not had its turn waits for that, and for nothing else. -/
theorem Conversation.Fits.caller_eq_queueing {c : Conversation} {d : Desk} (h : c.Fits a)
    (hline : c.line.Fits a c.request i d) (hqueued : c.line.thread.isQueued = true) :
    c.caller = .queueing := by
  obtain ⟨r, caller, thread, started, reply⟩ := c
  cases thread with
  | queued context =>
    have hstarted : started = false := hline.silent rfl
    -- A request is settled on a line that was never used, or that has come further than this one.
    have hsettles : ∀ outcome, ¬Line.Settles a r ⟨.queued context, started, reply⟩ outcome := by
      intro outcome hsettles
      cases hsettles with
      | unfit habsent => cases habsent
      | notStarted habsent => cases habsent
      | missed hgone => cases hgone
      | replied hreply => cases (hline.replied outcome hreply).1
      | expired h => cases hstarted.symm.trans h
      | silent hgone => cases hgone
    cases caller with
    | ready => cases h
    | queueing => rfl
    | listening => cases hstarted.symm.trans h
    | settled outcome => exact absurd h (hsettles outcome)
    | counted result | returned result =>
      obtain ⟨outcome, h, -⟩ := h
      exact absurd h (hsettles outcome)
  | _ => cases hqueued

theorem sum_counted (conversations : List Conversation) :
    (conversations.map Conversation.counted).sum =
      conversations.countP (·.hasFailed) + conversations.countP (·.isFailing) := by
  induction conversations with
  | nil => rfl
  | cons c conversations ih =>
    have hc : c.counted = c.hasFailed.toNat + c.isFailing.toNat := by
      obtain ⟨r, caller, l⟩ := c
      cases caller with
      | counted => exact (Nat.zero_add _).symm
      | _ => rfl
    rw [List.map_cons, List.sum_cons, ih, hc, List.countP_cons, List.countP_cons]
    cases c.hasFailed <;> cases c.isFailing <;> simp <;> omega

/-- What is true of requests that are made at the same time, whatever has happened so far. -/
structure Switchboard.TakesTurns (a : Augmenter) (requests : List PurposeRequest) (s : Switchboard) :
    Prop where
  asked : s.conversations.map (·.request) = requests
  /-- One call runs at a time, also if nobody waits for it any more. -/
  oneAtATime : ∀ (i j : Nat) (c c' : Conversation), s.conversations[i]? = some c →
    s.conversations[j]? = some c' → c.line.thread.isCalling = true →
    c'.line.thread.isCalling = true → i = j
  /-- Before its turn, no request is out of time or settled in another way. -/
  waits : ∀ c ∈ s.conversations, c.line.thread.isQueued = true → c.caller = .queueing
  /-- A call is made with what one of the requests asks for. -/
  calls : ∀ (i number : Nat) (context : GenerationContext), s.desk.HasCall i number context →
    ∃ r, requests[i]? = some r ∧ a.IsContextFor r context
  once : ∀ (i number number' : Nat) (context context' : GenerationContext),
    s.desk.HasCall i number context → s.desk.HasCall i number' context' → number = number'
  answers : ∀ (i : Nat) (c : Conversation) (result : Except GenerationFailure String),
    s.conversations[i]? = some c → c.caller = .returned result →
    ∃ outcome, c.Answers a s.desk i outcome ∧ result = outcome.bind Response.clean
  failures : s.failures =
    s.conversations.countP (·.hasFailed) + s.conversations.countP (·.isFailing)
  whenDone : s.isDone = true → s.failures = s.conversations.countP (·.hasFailed)
  goesOn : s.isDone = true ∨ ∃ s', Step a s s'
  /-- It does not go on forever. -/
  shortens : ∀ s', Step a s s' → s'.left < s.left
  /-- A request that nothing disturbs can end as if it was made alone. -/
  alone : ∀ (i : Nat) (c : Conversation), s.conversations[i]? = some c → c.caller = .ready →
    s.desk.turn = none → ∃ s' l, Relation.ReflTransGen (Step a) s s' ∧ s'.desk.turn = none ∧
      s'.tally = (a.explain c.request s.tally).2 ∧ s'.conversations =
        s.conversations.set i ⟨c.request, .returned (a.explain c.request s.tally).1, l⟩

namespace Switchboard

/-- Nobody is about to give a failure back when all have returned. -/
theorem countP_isFailing_of_isDone (h : s.isDone = true) :
    s.conversations.countP (·.isFailing) = 0 := by
  rw [List.countP_eq_zero]
  intro c hc
  have hreturned : c.hasReturned = true := List.all_eq_true.1 h c hc
  obtain ⟨r, caller, l⟩ := c
  cases caller with
  | returned => exact Bool.false_ne_true
  | _ => cases hreturned

theorem Fits.takesTurns (h : s.Fits a requests) : s.TakesTurns a requests := by
  have hfailures : s.failures =
      s.conversations.countP (·.hasFailed) + s.conversations.countP (·.isFailing) :=
    h.failures.trans (sum_counted s.conversations)
  have hlines : ∀ i number context, s.desk.HasCall i number context →
      ∃ c, s.conversations[i]? = some c := by
    intro i number context hcall
    cases hget : s.conversations[i]? with
    | none => cases ((h.strangers i hget).calls number context).1 hcall
    | some c => exact ⟨c, rfl⟩
  refine
    { asked := h.requests
      oneAtATime := ?_
      waits := ?_
      calls := ?_
      once := ?_
      answers := ?_
      failures := hfailures
      whenDone := ?_
      goesOn := ?_
      shortens := fun s' hstep => hstep.left_lt
      alone := fun i c hget hready hturn => h.exists_run_explain hget hready hturn }
  · intro i j c c' hget hget' hcalling hcalling'
    have hturn := (h.line i c hget).turn.2 (Thread.hasTurn_of_isCalling hcalling)
    have hturn' := (h.line j c' hget').turn.2 (Thread.hasTurn_of_isCalling hcalling')
    exact Option.some.inj (hturn.symm.trans hturn')
  · intro c hc hqueued
    obtain ⟨i, hget⟩ := List.mem_iff_getElem?.1 hc
    exact (h.caller i c hget).caller_eq_queueing (h.line i c hget) hqueued
  · intro i number context hcall
    obtain ⟨c, hget⟩ := hlines i number context hcall
    refine ⟨c.request, ?_, ((h.line i c hget).called number context hcall).2.1⟩
    rw [← h.requests, List.getElem?_map, hget]
    rfl
  · intro i number number' context context' hcall hcall'
    obtain ⟨c, hget⟩ := hlines i number context hcall
    exact (h.line i c hget).once number number' context context' hcall hcall'
  · intro i c result hget hreturned
    have hfits := h.caller i c hget
    rw [Conversation.Fits, hreturned] at hfits
    obtain ⟨outcome, hsettles, hresult⟩ := hfits
    exact ⟨outcome, hsettles.answers (h.line i c hget), hresult⟩
  · intro hdone
    rw [hfailures, countP_isFailing_of_isDone hdone, Nat.add_zero]
  · cases hdone : s.isDone with
    | true => exact .inl rfl
    | false => exact .inr (h.exists_step hdone)

/-- Whatever has happened since the requests were made, they take turns. -/
theorem takesTurns_of_run (h : Relation.ReflTransGen (Step a) (ready requests) s) :
    s.TakesTurns a requests :=
  ((fits_ready a requests).run h).takesTurns

/-- While the call of the first request goes on, of which the caller has given up, the second request
waits; it gets its own reply and not the late one. -/
theorem takesTurns_of_abandoned_call :
    let a : Augmenter := ⟨⟨"{query}", 2048, 50, false⟩,
      fun number _ => ⟨.text (if number = 0 then "Late." else "In time."), 40⟩⟩
    let r : PurposeRequest := ⟨"Purpose?", ⟨"", "", "", ""⟩, false⟩
    let context := a.contextOf r "Purpose?"
    let s : Switchboard := ⟨⟨some 0, [(0, context)]⟩, 1,
      [⟨r, .returned (.error (.timeout 50)), ⟨.calling 0 context, true, none⟩⟩,
        ⟨r, .queueing, ⟨.queued context, false, none⟩⟩]⟩
    let s' : Switchboard := ⟨⟨some 1, [(0, context), (1, context)]⟩, 1,
      [⟨r, .returned (.error (.timeout 50)), ⟨.leaving, true, some (.ok "Late.")⟩⟩,
        ⟨r, .returned (.ok "In time."), ⟨.finished, true, some (.ok "In time.")⟩⟩]⟩
    Relation.ReflTransGen (Step a) (ready [r, r]) s ∧ s.TakesTurns a [r, r] ∧
      Relation.ReflTransGen (Step a) s s' ∧ s'.TakesTurns a [r, r] := by
  intro a r context s s'
  have hprompt : a.promptFor r = .ok "Purpose?" := by decide +kernel
  have hclean : Response.clean "In time." = .ok "In time." := by decide +kernel
  have hcount : ∀ d l, Conversation.Advances a 1 (d, 1, ⟨r, .settled (.ok "In time."), l⟩)
      (d, 1, ⟨r, .counted (.ok "In time."), l⟩) := by
    intro d l
    have h : Conversation.Advances a 1 (d, 1, ⟨r, .settled (.ok "In time."), l⟩)
        (d, 1 + (!(Response.clean "In time.").isOk).toNat,
          ⟨r, .counted (Response.clean "In time."), l⟩) := .count
    rw [hclean] at h
    exact h
  -- The deadline of the first request passes while its call goes on.
  have hfirst : Relation.ReflTransGen (Step a) (ready [r, r]) s := by
    refine .head (.advance (i := 0) rfl (.caller (.start hprompt))) ?_
    refine .head (.advance (i := 1) rfl (.caller (.start hprompt))) ?_
    refine .head (.advance (i := 0) rfl (.thread .enter)) ?_
    refine .head (.advance (i := 0) rfl (.thread .announce)) ?_
    refine .head (.advance (i := 0) rfl (.caller (.hear rfl))) ?_
    refine .head (.advance (i := 0) rfl (.thread .call)) ?_
    refine .head (.advance (i := 0) rfl (.caller .expire)) ?_
    refine .head (.advance (i := 0) rfl .count) ?_
    exact .single (.advance (i := 0) rfl .giveBack)
  -- The late reply comes, and the turn goes to the second request.
  have hsecond : Relation.ReflTransGen (Step a) s s' := by
    refine .head (.advance (i := 0) rfl (.thread .finish)) ?_
    refine .head (.advance (i := 0) rfl (.thread .release)) ?_
    refine .head (.advance (i := 1) rfl (.thread .enter)) ?_
    refine .head (.advance (i := 1) rfl (.thread .announce)) ?_
    refine .head (.advance (i := 1) rfl (.thread .call)) ?_
    refine .head (.advance (i := 1) rfl (.caller (.hear rfl))) ?_
    refine .head (.advance (i := 1) rfl (.thread .finish)) ?_
    refine .head (.advance (i := 1) rfl (.caller (.receive rfl))) ?_
    refine .head (.advance (i := 1) rfl (hcount _ _)) ?_
    exact .single (.advance (i := 1) rfl .giveBack)
  exact ⟨hfirst, takesTurns_of_run hfirst, hsecond, takesTurns_of_run (hfirst.trans hsecond)⟩

end Switchboard

end SourceCorpus
