import SourceCorpus.Generation.Augmenter

/-!
Requests that are made at the same time. A request has a thread of its own for its call of the generator,
and the threads take turns. Two channels lead from the thread to the caller: one brings word that the
thread has the turn, the other one the reply. A caller waits as long as it takes for the word, but not
longer than the settings allow for the reply; then it goes on, and the thread keeps the turn until the
generator is done.
-/

namespace SourceCorpus

namespace GenerationFailure

def notStarted (reason : String) : GenerationFailure :=
  .provider ("failed to spawn generator: " ++ reason)

def exitedEarly : GenerationFailure := .provider "generator exited before starting"

def exitedSilently : GenerationFailure := .provider "generator exited without a result"

end GenerationFailure

/-- What a thread sends of a reply. A generator that leaves nothing ends its thread. -/
def Reply.sent? : Reply → Option (Except GenerationFailure String)
  | text s => some (.ok s)
  | failure f => some (.error f)
  | nothing => none

def Augmenter.promptFor (a : Augmenter) (r : PurposeRequest) : Except GenerationFailure String :=
  buildPrompt a.settings.promptTemplate r.query r.material a.settings.contextLength

/-! ### One request -/

/-- How far a thread has come with its call. -/
inductive Thread where
  | absent
  | queued (context : GenerationContext)
  /-- It has the turn. -/
  | admitted (context : GenerationContext)
  /-- It has sent word of that. -/
  | announced (context : GenerationContext)
  /-- The generator is at work. -/
  | calling (number : Nat) (context : GenerationContext)
  /-- The call is over, or there will be none. -/
  | finished
  /-- The turn is given back. -/
  | leaving
  /-- The channels are closed. -/
  | gone
  deriving DecidableEq, Repr

namespace Thread

def isQueued : Thread → Bool
  | queued _ => true
  | _ => false

def hasTurn : Thread → Bool
  | admitted _ | announced _ | calling .. | finished => true
  | _ => false

def isCalling : Thread → Bool
  | calling .. => true
  | _ => false

end Thread

/-- A thread and what it has sent over its channels. -/
structure Line where
  thread : Thread
  /-- Word that the thread has the turn. -/
  started : Bool
  reply? : Option (Except GenerationFailure String)

def Line.unused : Line := ⟨.absent, false, none⟩

/-- How far a caller has come with its request. -/
inductive Caller where
  | ready
  /-- It waits for word that its thread has the turn. -/
  | queueing
  /-- It waits for the reply. -/
  | listening
  | settled (outcome : Except GenerationFailure String)
  /-- The outcome is cleaned, and counted if it is a failure. -/
  | counted (result : Except GenerationFailure String)
  /-- The result is given back. -/
  | returned (result : Except GenerationFailure String)

structure Conversation where
  request : PurposeRequest
  caller : Caller
  line : Line

namespace Conversation

def hasReturned (c : Conversation) : Bool :=
  match c.caller with
  | .returned _ => true
  | _ => false

def hasFailed (c : Conversation) : Bool :=
  match c.caller with
  | .returned result => !result.isOk
  | _ => false

/-- A failure is counted and about to be given back. -/
def isFailing (c : Conversation) : Bool :=
  match c.caller with
  | .counted result => !result.isOk
  | _ => false

end Conversation

/-! ### All requests -/

/-- What the threads share. -/
structure Desk where
  /-- The conversation that has the turn. -/
  turn : Option Nat
  /-- The calls of the generator, with the conversations that they belong to. -/
  calls : List (Nat × GenerationContext)

/-- What the thread of the `i`th conversation can do. -/
inductive Line.Moves (a : Augmenter) (i : Nat) : Desk → Line → Desk → Line → Prop where
  | enter {calls context started reply} :
      Moves a i ⟨none, calls⟩ ⟨.queued context, started, reply⟩
        ⟨some i, calls⟩ ⟨.admitted context, started, reply⟩
  | announce {d context started reply} :
      Moves a i d ⟨.admitted context, started, reply⟩ d ⟨.announced context, true, reply⟩
  | call {turn calls context started reply} :
      Moves a i ⟨turn, calls⟩ ⟨.announced context, started, reply⟩
        ⟨turn, calls ++ [(i, context)]⟩ ⟨.calling calls.length context, started, reply⟩
  | finish {d number context started reply} :
      Moves a i d ⟨.calling number context, started, reply⟩
        d ⟨.finished, started, (a.generator number context).reply.sent?⟩
  | release {turn calls started reply} :
      Moves a i ⟨turn, calls⟩ ⟨.finished, started, reply⟩ ⟨none, calls⟩ ⟨.leaving, started, reply⟩
  | close {d started reply} :
      Moves a i d ⟨.leaving, started, reply⟩ d ⟨.gone, started, reply⟩
  /-- The thread ends while it waits for its turn. -/
  | fail {d context started reply} :
      Moves a i d ⟨.queued context, started, reply⟩ d ⟨.leaving, started, reply⟩
  /-- The thread ends in its turn, but before the call. -/
  | failInTurn {d context started reply} {thread : Thread}
      (h : thread = .admitted context ∨ thread = .announced context) :
      Moves a i d ⟨thread, started, reply⟩ d ⟨.finished, started, reply⟩

/-- What a caller can do until its request is settled. -/
inductive Conversation.Moves (a : Augmenter) : Conversation → Conversation → Prop where
  | refuse {r l failure} (h : a.promptFor r = .error failure) :
      Moves a ⟨r, .ready, l⟩ ⟨r, .settled (.error failure), l⟩
  | notStarted {r l prompt} (h : a.promptFor r = .ok prompt) (reason : String) :
      Moves a ⟨r, .ready, l⟩ ⟨r, .settled (.error (.notStarted reason)), l⟩
  | start {r l prompt} (h : a.promptFor r = .ok prompt) :
      Moves a ⟨r, .ready, l⟩ ⟨r, .queueing, { l with thread := .queued (a.contextOf r prompt) }⟩
  | hear {r l} (h : l.started = true) : Moves a ⟨r, .queueing, l⟩ ⟨r, .listening, l⟩
  | miss {r l} (h : l.started = false) (hgone : l.thread = .gone) :
      Moves a ⟨r, .queueing, l⟩ ⟨r, .settled (.error .exitedEarly), l⟩
  | receive {r l outcome} (h : l.reply? = some outcome) :
      Moves a ⟨r, .listening, l⟩ ⟨r, .settled outcome, l⟩
  /-- The deadline may pass at any moment. -/
  | expire {r l} :
      Moves a ⟨r, .listening, l⟩
        ⟨r, .settled (.error (.timeout a.settings.timeoutMilliseconds)), l⟩
  | hangUp {r l} (h : l.reply? = none) (hgone : l.thread = .gone) :
      Moves a ⟨r, .listening, l⟩ ⟨r, .settled (.error .exitedSilently), l⟩

/-- What can happen in the `i`th conversation, with what becomes of the desk and of the number of
failures. -/
inductive Conversation.Advances (a : Augmenter) (i : Nat) :
    Desk × Nat × Conversation → Desk × Nat × Conversation → Prop where
  | thread {d d' failures c l} (h : Line.Moves a i d c.line d' l) :
      Advances a i (d, failures, c) (d', failures, { c with line := l })
  | caller {d failures c c'} (h : c.Moves a c') : Advances a i (d, failures, c) (d, failures, c')
  | count {d failures r outcome l} :
      Advances a i (d, failures, ⟨r, .settled outcome, l⟩)
        (d, failures + (!(outcome.bind Response.clean).isOk).toNat,
          ⟨r, .counted (outcome.bind Response.clean), l⟩)
  | giveBack {d failures r result l} :
      Advances a i (d, failures, ⟨r, .counted result, l⟩) (d, failures, ⟨r, .returned result, l⟩)

structure Switchboard where
  desk : Desk
  /-- How many requests have failed. -/
  failures : Nat
  conversations : List Conversation

namespace Switchboard

def ready (requests : List PurposeRequest) : Switchboard :=
  ⟨⟨none, []⟩, 0, requests.map fun r => ⟨r, .ready, .unused⟩⟩

/-- The switchboard after something has happened in the `i`th conversation. -/
def update (s : Switchboard) (i : Nat) : Desk × Nat × Conversation → Switchboard
  | (desk, failures, c) => ⟨desk, failures, s.conversations.set i c⟩

/-- One thing happens in one of the conversations. -/
inductive Step (a : Augmenter) (s : Switchboard) : Switchboard → Prop where
  | advance {i : Nat} {c : Conversation} {next : Desk × Nat × Conversation}
      (hget : s.conversations[i]? = some c) (h : Conversation.Advances a i (s.desk, s.failures, c) next) :
      Step a s (s.update i next)

def isDone (s : Switchboard) : Bool := s.conversations.all (·.hasReturned)

/-- The calls and the failures so far. -/
def tally (s : Switchboard) : Tally := ⟨s.desk.calls.map (·.2), s.failures⟩

end Switchboard

end SourceCorpus
