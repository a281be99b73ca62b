import SourceCorpus.Proofs.Generation.Lines

/-!
One request among others. Main statement: whatever happens in a conversation, it is settled with the
reply to its own call, with its own deadline or with what became of its own thread, and it counts its
failure once.
-/

namespace SourceCorpus

/-- What the request can be settled with when its line is this one. -/
inductive Line.Settles (a : Augmenter) (r : PurposeRequest) (l : Line) :
    Except GenerationFailure String → Prop where
  | unfit {failure} (habsent : l.thread = .absent) (hprompt : a.promptFor r = .error failure) :
      Settles a r l (.error failure)
  | notStarted {prompt} (habsent : l.thread = .absent) (hprompt : a.promptFor r = .ok prompt)
      (reason : String) : Settles a r l (.error (.notStarted reason))
  | missed (hgone : l.thread = .gone) (hstarted : l.started = false) :
      Settles a r l (.error .exitedEarly)
  | replied {outcome : Except GenerationFailure String} (hreply : l.reply? = some outcome) :
      Settles a r l outcome
  | expired (hstarted : l.started = true) :
      Settles a r l (.error (.timeout a.settings.timeoutMilliseconds))
  | silent (hgone : l.thread = .gone) (hstarted : l.started = true) (hreply : l.reply? = none) :
      Settles a r l (.error .exitedSilently)

variable {a : Augmenter} {i : Nat} {d d' : Desk} {c c' : Conversation} {l l' : Line}

/-- What a request is settled with is not taken back by its thread. -/
theorem Line.Settles.of_moves {r : PurposeRequest}
    {outcome : Except GenerationFailure String} (h : l.Settles a r outcome)
    (hmove : Line.Moves a i d l d' l') (hline : l.Fits a r i d) : l'.Settles a r outcome := by
  cases h with
  | unfit habsent => exact absurd habsent hmove.thread_ne.1
  | notStarted habsent => exact absurd habsent hmove.thread_ne.1
  | missed hgone => exact absurd hgone hmove.thread_ne.2.1
  | replied hreply => exact .replied (hmove.reply?_eq hline hreply)
  | expired hstarted => exact .expired (hmove.started_eq hstarted)
  | silent hgone => exact absurd hgone hmove.thread_ne.2.1

namespace Conversation

def Fits (a : Augmenter) (c : Conversation) : Prop :=
  match c.caller with
  | .ready => c.line = .unused
  | .queueing => c.line.thread ≠ .absent
  | .listening => c.line.started = true
  | .settled outcome => c.line.Settles a c.request outcome
  | .counted result | .returned result =>
    ∃ outcome, c.line.Settles a c.request outcome ∧ result = outcome.bind Response.clean

def counted (c : Conversation) : Nat :=
  match c.caller with
  | .counted result | .returned result => (!result.isOk).toNat
  | _ => 0

/-! ### What the caller does -/

theorem Moves.fits (hmove : c.Moves a c') (h : c.Fits a) : c'.Fits a := by
  cases hmove with
  | refuse hprompt => exact .unfit (congrArg Line.thread h) hprompt
  | notStarted hprompt reason => exact .notStarted (congrArg Line.thread h) hprompt reason
  | start hprompt => exact nofun
  | hear hstarted => exact hstarted
  | miss hstarted hgone => exact .missed hgone hstarted
  | receive hreply => exact .replied hreply
  | expire => exact .expired h
  | hangUp hreply hgone => exact .silent hgone h hreply

theorem Moves.fits_line (hmove : c.Moves a c') (h : c.Fits a)
    (hline : c.line.Fits a c.request i d) : c'.line.Fits a c'.request i d := by
  cases hmove with
  | @start r l prompt hprompt =>
    obtain rfl : l = .unused := h
    exact hline.start ⟨prompt, hprompt, rfl⟩
  | _ => exact hline

theorem Moves.request_eq (hmove : c.Moves a c') : c'.request = c.request := by
  cases hmove <;> rfl

/-- A request that is not settled has counted nothing. -/
theorem Moves.counted_eq (hmove : c.Moves a c') : c.counted = c'.counted := by
  cases hmove <;> rfl

/-! ### What the thread does -/

theorem Fits.of_moves (h : c.Fits a) (hmove : Line.Moves a i d c.line d' l)
    (hline : c.line.Fits a c.request i d) : Fits a { c with line := l } := by
  obtain ⟨r, caller, line⟩ := c
  cases caller with
  | ready => exact absurd (congrArg Line.thread h) hmove.thread_ne.1
  | queueing => exact hmove.thread_ne.2.2
  | listening => exact hmove.started_eq h
  | settled => exact h.of_moves hmove hline
  | counted | returned =>
    obtain ⟨outcome, hsettles, hresult⟩ := h
    exact ⟨outcome, hsettles.of_moves hmove hline, hresult⟩

/-! ### What happens in a conversation -/

/-- What happens in a conversation leaves it in order, and the desk as it is for all others. -/
structure Keeps (a : Augmenter) (i : Nat) (before after : Desk × Nat × Conversation) : Prop where
  line : after.2.2.line.Fits a after.2.2.request i after.1
  caller : after.2.2.Fits a
  request : after.2.2.request = before.2.2.request
  others : ∀ j, j ≠ i → before.1.SameFor j after.1
  failures : after.2.1 + before.2.2.counted = before.2.1 + after.2.2.counted

theorem Advances.keeps {before after : Desk × Nat × Conversation} (h : Advances a i before after)
    (hline : before.2.2.line.Fits a before.2.2.request i before.1) (hfits : before.2.2.Fits a) :
    Keeps a i before after := by
  cases h with
  | thread hmove =>
    exact ⟨hmove.fits hline, hfits.of_moves hmove hline, rfl, fun j hj => hmove.sameFor hline hj, rfl⟩
  | caller hmove =>
    refine ⟨hmove.fits_line hfits hline, hmove.fits hfits, hmove.request_eq, fun j _ => .refl j _, ?_⟩
    dsimp only
    rw [hmove.counted_eq]
  | count => exact ⟨hline, ⟨_, hfits, rfl⟩, rfl, fun j _ => .refl j _, rfl⟩
  | giveBack => exact ⟨hline, hfits, rfl, fun j _ => .refl j _, rfl⟩

end Conversation

end SourceCorpus
