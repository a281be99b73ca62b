import SourceCorpus.Generation.Switchboard

/-!
Threads that take turns. Main statements: what a thread does leaves the turns and the calls of all others
alone, and keeps a line in order, on which there is no reply but that of its own call.
-/

namespace SourceCorpus

def Augmenter.IsContextFor (a : Augmenter) (r : PurposeRequest) (context : GenerationContext) :
    Prop := ∃ prompt, a.promptFor r = .ok prompt ∧ context = a.contextOf r prompt

namespace Thread

/-- The thread has not had its turn, or has not sent word of it yet. -/
def isSilent : Thread → Bool
  | absent | queued _ | admitted _ => true
  | _ => false

def isOnCall : Thread → Bool
  | announced _ | calling .. => true
  | _ => false

def isOver : Thread → Bool
  | finished | leaving | gone => true
  | _ => false

def context? : Thread → Option GenerationContext
  | queued context | admitted context | announced context | calling _ context => some context
  | _ => none

end Thread

def Desk.HasCall (d : Desk) (i number : Nat) (context : GenerationContext) : Prop :=
  d.calls[number]? = some (i, context)

/-- The two desks do not differ for the `i`th conversation. -/
structure Desk.SameFor (i : Nat) (d d' : Desk) : Prop where
  turn : d'.turn = some i ↔ d.turn = some i
  calls : ∀ number context, d'.HasCall i number context ↔ d.HasCall i number context

structure Line.Fits (a : Augmenter) (r : PurposeRequest) (i : Nat) (d : Desk) (l : Line) : Prop where
  turn : d.turn = some i ↔ l.thread.hasTurn = true
  silent : l.thread.isSilent = true → l.started = false
  onCall : l.thread.isOnCall = true → l.started = true
  context : ∀ context, l.thread.context? = some context → a.IsContextFor r context
  calling : ∀ number context, l.thread = .calling number context →
    d.HasCall i number context
  called : ∀ number context, d.HasCall i number context →
    l.started = true ∧ a.IsContextFor r context ∧
      (l.thread = .calling number context ∨ l.thread.isOver = true)
  once : ∀ number number' context context', d.HasCall i number context →
    d.HasCall i number' context' → number = number'
  replied : ∀ outcome, l.reply? = some outcome → l.thread.isOver = true ∧
    ∃ number context, d.HasCall i number context ∧
      (a.generator number context).reply.sent? = some outcome
  silence : l.thread.isOver = true → l.reply? = none → ∀ number context,
    d.HasCall i number context → (a.generator number context).reply = .nothing

variable {a : Augmenter} {r : PurposeRequest} {i j number : Nat} {d d' : Desk} {l l' : Line}
  {context : GenerationContext}

theorem Reply.sent?_eq_none_iff {reply : Reply} : reply.sent? = none ↔ reply = .nothing := by
  cases reply <;> simp [sent?]

theorem getElem?_concat_eq_some_iff {α : Type} {xs : List α} {x y : α} {n : Nat} :
    (xs ++ [x])[n]? = some y ↔ xs[n]? = some y ∨ n = xs.length ∧ x = y := by
  rcases Nat.lt_trichotomy n xs.length with h | rfl | h
  · rw [List.getElem?_append_left h]
    simp [Nat.ne_of_lt h]
  · simp
  · have hbehind : xs.length + 1 ≤ n := h
    rw [List.getElem?_eq_none (by simpa using hbehind), List.getElem?_eq_none (Nat.le_of_lt h)]
    simp [Nat.ne_of_gt h]

/-! ### What others do -/

theorem Line.Fits.of_sameFor (h : l.Fits a r i d) (hsame : d.SameFor i d') : l.Fits a r i d' where
  turn := hsame.turn.trans h.turn
  silent := h.silent
  onCall := h.onCall
  context := h.context
  calling number context hthread := (hsame.calls number context).2 (h.calling number context hthread)
  called number context hcall := h.called number context ((hsame.calls number context).1 hcall)
  once number number' context context' hcall hcall' := h.once number number' context context'
    ((hsame.calls number context).1 hcall) ((hsame.calls number' context').1 hcall')
  replied outcome hreply := by
    obtain ⟨hover, number, context, hcall, hsent⟩ := h.replied outcome hreply
    exact ⟨hover, number, context, (hsame.calls number context).2 hcall, hsent⟩
  silence hover hreply number context hcall :=
    h.silence hover hreply number context ((hsame.calls number context).1 hcall)

theorem Desk.SameFor.refl (i : Nat) (d : Desk) : d.SameFor i d := ⟨Iff.rfl, fun _ _ => Iff.rfl⟩

theorem Desk.SameFor.trans {d'' : Desk} (h : d.SameFor i d') (h' : d'.SameFor i d'') :
    d.SameFor i d'' :=
  ⟨h'.turn.trans h.turn, fun number context => (h'.calls number context).trans (h.calls number context)⟩

/-- A thread takes the turn if nobody has it, and gives no turn back but its own. -/
theorem Line.Moves.sameFor (hmove : Line.Moves a j d l d' l') (h : l.Fits a r j d) (hij : i ≠ j) :
    d.SameFor i d' := by
  cases hmove with
  | enter =>
    refine ⟨?_, fun _ _ => Iff.rfl⟩
    simp [Ne.symm hij]
  | call =>
    refine ⟨Iff.rfl, fun number context => ?_⟩
    rw [Desk.HasCall, Desk.HasCall, getElem?_concat_eq_some_iff]
    simp [Ne.symm hij]
  | release =>
    refine ⟨?_, fun _ _ => Iff.rfl⟩
    have hturn := h.turn.2 rfl
    simp only at hturn
    simp [hturn, Ne.symm hij]
  | announce | finish | close | fail | failInTurn => exact .refl i _

/-! ### What a thread does -/

section

variable {turn turn' : Option Nat} {calls : List (Nat × GenerationContext)} {thread thread' : Thread}
  {started : Bool} {reply : Option (Except GenerationFailure String)}

/-- A thread that makes no call has no call on the desk unless its call is over. -/
theorem Line.Fits.isOver_of_call (h : l.Fits a r i d)
    (hcalling : ∀ number context, l.thread ≠ .calling number context)
    (hcall : d.HasCall i number context) : l.thread.isOver = true :=
  (h.called number context hcall).2.2.resolve_left (hcalling number context)

/-- The thread goes on without a word, a call or a reply. -/
theorem Line.Fits.goOn (h : Line.Fits a r i ⟨turn, calls⟩ ⟨thread, started, reply⟩)
    (hturn : turn' = some i ↔ thread'.hasTurn = true)
    (hsilent : thread'.isSilent = true → thread.isSilent = true)
    (honCall : thread'.isOnCall = false)
    (hcontext : ∀ context, thread'.context? = some context → thread.context? = some context)
    (hover : thread.isOver = true → thread'.isOver = true)
    (hcalling : ∀ number context, thread ≠ .calling number context) :
    Line.Fits a r i ⟨turn', calls⟩ ⟨thread', started, reply⟩ where
  turn := hturn
  silent hthread := h.silent (hsilent hthread)
  onCall hthread := absurd hthread (by simp [honCall])
  context context hthread := h.context context (hcontext context hthread)
  calling _ _ hthread := by
    dsimp only at hthread
    rw [hthread] at honCall
    cases honCall
  called number context hcall :=
    ⟨(h.called number context hcall).1, (h.called number context hcall).2.1,
      .inr (hover (h.isOver_of_call hcalling hcall))⟩
  once := h.once
  replied outcome hreply := (h.replied outcome hreply).imp_left hover
  silence _ hreply number context hcall :=
    h.silence (h.isOver_of_call hcalling hcall) hreply number context hcall

theorem Line.Fits.announce (h : Line.Fits a r i d ⟨.admitted context, started, reply⟩) :
    Line.Fits a r i d ⟨.announced context, true, reply⟩ where
  turn := h.turn
  silent := nofun
  onCall _ := rfl
  context := h.context
  calling := nofun
  called _ _ hcall := absurd (h.isOver_of_call nofun hcall) Bool.false_ne_true
  once := h.once
  replied outcome hreply := absurd (h.replied outcome hreply).1 Bool.false_ne_true
  silence := nofun

/-- The thread has made no call before. -/
theorem Line.Fits.call (h : Line.Fits a r i ⟨turn, calls⟩ ⟨.announced context, started, reply⟩) :
    Line.Fits a r i ⟨turn, calls ++ [(i, context)]⟩
      ⟨.calling calls.length context, started, reply⟩ := by
  have hown : ∀ number context', (calls ++ [(i, context)])[number]? = some (i, context') →
      number = calls.length ∧ context = context' := by
    intro number context' hcall
    rcases getElem?_concat_eq_some_iff.1 hcall with hcall | ⟨hnumber, hsame⟩
    · exact absurd (h.isOver_of_call nofun hcall) Bool.false_ne_true
    · exact ⟨hnumber, congrArg Prod.snd hsame⟩
  refine ⟨h.turn, nofun, fun _ => h.onCall rfl, h.context, ?_, ?_, ?_, ?_, nofun⟩
  · rintro number context' ⟨⟩
    exact getElem?_concat_eq_some_iff.2 (.inr ⟨rfl, rfl⟩)
  · intro number context' hcall
    obtain ⟨rfl, rfl⟩ := hown number context' hcall
    exact ⟨h.onCall rfl, h.context context rfl, .inl rfl⟩
  · intro number number' context' context'' hcall hcall'
    exact (hown number context' hcall).1.trans (hown number' context'' hcall').1.symm
  · exact fun outcome hreply => absurd (h.replied outcome hreply).1 Bool.false_ne_true

theorem Line.Fits.finish (h : Line.Fits a r i d ⟨.calling number context, started, reply⟩) :
    Line.Fits a r i d ⟨.finished, started, (a.generator number context).reply.sent?⟩ := by
  have hcall : d.HasCall i number context := h.calling number context rfl
  refine ⟨h.turn, nofun, nofun, nofun, nofun, ?_, h.once, ?_, ?_⟩
  · intro number' context' hcall'
    obtain ⟨hstarted, hcontext, -⟩ := h.called number' context' hcall'
    exact ⟨hstarted, hcontext, .inr rfl⟩
  · exact fun outcome hsent => ⟨rfl, number, context, hcall, hsent⟩
  · intro _ hnone number' context' hcall'
    -- The only call of the line is the one that has just ended.
    obtain rfl := h.once number' number context' context hcall' hcall
    obtain rfl : context' = context :=
      congrArg Prod.snd (Option.some.inj (hcall'.symm.trans hcall))
    exact Reply.sent?_eq_none_iff.1 hnone

end

/-- Whatever its thread does, a line stays in order. -/
theorem Line.Moves.fits (hmove : Line.Moves a i d l d' l') (h : l.Fits a r i d) :
    l'.Fits a r i d' := by
  cases hmove with
  | enter => exact h.goOn (by simp [Thread.hasTurn]) id rfl (fun _ => id) id nofun
  | announce => exact h.announce
  | call => exact h.call
  | finish => exact h.finish
  | release => exact h.goOn (by simp [Thread.hasTurn]) nofun rfl nofun id nofun
  | close => exact h.goOn h.turn nofun rfl nofun id nofun
  | fail => exact h.goOn h.turn nofun rfl nofun (fun _ => rfl) nofun
  | failInTurn hthread =>
    rcases hthread with rfl | rfl
    · exact h.goOn h.turn nofun rfl nofun (fun _ => rfl) nofun
    · exact h.goOn h.turn nofun rfl nofun (fun _ => rfl) nofun

/-- A thread that is not there does nothing, nor does one that is gone. -/
theorem Line.Moves.thread_ne (hmove : Line.Moves a i d l d' l') :
    l.thread ≠ .absent ∧ l.thread ≠ .gone ∧ l'.thread ≠ .absent := by
  cases hmove with
  | failInTurn hthread => rcases hthread with rfl | rfl <;> exact ⟨nofun, nofun, nofun⟩
  | _ => exact ⟨nofun, nofun, nofun⟩

theorem Line.Moves.started_eq (hmove : Line.Moves a i d l d' l') (h : l.started = true) :
    l'.started = true := by
  cases hmove with
  | announce => rfl
  | _ => exact h

/-- A reply that was sent stays. -/
theorem Line.Moves.reply?_eq (hmove : Line.Moves a i d l d' l') (h : l.Fits a r i d)
    {outcome : Except GenerationFailure String} (hreply : l.reply? = some outcome) :
    l'.reply? = some outcome := by
  cases hmove with
  | finish => exact absurd (h.replied outcome hreply).1 Bool.false_ne_true
  | _ => exact hreply

/-! ### A line that is not used yet -/

theorem Line.fits_unused (r : PurposeRequest) (h : d.turn ≠ some i)
    (hnone : ∀ number context, ¬d.HasCall i number context) : Line.unused.Fits a r i d where
  turn := iff_of_false h Bool.false_ne_true
  silent _ := rfl
  onCall := nofun
  context := nofun
  calling := nofun
  called number context hcall := absurd hcall (hnone number context)
  once number _ context _ hcall := absurd hcall (hnone number context)
  replied := nofun
  silence := nofun

theorem Line.Fits.start (h : Line.unused.Fits a r i d) (hcontext : a.IsContextFor r context) :
    Line.Fits a r i d { Line.unused with thread := .queued context } where
  turn := h.turn
  silent _ := rfl
  onCall := nofun
  context := by rintro context' ⟨⟩; exact hcontext
  calling := nofun
  called number context' hcall := absurd (h.isOver_of_call nofun hcall) Bool.false_ne_true
  once := h.once
  replied := nofun
  silence := nofun

end SourceCorpus
