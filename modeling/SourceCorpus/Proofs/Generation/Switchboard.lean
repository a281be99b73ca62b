import Mathlib.Algebra.Ring.Nat
import Mathlib.Logic.Relation
import SourceCorpus.Proofs.Generation.Conversations

/-!
All conversations of a switchboard. Main statements: every step keeps them in order, brings them nearer to
their end, and there is a next step until all requests are given back.
-/

namespace SourceCorpus

variable {a : Augmenter} {requests : List PurposeRequest} {r : PurposeRequest} {i : Nat} {d d' : Desk}
  {l l' : Line} {c c' : Conversation} {s s' : Switchboard}

theorem set_eq_self {α : Type} {xs : List α} {i : Nat} {x : α} (h : xs[i]? = some x) :
    xs.set i x = xs := by
  obtain ⟨hlt, rfl⟩ := List.getElem?_eq_some_iff.1 h
  exact List.set_getElem_self hlt

theorem sum_map_set {α : Type} (f : α → Nat) {xs : List α} {i : Nat} {x : α} (h : xs[i]? = some x)
    (y : α) : ((xs.set i y).map f).sum + f x = (xs.map f).sum + f y := by
  induction xs generalizing i with
  | nil => cases h
  | cons z zs ih =>
    cases i with
    | zero =>
      obtain rfl : z = x := Option.some.inj h
      simp only [List.set_cons_zero, List.map_cons, List.sum_cons]
      omega
    | succ i =>
      have hrest := ih h
      simp only [List.set_cons_succ, List.map_cons, List.sum_cons]
      omega

/-! ### What all steps keep -/

namespace Switchboard

/-- All conversations are in order, and the desk knows of no others. -/
structure Fits (a : Augmenter) (requests : List PurposeRequest) (s : Switchboard) : Prop where
  requests : s.conversations.map (·.request) = requests
  line : ∀ (i : Nat) (c : Conversation), s.conversations[i]? = some c → c.line.Fits a c.request i s.desk
  caller : ∀ (i : Nat) (c : Conversation), s.conversations[i]? = some c → c.Fits a
  strangers : ∀ i : Nat, s.conversations[i]? = none → Desk.SameFor i ⟨none, []⟩ s.desk
  failures : s.failures = (s.conversations.map Conversation.counted).sum

theorem fits_ready (a : Augmenter) (requests : List PurposeRequest) :
    (ready requests).Fits a requests := by
  have hunused : ∀ (i : Nat) (c : Conversation), (ready requests).conversations[i]? = some c →
      c.caller = .ready ∧ c.line = .unused := by
    intro i c hget
    obtain ⟨r, -, rfl⟩ := List.mem_map.1 (List.mem_of_getElem? hget)
    exact ⟨rfl, rfl⟩
  refine ⟨?_, fun i c hget => ?_, fun i c hget => ?_, fun i _ => .refl i _, ?_⟩
  · rw [ready, List.map_map]
    exact List.map_id requests
  · rw [(hunused i c hget).2]
    exact Line.fits_unused c.request nofun nofun
  · rw [Conversation.Fits, (hunused i c hget).1]
    exact (hunused i c hget).2
  · simp [ready, Function.comp_def, Conversation.counted, List.map_const']

theorem Fits.step (h : s.Fits a requests) (hstep : Step a s s') : s'.Fits a requests := by
  obtain @⟨i, c, ⟨d, failures, c'⟩, hget, hadvance⟩ := hstep
  have hkeeps := hadvance.keeps (h.line i c hget) (h.caller i c hget)
  have hlt : i < s.conversations.length := (List.getElem?_eq_some_iff.1 hget).1
  have hself : (s.conversations.set i c')[i]? = some c' := List.getElem?_set_self hlt
  -- The other conversations notice nothing but the desk, which is the same for them.
  refine ⟨?_, fun j e hj => ?_, fun j e hj => ?_, fun j hj => ?_, ?_⟩
  · rw [update, List.map_set, hkeeps.request, ← h.requests]
    exact set_eq_self (by rw [List.getElem?_map, hget]; rfl)
  · by_cases hij : j = i
    · subst hij
      obtain rfl := Option.some.inj (hself.symm.trans hj)
      exact hkeeps.line
    · exact (h.line j e ((List.getElem?_set_ne (Ne.symm hij)).symm.trans hj)).of_sameFor
        (hkeeps.others j hij)
  · by_cases hij : j = i
    · subst hij
      obtain rfl := Option.some.inj (hself.symm.trans hj)
      exact hkeeps.caller
    · exact h.caller j e ((List.getElem?_set_ne (Ne.symm hij)).symm.trans hj)
  · have hij : j ≠ i := fun hij => by
      subst hij
      cases hself.symm.trans hj
    exact (h.strangers j ((List.getElem?_set_ne (Ne.symm hij)).symm.trans hj)).trans
      (hkeeps.others j hij)
  · have hsum := sum_map_set Conversation.counted hget c'
    have hcount := hkeeps.failures
    have hfailures := h.failures
    simp only [update] at hcount ⊢
    omega

theorem Fits.run (h : s.Fits a requests) (hrun : Relation.ReflTransGen (Step a) s s') :
    s'.Fits a requests := by
  induction hrun with
  | refl => exact h
  | tail _ hstep ih => exact ih.step hstep

end Switchboard

/-! ### Progress -/

def Thread.left : Thread → Nat
  | absent | gone => 0
  | queued _ => 6
  | admitted _ => 5
  | announced _ => 4
  | calling .. => 3
  | finished => 2
  | leaving => 1

/-- How many things a caller can still do at most, with what a thread does that it has yet to start. -/
def Caller.left : Caller → Nat
  | ready => 11
  | queueing => 4
  | listening => 3
  | settled _ => 2
  | counted _ => 1
  | returned _ => 0

def Conversation.left (c : Conversation) : Nat := c.caller.left + c.line.thread.left

def Switchboard.left (s : Switchboard) : Nat := (s.conversations.map Conversation.left).sum

theorem Line.Moves.left_lt (hmove : Line.Moves a i d l d' l') : l'.thread.left < l.thread.left := by
  cases hmove with
  | failInTurn hthread => rcases hthread with rfl | rfl <;> simp [Thread.left]
  | _ => simp [Thread.left]

theorem Conversation.Moves.left_lt (hmove : c.Moves a c') : c'.left < c.left := by
  cases hmove <;> simp only [Conversation.left, Caller.left, Thread.left] <;> omega

theorem Conversation.Advances.left_lt {before after : Desk × Nat × Conversation}
    (h : Advances a i before after) : after.2.2.left < before.2.2.left := by
  cases h with
  | thread hmove => exact Nat.add_lt_add_left hmove.left_lt _
  | caller hmove => exact hmove.left_lt
  | count | giveBack => simp [Conversation.left, Caller.left]

theorem Switchboard.Step.left_lt (hstep : Step a s s') : s'.left < s.left := by
  obtain @⟨i, c, ⟨d, failures, c'⟩, hget, hadvance⟩ := hstep
  have hsum := sum_map_set Conversation.left hget c'
  have hlt := hadvance.left_lt
  simp only [Switchboard.left, Switchboard.update] at hlt ⊢
  omega

/-- A thread that has the turn, or could have it, gets on. -/
theorem Line.Fits.exists_moves (h : l.Fits a r i d) (habsent : l.thread ≠ .absent)
    (hgone : l.thread ≠ .gone) (hturn : d.turn = none ∨ d.turn = some i) :
    ∃ d' l', Line.Moves a i d l d' l' := by
  obtain ⟨thread, started, reply⟩ := l
  cases thread with
  | absent => exact absurd rfl habsent
  | queued context =>
    -- A thread that waits does not have the turn itself, so nobody has it.
    obtain ⟨turn, calls⟩ := d
    obtain rfl : turn = none := hturn.resolve_right fun hown => by cases h.turn.1 hown
    exact ⟨_, _, .enter⟩
  | admitted context => exact ⟨_, _, .announce⟩
  | announced context => exact ⟨_, _, .call⟩
  | calling number context => exact ⟨_, _, .finish⟩
  | finished => exact ⟨_, _, .release⟩
  | leaving => exact ⟨_, _, .close⟩
  | gone => exact absurd rfl hgone

/-- While nobody has the turn, something can happen to a request that is not given back. -/
theorem Conversation.Fits.exists_advances (h : c.Fits a) (hline : c.line.Fits a c.request i d)
    (hturn : d.turn = none) (hopen : c.hasReturned = false) (failures : Nat) :
    ∃ next, Advances a i (d, failures, c) next := by
  obtain ⟨r, caller, l⟩ := c
  cases caller with
  | ready =>
    cases hprompt : a.promptFor r with
    | error failure => exact ⟨_, .caller (.refuse hprompt)⟩
    | ok prompt => exact ⟨_, .caller (.start hprompt)⟩
  | queueing =>
    by_cases hgone : l.thread = .gone
    · cases hstarted : l.started with
      | true => exact ⟨_, .caller (.hear hstarted)⟩
      | false => exact ⟨_, .caller (.miss hstarted hgone)⟩
    · obtain ⟨d', l', hmove⟩ := hline.exists_moves h hgone (.inl hturn)
      exact ⟨_, .thread hmove⟩
  | listening => exact ⟨_, .caller .expire⟩
  | settled outcome => exact ⟨_, .count⟩
  | counted result => exact ⟨_, .giveBack⟩
  | returned result => cases hopen

/-- Whoever has the turn can go on, and if nobody has it, so can everyone. -/
theorem Switchboard.Fits.exists_step (h : s.Fits a requests) (hopen : s.isDone = false) :
    ∃ s', Step a s s' := by
  cases hturn : s.desk.turn with
  | some i =>
    cases hget : s.conversations[i]? with
    | none => cases (h.strangers i hget).turn.1 hturn
    | some c =>
      have hthread : c.line.thread.hasTurn = true := (h.line i c hget).turn.1 hturn
      obtain ⟨d', l', hmove⟩ := (h.line i c hget).exists_moves
        (fun habsent => by simp [habsent, Thread.hasTurn] at hthread)
        (fun hgone => by simp [hgone, Thread.hasTurn] at hthread) (.inr hturn)
      exact ⟨_, .advance hget (.thread hmove)⟩
  | none =>
    obtain ⟨c, hc, hwaiting⟩ := List.all_eq_false.1 hopen
    obtain ⟨i, hget⟩ := List.mem_iff_getElem?.1 hc
    obtain ⟨next, hadvance⟩ := (h.caller i c hget).exists_advances (h.line i c hget) hturn
      (Bool.not_eq_true _ ▸ hwaiting) s.failures
    exact ⟨_, .advance hget hadvance⟩

end SourceCorpus
