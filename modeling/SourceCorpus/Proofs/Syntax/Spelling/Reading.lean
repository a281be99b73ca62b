import SourceCorpus.Proofs.Syntax.Reading
import SourceCorpus.Proofs.Syntax.Spelling.Names
import SourceCorpus.Syntax.Expression

/-!
What parsers do to the place where they read and to the extents of the nodes that they finish. Main
statement: a member access that is closed behind its member has its parts where they should be.
-/

namespace SourceCorpus.Syntax

open SourceCorpus.Syntax.Tree

/-- Reading stands in the source, and at least `n` nodes are finished, all of them with the dotted
names in them where they should be. -/
structure Ready (source : List Char) (n : Nat) (s : Progress) : Prop where
  cursor : s.cursor.Of source
  stop_le : s.stop.offset ≤ s.cursor.position.offset
  count : s.count = s.finished.length
  le : n ≤ s.count
  spelled : ∀ t ∈ s.finished, IsSpelled source t

def Keeps {α : Type} (source : List Char) (n : Nat) (p : Parse α) : Prop :=
  Runs (Ready source n) p (Ready source n)

/-- From any progress of the first kind the parser comes to one of the second kind, which may depend
on its result, if it does not refuse the text. -/
def Gives {α : Type} (P : Progress → Prop) (p : Parse α) (Q : α → Progress → Prop) : Prop :=
  ∀ s a s', P s → p s = .ok (a, s') → Q a s'

/-- Since the one progress nothing but trivia were finished and no token was taken. -/
structure Passes (source : List Char) (n : Nat) (s s' : Progress) : Prop where
  ready : Ready source n s'
  stop : s'.stop = s.stop
  gaps : ∃ gaps, s'.finished = gaps ++ s.finished ∧ ∀ t ∈ gaps, t.isTrivia

/-- Since the mark one node was finished, trivia behind it apart, and it reaches from the mark to
the last token. -/
def Spans (m : Parse.Mark) (s : Progress) : Prop :=
  ∃ newer kind role children older,
    s.finished = newer ++ node kind role ⟨m.start, s.stop⟩ children :: older ∧
      older.length = m.count ∧ kind.isTrivia = false ∧ ∀ t ∈ newer, t.isTrivia

def Spanned (source : List Char) (m : Parse.Mark) (s : Progress) : Prop :=
  Ready source m.count s ∧ Spans m s

/-- Where the parser begins with the lookahead it makes one node that begins with its token. -/
def Makes {α : Type} (source : List Char) (l : Lookahead) (p : Parse α) : Prop :=
  ∀ n, Runs (fun s => Ready source n s ∧ s.count = n) p (Spanned source ⟨n, l.place⟩)

def recentSince (count : Nat) (s : Progress) : List Tree := s.finished.take (s.count - count)

/-- Trivia behind the last token, which are no children of a node that is closed. -/
def isOutside (s : Progress) (t : Tree) : Bool := t.isTrivia && t.start.offset ≥ s.stop.offset

def closedNode (m : Parse.Mark) (kind : Kind) (s : Progress) : Tree :=
  node kind none ⟨m.start, s.stop⟩ ((recentSince m.count s).dropWhile (isOutside s)).reverse

variable {α β : Type} {source : List Char} {n : Nat} {P Q R : Progress → Prop} {p : Parse α}
  {s s' : Progress} {l : Lookahead} {m : Parse.Mark} {kind : Kind}

/-! ### Rules -/

theorem Gives.bind {Q : α → Progress → Prop} {R : β → Progress → Prop} {f : α → Parse β}
    (hp : Gives P p Q) (hf : ∀ a, Gives (Q a) (f a) R) : Gives P (p >>= f) R := by
  intro s b s'' hs h
  change (p s).bind (fun r => f r.1 r.2) = _ at h
  cases hr : p s with
  | error => rw [hr] at h; cases h
  | ok r =>
    rw [hr] at h
    exact hf r.1 r.2 b s'' (hp s r.1 r.2 hs hr) h

theorem Gives.runs_bind {Q : α → Progress → Prop} {f : α → Parse β} (hp : Gives P p Q)
    (hf : ∀ a, Runs (Q a) (f a) R) : Runs P (p >>= f) R :=
  Gives.bind (R := fun _ => R) hp hf

theorem Runs.gives_bind {R : β → Progress → Prop} {f : α → Parse β} (hp : Runs P p Q)
    (hf : ∀ a, Gives Q (f a) R) : Gives P (p >>= f) R :=
  Gives.bind (Q := fun _ => Q) hp hf

theorem Gives.get {f : Progress → Parse α} {Q : α → Progress → Prop}
    (h : ∀ before, P before → Gives (· = before) (f before) Q) :
    Gives P (MonadState.get >>= f) Q := fun s a s' hs hp => h s hs s a s' rfl hp

theorem Ready.mono {k : Nat} (h : Ready source n s) (hk : k ≤ n) : Ready source k s :=
  { h with le := Nat.le_trans hk h.le }

theorem Ready.self (h : Ready source n s) : Ready source s.count s :=
  { h with le := Nat.le_refl _ }

/-- Changes that do not concern nodes and places. -/
theorem Keeps.modify {f : Progress → Progress}
    (h : ∀ s, (f s).cursor = s.cursor ∧ (f s).stop = s.stop ∧ (f s).count = s.count ∧
      (f s).finished = s.finished) : Keeps source n (modify f : Parse PUnit) := by
  intro s a s' hs hp
  cases hp
  obtain ⟨hcursor, hstop, hcount, hfinished⟩ := h s
  obtain ⟨cursor, stop_le, count, le, spelled⟩ := hs
  constructor
  · rwa [hcursor]
  · rwa [hcursor, hstop]
  · rwa [hcount, hfinished]
  · rwa [hcount]
  · rwa [hfinished]

/-- What is begun here leaves the nodes finished so far alone. -/
theorem Keeps.inner {f : Progress → Parse α}
    (h : ∀ before, Ready source before.count before →
      Runs (· = before) (f before) (Ready source before.count)) :
    Keeps source n (MonadState.get >>= f) := fun s a s' hs hp =>
  (h s hs.self s a s' rfl hp).mono hs.le

theorem Keeps.mark {f : Parse.Mark → Parse α}
    (h : ∀ m, m.start = l.place → Runs (Ready source m.count) (f m) (Ready source m.count)) :
    Keeps source n (Parse.markAt l >>= f) :=
  .inner (f := fun s => f ⟨s.count, l.place⟩) fun before hbefore s a s' hs hp =>
    h ⟨before.count, l.place⟩ rfl s a s' (hs ▸ hbefore) hp

/-- A construct inside another one. -/
theorem Runs.marking {f : Parse.Mark → Parse α}
    (h : ∀ m, m.start = l.place → n ≤ m.count → Runs (Ready source m.count) (f m) R) :
    Runs (Ready source n) (Parse.markAt l >>= f) R := fun s a s' hs hp =>
  h ⟨s.count, l.place⟩ rfl hs.le s a s' hs.self hp

/-- The construct inside is done. -/
theorem Runs.outward {k : Nat} (hk : n ≤ k) (h : Runs (Ready source n) p R) :
    Runs (Ready source k) p R := .of_imp (fun _ hs => hs.mono hk) h

/-- A construct of which the first part is a construct from the same token. -/
theorem Makes.begin {f : Parse.Mark → Parse α}
    (h : ∀ m, m.start = l.place → Runs (fun s => Ready source m.count s ∧ s.count = m.count) (f m)
      (Spanned source m)) : Makes source l (Parse.markAt l >>= f) := by
  intro n s a s' hs hp
  obtain ⟨hready, rfl⟩ := hs
  exact h ⟨s.count, l.place⟩ rfl s a s' ⟨hready, rfl⟩ hp

theorem Makes.mark {f : Parse.Mark → Parse α}
    (h : ∀ m, m.start = l.place → Runs (Ready source m.count) (f m) (Spanned source m)) :
    Makes source l (Parse.markAt l >>= f) :=
  .begin fun m hm => .of_imp (fun _ hs => hs.1) (h m hm)

theorem Makes.first (h : Makes source l p) (hm : m.start = l.place) :
    Runs (fun s => Ready source m.count s ∧ s.count = m.count) p (Spanned source m) := by
  obtain ⟨count, start⟩ := m
  subst hm
  exact h count

theorem Makes.keeps (h : Makes source l p) : Keeps source n p := fun s a s' hs hp =>
  (h s.count s a s' ⟨hs.self, rfl⟩ hp).1.mono hs.le

theorem Keeps.forIn {f : α → PUnit → Parse (ForInStep PUnit)}
    (h : ∀ a u, Keeps source n (f a u)) (as : List α) (u : PUnit) :
    Keeps source n (forIn as u f) := by
  induction as generalizing u with
  | nil => exact Runs.done _
  | cons a as ih =>
    rw [List.forIn_cons]
    refine (h a u).bind fun step => ?_
    cases step with
    | done => exact Runs.done _
    | yield => exact ih _

/-! ### Looking ahead -/

theorem Gap.not_word_of_token? {g : Gap} {expected : Expected} {current : Nat} {inFormat : Bool}
    {next : List Char} {token : Token} (h : g.token? expected current inFormat next = some token) :
    (∀ keyword, token ≠ .word keyword) ∧ token ≠ .sign .dot := by
  unfold Gap.token? at h
  dsimp only at h
  split at h
  · split at h
    · cases h
      exact ⟨fun _ => nofun, nofun⟩
    · split at h
      · cases h
        exact ⟨fun _ => nofun, nofun⟩
      · split at h
        · cases h
          exact ⟨fun _ => nofun, nofun⟩
        · cases h
  · cases h

namespace Parse

theorem fits_lookahead? {expected : Expected} (hs : Ready source n s)
    (h : lookahead? expected s = some l) :
    l.Fits source ∧ s.stop.offset ≤ l.before.position.offset := by
  unfold lookahead? at h
  dsimp only at h
  rw [Option.orElse_eq_orElse, Option.orElse_eq_or, Option.or_eq_some_iff] at h
  -- A layout token takes no text, and a string opens behind the cursor; neither is a word or a dot.
  rcases h with h | ⟨-, h⟩
  · obtain ⟨g, -, hlayout⟩ := Option.bind_eq_some_iff.1 h
    obtain ⟨token, htoken, rfl⟩ := Option.map_eq_some_iff.1 hlayout
    obtain ⟨hword, hdot⟩ := Gap.not_word_of_token? htoken
    exact ⟨Lookahead.fits_other hs.cursor 0 hword hdot, hs.stop_le⟩
  · obtain ⟨g, -, hstring⟩ := Option.bind_eq_some_iff.1 h
    split at hstring
    · obtain ⟨⟨d, length⟩, -, rfl⟩ := Option.map_eq_some_iff.1 hstring
      refine ⟨Lookahead.fits_other (hs.cursor.drop _) _ (fun _ => nofun) nofun, ?_⟩
      exact Nat.le_trans hs.stop_le (Cursor.offset_le_offset_drop _ _)
    · cases hstring

/-- Trivia are finished where they are met. -/
theorem passes_push {s₀ : Progress} (hs : Passes source n s₀ s) {after : Cursor}
    (hafter : after.Of source) (hle : s.cursor.position.offset ≤ after.position.offset)
    (hkind : kind.isTrivia) (extent : Extent) :
    Passes source n s₀
      { s with
        finished := node kind none extent [] :: s.finished
        count := s.count + 1
        cursor := after } := by
  obtain ⟨⟨cursor, stop_le, count, le, spelled⟩, hstop, gaps, hgaps, htrivia⟩ := hs
  refine ⟨⟨hafter, Nat.le_trans stop_le hle, ?_, Nat.le_succ_of_le le, ?_⟩, hstop, ?_⟩
  · rw [count, List.length_cons]
  · refine List.forall_mem_cons.2 ⟨isSpelled_of_not_isDottable ?_ (List.forall_mem_nil _), spelled⟩
    cases kind <;> first | rfl | cases hkind
  · refine ⟨node kind none extent [] :: gaps, ?_, List.forall_mem_cons.2 ⟨hkind, htrivia⟩⟩
    rw [hgaps, List.cons_append]

theorem gives_peekWithin (expected : Expected) (rounds : Nat) (s₀ : Progress) :
    Gives (Passes source n s₀) (peekWithin expected rounds) fun l s =>
      Passes source n s₀ s ∧ l.Fits source ∧ s₀.stop.offset ≤ l.before.position.offset := by
  -- Each round finishes one piece of trivia or has found the token.
  induction rounds with
  | zero => exact fun _ _ _ _ hp => nomatch hp
  | succ rounds ih =>
    refine .get fun s hs => ?_
    split
    next l hlook =>
      rintro _ _ _ rfl hp
      cases hp
      obtain ⟨hfits, hle⟩ := fits_lookahead? hs.ready hlook
      exact ⟨hs, hfits, hs.stop ▸ hle⟩
    next =>
      have hbefore : (s.cursor.dropWhile isSpace).Of source := hs.ready.cursor.dropWhile isSpace
      have hle : s.cursor.position.offset ≤ (s.cursor.dropWhile isSpace).position.offset :=
        Cursor.offset_le_offset_drop _ _
      have htrivia {kind : Kind} (hkind : kind.isTrivia) (extent : Extent) (length : Nat) :
          Gives (· = s) (do
            push (.node kind none extent [])
            modify fun s => { s with cursor := (s.cursor.dropWhile isSpace).drop length }
            peekWithin expected rounds) fun l s =>
              Passes source n s₀ s ∧ l.Fits source ∧
                s₀.stop.offset ≤ l.before.position.offset := by
        rintro _ a s' rfl hp
        refine ih _ a s' (passes_push hs (hbefore.drop length) ?_ hkind extent) hp
        exact Nat.le_trans hle (Cursor.offset_le_offset_drop _ _)
      dsimp only
      split
      · rintro _ a s' rfl hp
        exact htrivia rfl _ _ _ a s' rfl hp
      · rintro _ a s' rfl hp
        exact htrivia rfl _ _ _ a s' rfl hp
      · rintro _ a s' rfl hp
        cases hp
        refine ⟨hs, Lookahead.fits_read hbefore rfl, ?_⟩
        exact hs.stop ▸ Nat.le_trans hs.ready.stop_le hle

theorem gives_peek (expected : Expected) (s₀ : Progress) :
    Gives (Passes source n s₀) (peek expected) fun l s =>
      Passes source n s₀ s ∧ l.Fits source ∧ s₀.stop.offset ≤ l.before.position.offset :=
  .get fun s hs s' a s'' heq hp =>
    gives_peekWithin expected s.limit s₀ s' a s'' (heq ▸ hs) hp

end Parse

theorem Passes.refl (h : Ready source n s) : Passes source n s s :=
  ⟨h, rfl, [], rfl, List.forall_mem_nil _⟩

/-- Behind a lookahead that stands in the source. -/
theorem Runs.peeking {f : Lookahead → Parse α} {expected : Expected}
    (h : ∀ l, l.Fits source → Runs (Ready source n) (f l) R) :
    Runs (Ready source n) (Parse.peek expected >>= f) R := by
  intro s a s' hs hp
  have hpeek : Gives (Passes source n s) (Parse.peek expected >>= f) fun _ s => R s :=
    (Parse.gives_peek expected s).bind fun l s' a s'' hs' hp =>
      h l hs'.2.1 s' a s'' hs'.1.ready hp
  exact hpeek s a s' (.refl hs) hp

/-! ### Steps that take a token -/

namespace Parse

theorem keeps_take (hafter : l.after.Of source) : Keeps source n (take l) := by
  intro s a s' hs hp
  cases hp
  exact ⟨hafter, Nat.le_refl _, hs.count, hs.le, hs.spelled⟩

theorem keeps_skipChars (length : Nat) : Keeps source n (skipChars length) := by
  intro s a s' hs hp
  cases hp
  exact ⟨hs.cursor.drop length, Nat.le_refl _, hs.count, hs.le, hs.spelled⟩

theorem keeps_takeLayout (hafter : l.after.Of source) : Keeps source n (takeLayout l) := by
  refine (keeps_take hafter).bind fun _ => ?_
  split
  · exact Keeps.modify fun _ => ⟨rfl, rfl, rfl, rfl⟩
  · exact Keeps.modify fun _ => ⟨rfl, rfl, rfl, rfl⟩
  · exact Runs.done _

/-- A token as a node of its own. -/
theorem makes_leaf_of_spelled (hafter : l.after.Of source) (hkind : kind.isTrivia = false)
    (hspelled : IsSpelled source (node kind none ⟨l.before.position, l.after.position⟩ [])) :
    Makes source l (leaf kind l) := by
  intro n s a s' hs hp
  cases hp
  obtain ⟨⟨cursor, stop_le, count, le, spelled⟩, rfl⟩ := hs
  refine ⟨⟨hafter, Nat.le_refl _, ?_, Nat.le_succ _, List.forall_mem_cons.2 ⟨hspelled, spelled⟩⟩, ?_⟩
  · exact congrArg (· + 1) count
  · exact ⟨[], kind, none, [], s.finished, rfl, count.symm, hkind, List.forall_mem_nil _⟩

theorem makes_leaf (hafter : l.after.Of source) (hkind : kind.isTrivia = false)
    (hdottable : kind.isDottable = false) : Makes source l (leaf kind l) :=
  makes_leaf_of_spelled hafter hkind (isSpelled_of_not_isDottable hdottable (List.forall_mem_nil _))

theorem makes_identifier {keyword : Option Keyword} (hl : l.Fits source)
    (htoken : l.token = .word keyword) : Makes source l (leaf .identifier l) := by
  refine makes_leaf_of_spelled hl.after rfl (isSpelled_node.2 ⟨?_, List.forall_mem_nil _⟩)
  exact ⟨fun _ => ⟨hl.word keyword htoken, hl.le⟩, (nomatch ·)⟩

theorem keeps_identifier : Keeps source n identifier := by
  refine .peeking fun l hl => ?_
  split
  next htoken => exact (makes_identifier hl htoken).keeps
  · exact runs_fail _

theorem keeps_sign (which : Sign) (expected : Expected) :
    Keeps source n (sign which expected) :=
  .peeking fun _ hl => .ite (fun _ => keeps_take hl.after) fun _ => runs_fail _

theorem keeps_keyword (which : Keyword) (expected : Expected) :
    Keeps source n (keyword which expected) :=
  .peeking fun _ hl => .ite (fun _ => keeps_take hl.after) fun _ => runs_fail _

/-! ### Steps that change nodes -/

theorem keeps_mapSince (count : Nat) {f : Tree → Tree}
    (hf : ∀ t, IsSpelled source t → IsSpelled source (f t)) :
    Keeps source n (mapSince count f) := by
  intro s a s' hs hp
  cases hp
  obtain ⟨cursor, stop_le, count', le, spelled⟩ := hs
  refine ⟨cursor, stop_le, ?_, le, fun t ht => ?_⟩
  · dsimp only
    rw [count', List.splitAt_eq, List.length_append, List.length_map, ← List.length_append,
      List.take_append_drop]
  · dsimp only at ht
    rw [List.splitAt_eq] at ht
    rcases List.mem_append.1 ht with ht | ht
    · obtain ⟨u, hu, rfl⟩ := List.mem_map.1 ht
      have hu := spelled u (List.mem_of_mem_take hu)
      split
      · exact hu
      · exact hf u hu
    · exact spelled t (List.mem_of_mem_drop ht)

theorem keeps_withRole (count : Nat) (role : Role) :
    Keeps source n (mapSince count (·.withRole role)) :=
  keeps_mapSince count fun _ h => h.withRole role

theorem keeps_inRole {role : Role} {body : Parse Unit} (h : Keeps source n body) :
    Keeps source n (inRole role body) :=
  Runs.get fun _ _ => h.bind fun _ => keeps_withRole _ role

theorem keeps_since (count : Nat) : Keeps source n (since count) :=
  Runs.get fun _ _ => .done _

theorem keeps_retarget (count : Nat) : Keeps source n (retarget count) := by
  refine (keeps_since count).bind fun ts => (Keeps.forIn (fun t _ => ?_) _ _).bind fun _ => ?_
  · split
    · exact (runs_fail _).bind fun _ => .done _
    · exact Runs.bind (.done _) fun _ => .done _
  · refine keeps_mapSince count fun t ht => ?_
    cases htarget : t.asTarget? with
    | none => exact ht
    | some target => exact ht.asTarget? htarget

/-- Closing a construct of which the new node has the parts of dotted names where they should be. -/
theorem runs_close_of_spelled (hkind : kind.isTrivia = false)
    (hclosed : ∀ s, P s → Ready source m.count s ∧ IsSpelled source (closedNode m kind s)) :
    Runs P (close m kind) (Spanned source m) := by
  intro s a s' hs hp
  obtain ⟨⟨cursor, stop_le, count, le, spelled⟩, hnew⟩ := hclosed s hs
  let outside := (recentSince m.count s).takeWhile (isOutside s)
  let older := s.finished.drop (s.count - m.count)
  -- The nodes since the mark become children of the new one, but for the trivia behind its end.
  obtain rfl : s' = { s with
      finished := outside ++ closedNode m kind s :: older
      count := m.count + 1 + outside.length } := by
    cases hp
    rfl
  have holder : older.length = m.count := by
    rw [List.length_drop, ← count]
    omega
  refine ⟨⟨cursor, stop_le, ?_, ?_, ?_⟩, outside, kind, none, _, older, rfl, holder, hkind, ?_⟩
  · simp only [List.length_append, List.length_cons, holder]
    omega
  · exact Nat.le_trans (Nat.le_succ _) (Nat.le_add_right _ _)
  · intro t ht
    rcases List.mem_append.1 ht with ht | ht
    · exact spelled t (List.mem_of_mem_take ((List.takeWhile_sublist _).mem ht))
    · rcases List.mem_cons.1 ht with rfl | ht
      · exact hnew
      · exact spelled t (List.mem_of_mem_drop ht)
  · intro t ht
    have houtside := List.mem_takeWhile_imp ht
    rw [isOutside, Bool.and_eq_true] at houtside
    exact houtside.1

/-- Closing a construct that is no part of a dotted name. -/
theorem runs_close_spans (hkind : kind.isTrivia = false) (hdottable : kind.isDottable = false) :
    Runs (Ready source m.count) (close m kind) (Spanned source m) := by
  refine runs_close_of_spelled hkind fun s hs => ⟨hs, ?_⟩
  refine isSpelled_of_not_isDottable hdottable fun c hc => hs.spelled c ?_
  exact List.mem_of_mem_take ((List.dropWhile_sublist _).mem (List.mem_reverse.1 hc))

theorem keeps_close (hkind : kind.isTrivia = false) (hdottable : kind.isDottable = false) :
    Keeps source m.count (close m kind) :=
  (runs_close_spans hkind hdottable).imp fun _ hs => hs.1

end Parse

/-! ### Members -/

structure HasObject (source : List Char) (m : Parse.Mark) (s : Progress) (newer : List Tree)
    (object : Tree) (older : List Tree) : Prop where
  finished : s.finished = newer ++ object :: older
  length : older.length = m.count
  trivia : ∀ t ∈ newer, t.isTrivia
  isObject : object.hasRole .object
  start : object.start = m.start
  le : object.extent.stop.offset ≤ s.stop.offset
  dot : '.' ∈ stretch source object.extent.stop.offset s.stop.offset

structure HasMember (source : List Char) (m : Parse.Mark) (s : Progress) (member : Tree)
    (newer : List Tree) (object : Tree) (older : List Tree) : Prop where
  finished : s.finished = member :: newer ++ object :: older
  length : older.length = m.count
  trivia : ∀ t ∈ newer, t.isTrivia
  isObject : object.hasRole .object
  start : object.start = m.start
  isIdentifier : member.isKind .identifier
  stop : member.extent.stop = s.stop
  le : object.extent.stop.offset ≤ member.start.offset
  dot : '.' ∈ between source object member

theorem Spans.of_passes (h : Spans m s) (hs : Passes source n s s') : Spans m s' := by
  obtain ⟨newer, kind, role, children, older, hfinished, hlength, hkind, hnewer⟩ := h
  obtain ⟨-, hstop, gaps, hgaps, htrivia⟩ := hs
  refine ⟨gaps ++ newer, kind, role, children, older, ?_, hlength, hkind, ?_⟩
  · rw [hgaps, hfinished, hstop, List.append_assoc]
  · exact List.forall_mem_append.2 ⟨htrivia, hnewer⟩

theorem Runs.peeking_spanned {f : Lookahead → Parse α} {expected : Expected}
    (h : ∀ l, l.Fits source → Runs (Spanned source m) (f l) R) :
    Runs (Spanned source m) (Parse.peek expected >>= f) R := by
  intro s a s' hs hp
  have hpeek : Gives (Passes source m.count s) (Parse.peek expected >>= f) fun _ s => R s :=
    (Parse.gives_peek expected s).bind fun l s' a s'' hs' hp =>
      h l hs'.2.1 s' a s'' ⟨hs'.1.ready, hs.2.of_passes hs'.1⟩ hp
  exact hpeek s a s' (.refl hs.1) hp

theorem Runs.of_spanned (h : Runs (Ready source m.count) p R) : Runs (Spanned source m) p R :=
  .of_imp (fun _ hs => hs.1) h

theorem map_trivia {f : Tree → Tree} {ts : List Tree} (h : ∀ t ∈ ts, t.isTrivia) :
    (ts.map fun t : Tree => if t.isTrivia then t else f t) = ts := by
  conv_rhs => rw [← List.map_id ts]
  exact List.map_congr_left fun t ht => if_pos (h t ht)

namespace Parse

theorem mapSince_append {newer older : List Tree} {f : Tree → Tree}
    (hfinished : s.finished = newer ++ older) (hcount : s.count = s.finished.length) :
    mapSince older.length f s = .ok ((), { s with
      finished := (newer.map fun t => if t.isTrivia then t else f t) ++ older }) := by
  have hlength : s.count - older.length = newer.length := by
    rw [hcount, hfinished, length_sub_length]
  change Except.ok ((), { s with
    finished := ((s.finished.splitAt (s.count - older.length)).1.map fun t : Tree =>
      if t.isTrivia then t else f t) ++ (s.finished.splitAt (s.count - older.length)).2 }) = _
  rw [hlength, hfinished, List.splitAt_eq, List.take_left, List.drop_left]

/-- What was read since the mark is the object, and a dot follows. -/
theorem runs_object (hl : l.Fits source) (hdot : l.token = .sign .dot) :
    Runs (fun s => Spanned source m s ∧ s.stop.offset ≤ l.before.position.offset)
      (do
        mapSince m.count (·.withRole .object)
        take l)
      fun s => Ready source m.count s ∧ ∃ newer object older,
        HasObject source m s newer object older := by
  rintro s a s'' ⟨⟨hready, hspans⟩, hle⟩ hp
  have hready' : Ready source m.count s'' :=
    ((keeps_withRole m.count .object).bind fun _ => keeps_take hl.after) s a s'' hready hp
  obtain ⟨newer, kind, role, children, older, hfinished, hlength, hkind, hnewer⟩ := hspans
  have happend : s.finished = newer ++ [node kind role ⟨m.start, s.stop⟩ children] ++ older := by
    rw [hfinished, List.append_assoc, List.singleton_append]
  have hmap := mapSince_append (f := (·.withRole .object)) happend hready.count
  rw [hlength, List.map_append, map_trivia hnewer, List.append_assoc] at hmap
  change (mapSince m.count (·.withRole .object) s).bind (fun r => take l r.2) = _ at hp
  rw [hmap] at hp
  cases hp
  refine ⟨hready', newer, node kind (some .object) ⟨m.start, s.stop⟩ children, older, ?_, hlength,
    hnewer, beq_self_eq_true _, rfl, Nat.le_trans hle hl.le, ?_⟩
  · simp [isTrivia, kind?, hkind, withRole]
  · refine mem_stretch_of_le hle hl.le (Nat.le_refl _) ?_
    rw [hl.dot hdot]
    exact List.mem_singleton_self _

theorem gives_identifier (s₀ : Progress) :
    Gives (Passes source n s₀) identifier fun _ s => Ready source n s ∧ ∃ start gaps,
      s.finished = node .identifier none ⟨start, s.stop⟩ [] :: gaps ++ s₀.finished ∧
        (∀ t ∈ gaps, t.isTrivia) ∧ s₀.stop.offset ≤ start.offset := by
  refine (gives_peek {} s₀).bind fun l => ?_
  split
  next htoken =>
    rintro s a s' ⟨⟨hready, hstop, gaps, hgaps, htrivia⟩, hl, hle⟩ hp
    have hready' := (makes_identifier hl htoken).keeps s a s' hready hp
    cases hp
    refine ⟨hready', l.before.position, gaps, ?_, htrivia, hle⟩
    rw [List.cons_append, ← hgaps]
  next => exact fun _ _ _ _ hp => nomatch hp

theorem runs_member :
    Runs (fun s => Ready source m.count s ∧ ∃ newer object older,
        HasObject source m s newer object older)
      (inRole .member identifier)
      fun s => Ready source m.count s ∧ ∃ member newer object older,
        HasMember source m s member newer object older := by
  rintro s₀ a s'' ⟨hready, newer, object, older, hobject⟩ hp
  have hread : Gives (Passes source m.count s₀)
      (do identifier; mapSince s₀.count (·.withRole .member)) fun _ s =>
        Ready source m.count s ∧ ∃ member newer object older,
          HasMember source m s member newer object older := by
    refine (gives_identifier s₀).bind fun _ s a s' hs hp => ?_
    obtain ⟨hready', start, gaps, hfinished, htrivia, hle⟩ := hs
    have hnew := keeps_withRole s₀.count .member s a s' hready' hp
    have hmap := mapSince_append (f := (·.withRole .member)) hfinished hready'.count
    rw [← hready.count, List.map_cons, map_trivia htrivia] at hmap
    rw [hmap] at hp
    cases hp
    refine ⟨hnew, node .identifier (some .member) ⟨start, s.stop⟩ [], gaps ++ newer, object, older,
      ?_, hobject.length, List.forall_mem_append.2 ⟨htrivia, hobject.trivia⟩, hobject.isObject,
      hobject.start, rfl, rfl, Nat.le_trans hobject.le hle, ?_⟩
    · simp [hobject.finished, isTrivia, kind?, Kind.isTrivia, withRole]
    · exact mem_stretch_of_le (Nat.le_refl _) hobject.le hle hobject.dot
  exact hread s₀ a s'' (.refl hready) hp

/-- The node of a member access that is closed behind its member. -/
theorem closedNode_of_hasMember {member object : Tree} {newer older : List Tree}
    (hready : Ready source m.count s) (hmember : HasMember source m s member newer object older) :
    closedNode m .memberAccess s =
      node .memberAccess none ⟨m.start, s.stop⟩ (object :: (newer.reverse ++ [member])) := by
  have hlength : s.count - m.count = (member :: newer ++ [object]).length := by
    rw [hready.count, hmember.finished, ← hmember.length]
    simp only [List.cons_append, List.length_cons, List.length_append, List.length_nil]
    omega
  have hrecent : recentSince m.count s = member :: (newer ++ [object]) := by
    rw [recentSince, hlength, hmember.finished, ← List.singleton_append (l := older),
      ← List.append_assoc]
    exact List.take_left
  have hkind : member.isTrivia = false := by
    have hidentifier := hmember.isIdentifier
    rw [isKind, beq_iff_eq] at hidentifier
    rw [isTrivia, hidentifier]
    rfl
  have hinside : (recentSince m.count s).dropWhile (isOutside s) = member :: (newer ++ [object]) := by
    rw [hrecent, List.dropWhile_cons, isOutside, hkind, Bool.false_and, if_neg Bool.false_ne_true]
  rw [closedNode, hinside]
  simp

end Parse

/-- Gaps are no identifiers and the object has another role, so the identifier is the member. -/
theorem HasMember.eq_of_find? {member object found : Tree} {newer older : List Tree}
    (h : HasMember source m s member newer object older)
    (hfound : (object :: (newer.reverse ++ [member])).find? (·.hasRole .member) = some found)
    (hkind : found.isKind .identifier) : found = member := by
  have hrole : found.hasRole .member := List.find?_some (p := fun t : Tree => t.hasRole .member) hfound
  rcases List.mem_cons.1 (List.mem_of_find?_eq_some hfound) with rfl | hmem
  · have hobject := h.isObject
    rw [hasRole, beq_iff_eq] at hrole hobject
    rw [hrole] at hobject
    cases hobject
  rcases List.mem_append.1 hmem with hgap | hmem
  · have htrivia := h.trivia found (List.mem_reverse.1 hgap)
    rw [isKind, beq_iff_eq] at hkind
    rw [isTrivia, hkind] at htrivia
    cases htrivia
  · exact List.mem_singleton.1 hmem

namespace Parse

/-- A member access that is closed behind its member has its parts where they should be. -/
theorem runs_close_member :
    Runs (fun s => Ready source m.count s ∧ ∃ member newer object older,
        HasMember source m s member newer object older)
      (close m .memberAccess) (Spanned source m) := by
  refine runs_close_of_spelled rfl ?_
  rintro s ⟨hready, member, newer, object, older, hmember⟩
  refine ⟨hready, ?_⟩
  rw [closedNode_of_hasMember hready hmember, isSpelled_node]
  refine ⟨⟨(nomatch ·), fun _ hsome => ?_⟩, fun c hc => ?_⟩
  · obtain ⟨names, hnames⟩ := Option.isSome_iff_exists.1 hsome
    obtain ⟨ids, found, -, hfound, hkind, -⟩ := identifiers?_memberAccess_iff.1 hnames
    obtain rfl := hmember.eq_of_find? hfound hkind
    exact ⟨object, found, rfl, hmember.isObject, hfound, hmember.start, hmember.stop, hmember.le,
      hmember.dot⟩
  · refine hready.spelled c ?_
    rw [hmember.finished]
    simp only [List.mem_cons, List.mem_append, List.mem_reverse, List.not_mem_nil, or_false] at hc ⊢
    tauto

end Parse

theorem Runs.taking {f : Unit → Parse α} (hl : l.after.Of source)
    (h : ∀ u, Runs (Ready source n) (f u) R) :
    Runs (Ready source n) (Parse.take l >>= f) R := (Parse.keeps_take hl).bind h

end SourceCorpus.Syntax
