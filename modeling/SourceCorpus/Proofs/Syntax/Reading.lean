import SourceCorpus.Proofs.Syntax.Shape
import SourceCorpus.Syntax.Builder

/-!
What parsers leave among the finished nodes. A statement tells what the nodes finished since some
point are like, and a parser that only adds nodes adds the same behind any others.
-/

namespace SourceCorpus.Syntax

def content (ts : List Tree) : List Tree := ts.filter (!·.isTrivia)

/-- The nodes finished behind `older` are as told; gaps are not counted. The newest come first. -/
def Holds (older : List Tree) (L : List Tree → Prop) (s : Progress) : Prop :=
  s.count = s.finished.length ∧
    ∃ recent, s.finished = recent ++ older ∧ (∀ t ∈ recent, t.isTrivia → IsGap t) ∧
      L (content recent)

def Begins (older : List Tree) (s : Progress) : Prop :=
  s.count = s.finished.length ∧ s.finished = older

/-- A node is finished behind `older`, gaps included the first one, and the nodes behind it are as
told. -/
def HoldsFirst (older : List Tree) (T : Tree → Prop) (L : List Tree → Prop) (s : Progress) : Prop :=
  ∃ first, first.isTrivia = false ∧ T first ∧ Holds (first :: older) L s

/-- From any progress of the first kind the parser comes to one of the second kind, if it does not
refuse the text. -/
def Runs {α : Type} (P : Progress → Prop) (p : Parse α) (Q : Progress → Prop) : Prop :=
  ∀ s a s', P s → p s = .ok (a, s') → Q s'

def Nothing (ts : List Tree) : Prop := ts = []

def All (P : Tree → Prop) (ts : List Tree) : Prop := ∀ t ∈ ts, P t

def One (P : Tree → Prop) (ts : List Tree) : Prop := ∃ t, ts = [t] ∧ P t

def Behind (new old : List Tree → Prop) (ts : List Tree) : Prop :=
  ∃ ns os, ts = ns ++ os ∧ new ns ∧ old os

def Has (Q T : Tree → Prop) (ts : List Tree) : Prop := All T ts ∧ ∃ t ∈ ts, Q t

def Adds {α : Type} (p : Parse α) (L : List Tree → Prop) : Prop :=
  ∀ older, Runs (Holds older Nothing) p (Holds older L)

def Quiet {α : Type} (p : Parse α) : Prop := ∀ older L, Runs (Holds older L) p (Holds older L)

/-- The token stands ahead, and loops go round at least once. -/
structure Saw (expected : Expected) (l : Lookahead) (s : Progress) : Prop where
  again : Parse.peek expected s = .ok (l, s)
  limit : s.limit ≠ 0

variable {α β : Type} {older : List Tree} {L L' : List Tree → Prop} {p : Parse α}
  {P Q R : Progress → Prop} {T U V : Tree → Prop} {ts : List Tree} {s : Progress}

/-! ### Lists of nodes -/

theorem One.all (h : One T ts) : All T ts := by
  obtain ⟨t, rfl, ht⟩ := h
  exact List.forall_mem_singleton.2 ht

theorem One.imp (h : One T ts) (himp : ∀ t, T t → U t) : One U ts := by
  obtain ⟨t, rfl, ht⟩ := h
  exact ⟨t, rfl, himp t ht⟩

theorem One.map {f : Tree → Tree} (h : One T ts) (himp : ∀ t, T t → U (f t)) :
    One U (ts.map f) := by
  obtain ⟨t, rfl, ht⟩ := h
  exact ⟨f t, rfl, himp t ht⟩

theorem All.imp (h : All T ts) (himp : ∀ t, T t → U t) : All U ts := fun t ht => himp t (h t ht)

theorem All.map {f : Tree → Tree} (h : All T ts) (himp : ∀ t, T t → U (f t)) :
    All U (ts.map f) := by
  intro u hu
  obtain ⟨t, ht, rfl⟩ := List.mem_map.1 hu
  exact himp t (h t ht)

theorem Nothing.all (h : Nothing ts) : All T ts := by
  rw [h]
  exact List.forall_mem_nil _

theorem Behind.of_nothing (h : Behind L Nothing ts) : L ts := by
  obtain ⟨ns, os, rfl, hL, rfl⟩ := h
  rwa [List.append_nil]

theorem Behind.all (h : Behind (All T) (All U) ts) (hT : ∀ t, T t → V t) (hU : ∀ t, U t → V t) :
    All V ts := by
  obtain ⟨ns, os, rfl, hns, hos⟩ := h
  intro t ht
  rcases List.mem_append.1 ht with ht | ht
  · exact hT t (hns t ht)
  · exact hU t (hos t ht)

theorem Has.behind {Q : Tree → Prop} (h : Behind (All T) (Has Q T) ts) : Has Q T ts := by
  obtain ⟨ns, os, rfl, hns, hos, t, ht, hQ⟩ := h
  exact ⟨List.forall_mem_append.2 ⟨hns, hos⟩, t, List.mem_append_right ns ht, hQ⟩

theorem content_append (ts us : List Tree) : content (ts ++ us) = content ts ++ content us :=
  List.filter_append ..

/-! ### Finished nodes -/

namespace Holds

theorem imp (h : Holds older L s) (himp : ∀ ts, L ts → L' ts) : Holds older L' s := by
  obtain ⟨hcount, recent, hfinished, hgaps, hL⟩ := h
  exact ⟨hcount, recent, hfinished, hgaps, himp _ hL⟩

theorem of_begins (h : Begins older s) : Holds older Nothing s :=
  ⟨h.1, [], h.2, List.forall_mem_nil _, rfl⟩

theorem nothing (h : Holds older L s) : Holds s.finished Nothing s := of_begins ⟨h.1, rfl⟩

/-- Nodes that are added stand behind those that are there. -/
theorem behind {s' : Progress} (h : Holds older L s) (h' : Holds s.finished L' s') :
    Holds older (Behind L' L) s' := by
  obtain ⟨-, recent, hfinished, hgaps, hL⟩ := h
  obtain ⟨hcount, recent', hfinished', hgaps', hL'⟩ := h'
  -- Newer nodes come first in the list.
  refine ⟨hcount, recent' ++ recent, ?_, ?_, content recent', content recent, ?_, hL', hL⟩
  · rw [hfinished', hfinished, List.append_assoc]
  · intro t ht
    rcases List.mem_append.1 ht with ht | ht
    · exact hgaps' t ht
    · exact hgaps t ht
  · exact content_append recent' recent

end Holds

namespace HoldsFirst

theorem imp (h : HoldsFirst older T L s) (hT : ∀ t, T t → U t) (hL : ∀ ts, L ts → L' ts) :
    HoldsFirst older U L' s := by
  obtain ⟨first, hfirst, hnode, hs⟩ := h
  exact ⟨first, hfirst, hT first hnode, hs.imp hL⟩

/-- The first node is one among others. -/
theorem holds (h : HoldsFirst older T L s) : Holds older (Behind L (One T)) s := by
  obtain ⟨first, hfirst, hnode, hcount, recent, hfinished, hgaps, hL⟩ := h
  have hcontent : content [first] = [first] := by simp [content, hfirst]
  refine ⟨hcount, recent ++ [first], ?_, ?_, content recent, [first], ?_, hL, first, rfl, hnode⟩
  · rw [hfinished, List.append_assoc, List.singleton_append]
  · refine List.forall_mem_append.2 ⟨hgaps, List.forall_mem_singleton.2 fun htrivia => ?_⟩
    rw [hfirst] at htrivia
    cases htrivia
  · rw [content_append, hcontent]

theorem one (h : HoldsFirst older T Nothing s) : Holds older (One T) s :=
  h.holds.imp fun _ hts => by
    obtain ⟨ns, os, rfl, rfl, hos⟩ := hts
    exact hos

end HoldsFirst

/-! ### Rules -/

namespace Runs

theorem imp (h : Runs P p Q) (himp : ∀ s, Q s → R s) : Runs P p R :=
  fun s a s' hs hp => himp s' (h s a s' hs hp)

theorem of_imp (himp : ∀ s, P s → Q s) (h : Runs Q p R) : Runs P p R :=
  fun s a s' hs hp => h s a s' (himp s hs) hp

theorem done (a : α) : Runs P (pure a : Parse α) P := by
  intro s b s' hs hp
  cases hp
  exact hs

theorem bind {f : α → Parse β} (hp : Runs P p Q) (hf : ∀ a, Runs Q (f a) R) :
    Runs P (p >>= f) R := by
  intro s b s'' hs h
  change (p s).bind (fun r => f r.1 r.2) = _ at h
  cases hr : p s with
  | error => rw [hr] at h; cases h
  | ok r =>
    rw [hr] at h
    exact hf r.1 r.2 b s'' (hp s r.1 r.2 hs hr) h

theorem ite {c : Prop} [Decidable c] {q : Parse α} (hp : c → Runs P p Q) (hq : ¬c → Runs P q Q) :
    Runs P (if c then p else q) Q := by
  split
  · next h => exact hp h
  · next h => exact hq h

/-- A part that may be missing. -/
theorem optional {c : Prop} [Decidable c] {q : Parse Unit} {f : Unit → Parse α}
    (hq : Runs P q P) (hf : Runs P (f ()) Q) : Runs P (if c then q >>= f else f ()) Q :=
  .ite (fun _ => hq.bind fun _ => hf) fun _ => hf

theorem get {f : Progress → Parse α} (h : ∀ before, P before → Runs P (f before) Q) :
    Runs P (get >>= f) Q := fun s a s' hs hp => h s hs s a s' hs hp

theorem set {before : Progress} (h : Q before) : Runs P (set before : Parse PUnit) Q := by
  intro s a s' _ hp
  cases hp
  exact h

theorem throw (r : Refusal) : Runs P (throw r : Parse α) Q := fun _ _ _ _ hp => nomatch hp

theorem throw_bind (r : Refusal) (f : α → Parse β) :
    Runs P ((MonadExcept.throw r : Parse α) >>= f) Q := fun _ _ _ _ hp => nomatch hp

theorem orElse {q : Parse α} (hp : Runs P p Q) (hq : Runs P q Q) : Runs P (Parse.orElse p q) Q := by
  intro s a s' hs h
  unfold Parse.orElse at h
  split at h
  · next r hr =>
    cases h
    exact hp s a s' hs hr
  · exact hq s a s' hs h

theorem loop {body : Parse Bool} (h : Runs P body P) (rounds : Nat) :
    Runs P (Parse.loop body rounds) P := by
  induction rounds with
  | zero => exact .done ()
  | succ rounds ih => exact h.bind fun _ => .ite (fun _ => ih) fun _ => .done ()

theorem repeated {body : Parse Bool} (h : Runs P body P) : Runs P (Parse.repeated body) P :=
  .get fun _ _ => .loop h _

theorem quiet_bind {f : α → Parse β} (hp : Quiet p) (hf : ∀ a, Runs (Holds older L) (f a) R) :
    Runs (Holds older L) (p >>= f) R := (hp older L).bind hf

/-- A parser that may begin behind nodes of some sort may begin behind none. -/
theorem of_all (h : Runs (Holds older (All T)) p R) : Runs (Holds older Nothing) p R :=
  of_imp (fun _ hs => hs.imp fun _ => Nothing.all) h

theorem all (h : Runs P p (Holds older (One T))) : Runs P p (Holds older (All T)) :=
  h.imp fun _ hs => hs.imp fun _ => One.all

theorem of_one (h : Runs (Holds older (All T)) p R) : Runs (Holds older (One T)) p R :=
  of_imp (fun _ hs => hs.imp fun _ => One.all) h

/-- A construct inside another one. When it is done, its nodes stand behind those of the outer
one. -/
theorem inner {f : Progress → Parse α}
    (h : ∀ before, before.count = before.finished.length →
      (∀ L' s, Holds before.finished L' s → Holds older (Behind L' L) s) →
        Runs (Holds before.finished Nothing) (f before) R) :
    Runs (Holds older L) (MonadState.get >>= f) R := fun s a s' hs hp =>
  h s hs.1 (fun _ _ hs' => hs.behind hs') s a s' hs.nothing hp

theorem mark {f : Parse.Mark → Parse α} (l : Lookahead)
    (h : ∀ inner m, m.count = inner.length →
      (∀ L' s, Holds inner L' s → Holds older (Behind L' L) s) →
        Runs (Holds inner Nothing) (f m) R) :
    Runs (Holds older L) (Parse.markAt l >>= f) R :=
  inner (f := fun s => f ⟨s.count, l.place⟩) fun before hbefore =>
    h before.finished ⟨before.count, l.place⟩ hbefore

/-- What a parser does behind the first node. -/
theorem first (h : ∀ first, first.isTrivia = false → T first → Runs (Holds (first :: older) L) p R) :
    Runs (HoldsFirst older T L) p R := by
  rintro s a s' ⟨first, hfirst, hnode, hs⟩ hp
  exact h first hfirst hnode s a s' hs hp

/-- The construct inside is done. -/
theorem back {inner : List Tree}
    (hback : ∀ L' s, Holds inner L' s → Holds older (Behind L' (All T)) s)
    (h : Runs (Holds older (All T)) p R) : Runs (Holds inner (All T)) p R :=
  of_imp (fun s hs => (hback _ s hs).imp fun _ hts =>
    hts.all (fun _ ht => ht) fun _ ht => ht) h

theorem out {inner : List Tree}
    (hback : ∀ L' s, Holds inner L' s → Holds older (Behind L' (All T)) s)
    (h : Runs P p (Holds inner (All T))) : Runs P p (Holds older (All T)) :=
  h.imp fun s hs => (hback _ s hs).imp fun _ hts => hts.all (fun _ ht => ht) fun _ ht => ht

end Runs

namespace Adds

theorem imp (h : Adds p L) (himp : ∀ ts, L ts → L' ts) : Adds p L' := fun older =>
  (h older).imp fun _ hs => hs.imp himp

theorem behind (h : Adds p L') : Runs (Holds older L) p (Holds older (Behind L' L)) :=
  fun s a s' hs hp => hs.behind (h s.finished s a s' hs.nothing hp)

theorem all (h : Adds p (One T)) : Adds p (All T) := h.imp fun _ => One.all

/-- Among nodes of the same sort, added nodes need no mention. -/
theorem keeps (h : Adds p (All T)) : Runs (Holds older (All T)) p (Holds older (All T)) :=
  h.behind.imp fun _ hs => hs.imp fun _ hts => hts.all (fun _ ht => ht) fun _ ht => ht

theorem keeps_has {Q : Tree → Prop} (h : Adds p (All T)) :
    Runs (Holds older (Has Q T)) p (Holds older (Has Q T)) :=
  h.behind.imp fun _ hs => hs.imp fun _ => Has.behind

theorem of_keeps (h : ∀ older, Runs (Holds older (All T)) p (Holds older (All T))) :
    Adds p (All T) := fun older => .of_all (h older)

theorem ite {c : Prop} [Decidable c] {q : Parse α} (hp : c → Adds p L) (hq : ¬c → Adds q L) :
    Adds (if c then p else q) L := fun older =>
  .ite (fun h => hp h older) fun h => hq h older

/-- The number of finished nodes tells where a parser begins. -/
theorem inner {f : Progress → Parse α}
    (h : ∀ before, before.count = before.finished.length →
      Runs (Holds before.finished Nothing) (f before) (Holds before.finished L)) :
    Adds (get >>= f) L := fun _ =>
  .inner fun before hbefore hback => (h before hbefore).imp fun s hs =>
    (hback L s hs).imp fun _ => Behind.of_nothing

theorem mark {f : Parse.Mark → Parse α} (l : Lookahead)
    (h : ∀ older m, m.count = older.length → Runs (Holds older Nothing) (f m) (Holds older L)) :
    Adds (Parse.markAt l >>= f) L :=
  inner (f := fun s => f ⟨s.count, l.place⟩) fun before hbefore =>
    h before.finished ⟨before.count, l.place⟩ hbefore

/-- A construct that begins with nothing. -/
theorem begin {f : Parse.Mark → Parse α} (l : Lookahead)
    (h : ∀ older m, m.count = older.length → Runs (Begins older) (f m) (Holds older L)) :
    Adds (Parse.markAt l >>= f) L := by
  intro older s a s' hs hp
  have hresult := h s.finished ⟨s.count, l.place⟩ hs.1 s a s' ⟨hs.1, rfl⟩ hp
  exact (hs.behind hresult).imp fun _ => Behind.of_nothing

/-- A construct that is made of nodes of some sort. -/
theorem node (T : Tree → Prop) {f : Parse.Mark → Parse α} (l : Lookahead)
    (h : ∀ older m, m.count = older.length → Runs (Holds older (All T)) (f m) (Holds older L)) :
    Adds (Parse.markAt l >>= f) L :=
  .mark l fun older m hm => .of_all (h older m hm)

end Adds

/-! ### Steps that add nothing -/

theorem Quiet.bind {f : α → Parse β} (hp : Quiet p) (hf : ∀ a, Quiet (f a)) : Quiet (p >>= f) :=
  fun older L => (hp older L).bind fun a => hf a older L

theorem Quiet.pure (a : α) : Quiet (pure a : Parse α) := fun _ _ => .done a

theorem Quiet.modify {f : Progress → Progress}
    (h : ∀ s, (f s).finished = s.finished ∧ (f s).count = s.count) :
    Quiet (modify f : Parse PUnit) := by
  intro older L s a s' hs hp
  cases hp
  obtain ⟨hcount, recent, hfinished, hgaps, hL⟩ := hs
  refine ⟨?_, recent, ?_, hgaps, hL⟩
  · rw [(h s).1, (h s).2, hcount]
  · rw [(h s).1, hfinished]

theorem Quiet.throw (r : Refusal) : Quiet (throw r : Parse α) := fun _ _ _ _ _ _ hp => nomatch hp

theorem Quiet.get : Quiet (get : Parse Progress) := by
  intro older L s a s' hs hp
  cases hp
  exact hs

theorem Quiet.forIn {f : α → PUnit → Parse (ForInStep PUnit)} (h : ∀ a u, Quiet (f a u))
    (as : List α) (u : PUnit) : Quiet (forIn as u f) := by
  induction as generalizing u with
  | nil => exact .pure _
  | cons a as ih =>
    rw [List.forIn_cons]
    refine (h a u).bind fun step => ?_
    cases step with
    | done => exact .pure _
    | yield => exact ih _

/-- A loop that changes nothing and goes on only where a condition is met has checked it for all. -/
theorem forIn_checks {c : α → Prop} {f : α → PUnit → Parse (ForInStep PUnit)}
    (h : ∀ a u s step s', f a u s = .ok (step, s') → s' = s ∧ (∃ v, step = .yield v) ∧ c a)
    (as : List α) {u v : PUnit} {s s' : Progress} (hp : forIn as u f s = .ok (v, s')) :
    s' = s ∧ ∀ a ∈ as, c a := by
  induction as generalizing u with
  | nil =>
    cases hp
    exact ⟨rfl, List.forall_mem_nil _⟩
  | cons a as ih =>
    rw [List.forIn_cons] at hp
    change (f a u s).bind _ = _ at hp
    cases hstep : f a u s with
    | error =>
      rw [hstep] at hp
      cases hp
    | ok r =>
      obtain ⟨hsame, ⟨w, hyield⟩, ha⟩ := h a u s r.1 r.2 hstep
      obtain ⟨step, s''⟩ := r
      obtain rfl : s'' = s := hsame
      obtain rfl : step = .yield w := hyield
      rw [hstep] at hp
      obtain ⟨hs, has⟩ := ih hp
      exact ⟨hs, List.forall_mem_cons.2 ⟨ha, has⟩⟩

def IsLeaf (kind : Kind) (t : Tree) : Prop := ∃ extent, t = .node kind none extent []

theorem IsLeaf.isName {kind : Kind} (hkind : kind.isPlain) {t : Tree} (h : IsLeaf kind t) :
    IsName t := by
  obtain ⟨extent, rfl⟩ := h
  exact .node hkind extent (List.forall_mem_nil _)

theorem IsLeaf.isName_identifier {t : Tree} (h : IsLeaf .identifier t) : IsName t := by
  obtain ⟨extent, rfl⟩ := h
  exact isName_leaf rfl rfl (by trivial) (by decide) extent

def PlainIn (role : Role) (t : Tree) : Prop := Plain t ∧ t.hasRole role

theorem Plain.plainIn {t : Tree} (h : Plain t) {role : Role} (hrole : role.isOrdinary) :
    PlainIn role (t.withRole role) := ⟨h.withRole hrole, h.hasRole_withRole role⟩

namespace Parse

theorem quiet_fail (place : Position) : Quiet (fail place : Parse α) := .throw _

theorem runs_fail (place : Position) : Runs P (fail place : Parse α) Q := .throw _

theorem quiet_take (l : Lookahead) : Quiet (take l) := .modify fun _ => ⟨rfl, rfl⟩

theorem quiet_skipChars (length : Nat) : Quiet (skipChars length) := .modify fun _ => ⟨rfl, rfl⟩

theorem quiet_since (count : Nat) : Quiet (since count) := Quiet.get.bind fun _ => .pure _

theorem quiet_takeLayout (l : Lookahead) : Quiet (takeLayout l) := by
  refine (quiet_take l).bind fun _ => ?_
  split
  · exact .modify fun _ => ⟨rfl, rfl⟩
  · exact .modify fun _ => ⟨rfl, rfl⟩
  · exact .pure _

theorem runs_fail_bind (place : Position) (f : α → Parse β) :
    Runs P ((fail place : Parse α) >>= f) Q := .throw_bind _ f

theorem runs_push {t : Tree} (ht : t.isTrivia → IsGap t) :
    Runs (Holds older L) (push t) (Holds older (Behind (fun ts => ts = content [t]) L)) := by
  intro s a s' hs hp
  cases hp
  obtain ⟨hcount, recent, hfinished, hgaps, hL⟩ := hs
  refine ⟨?_, t :: recent, ?_, List.forall_mem_cons.2 ⟨ht, hgaps⟩, content [t], content recent,
    content_append [t] recent, rfl, hL⟩
  · simp [hcount]
  · simp [hfinished]

theorem quiet_push_gap {kind : Kind} (hkind : kind.isTrivia) (extent : Extent) :
    Quiet (push (.node kind none extent [])) := by
  intro older L
  refine (runs_push fun _ => ⟨kind, extent, rfl, hkind⟩).imp fun _ hs => hs.imp ?_
  rintro _ ⟨ns, os, rfl, rfl, hos⟩
  have hgap : content [Tree.node kind none extent []] = [] := by
    simp [content, Tree.isTrivia, Tree.kind?, hkind]
  rwa [hgap]

theorem quiet_peekWithin (expected : Expected) (rounds : Nat) :
    Quiet (peekWithin expected rounds) := by
  induction rounds with
  | zero => exact Quiet.get.bind fun s => quiet_fail _
  | succ rounds ih =>
    have htrivia {kind : Kind} (hkind : kind.isTrivia) (extent : Extent) (after : Cursor) :
        Quiet (do
          push (.node kind none extent [])
          modify fun s => { s with cursor := after }
          peekWithin expected rounds) :=
      (quiet_push_gap hkind extent).bind fun _ =>
        Quiet.bind (.modify fun _ => ⟨rfl, rfl⟩) fun _ => ih
    refine Quiet.get.bind fun s => ?_
    split
    · exact .pure _
    · dsimp only
      split
      · exact htrivia rfl _ _
      · exact htrivia rfl _ _
      · exact .pure _

theorem quiet_peek (expected : Expected) : Quiet (peek expected) :=
  Quiet.get.bind fun _ => quiet_peekWithin expected _

/-- A look ahead is over, or goes on behind a comment or a joined line. -/
theorem peekWithin_succ (expected : Expected) (s : Progress) :
    (∃ l, ∀ rounds, peekWithin expected (rounds + 1) s = .ok (l, s)) ∨
    ∃ s', s'.limit = s.limit ∧
      ∀ rounds, peekWithin expected (rounds + 1) s = peekWithin expected rounds s' := by
  let before := s.cursor.dropWhile isSpace
  let past (kind : Kind) (length : Nat) : Progress :=
    { s with
      cursor := before.drop length
      finished := .node kind none ⟨before.position, (before.drop length).position⟩ [] :: s.finished
      count := s.count + 1 }
  have hget (f : Progress → Parse Lookahead) : (get >>= f) s = StateT.run (f s) s := rfl
  simp only [peekWithin, hget]
  split
  · exact .inl ⟨_, fun _ => rfl⟩
  · split
    · exact .inr ⟨past .comment _, rfl, fun _ => rfl⟩
    · exact .inr ⟨past .lineContinuation _, rfl, fun _ => rfl⟩
    · exact .inl ⟨_, fun _ => rfl⟩

/-- What is seen ahead is seen again. -/
theorem peekWithin_again {expected : Expected} {l : Lookahead} {s s' : Progress} {rounds : Nat}
    (h : peekWithin expected rounds s = .ok (l, s')) :
    s'.limit = s.limit ∧ ∀ more, peekWithin expected (more + 1) s' = .ok (l, s') := by
  induction rounds generalizing s with
  | zero => cases h
  | succ rounds ih =>
    rcases peekWithin_succ expected s with ⟨l', hstays⟩ | ⟨s₁, hlimit, hgoes⟩
    · rw [hstays] at h
      cases h
      exact ⟨rfl, hstays⟩
    · rw [hgoes] at h
      exact ⟨(ih h).1.trans hlimit, (ih h).2⟩

theorem saw_of_peek {expected : Expected} {l : Lookahead} {s s' : Progress}
    (h : peek expected s = .ok (l, s')) : Saw expected l s' := by
  change peekWithin expected s.limit s = _ at h
  obtain ⟨hlimit, hagain⟩ := peekWithin_again h
  have hrounds : s'.limit ≠ 0 := by
    intro hzero
    rw [← hlimit, hzero] at h
    cases h
  refine ⟨?_, hrounds⟩
  obtain ⟨more, hmore⟩ := Nat.exists_eq_succ_of_ne_zero hrounds
  change peekWithin expected s'.limit s' = _
  rw [hmore]
  exact hagain more

theorem quiet_sign (which : Sign) (expected : Expected) : Quiet (sign which expected) := by
  refine (quiet_peek expected).bind fun l => ?_
  split
  · exact quiet_take l
  · exact quiet_fail _

theorem quiet_keyword (which : Keyword) (expected : Expected) : Quiet (keyword which expected) := by
  refine (quiet_peek expected).bind fun l => ?_
  split
  · exact quiet_take l
  · exact quiet_fail _

/-! ### Steps that build nodes -/

theorem runs_leaf {kind : Kind} (hkind : kind.isTrivia = false) (l : Lookahead) :
    Runs (Holds older L) (leaf kind l) (Holds older (Behind (One (IsLeaf kind)) L)) := by
  refine .quiet_bind (quiet_take l) fun _ => (runs_push ?_).imp fun _ hs => hs.imp ?_
  · intro htrivia
    change kind.isTrivia = true at htrivia
    rw [hkind] at htrivia
    cases htrivia
  · rintro _ ⟨ns, os, rfl, rfl, hos⟩
    refine ⟨_, os, rfl, ⟨.node kind none ⟨l.before.position, l.after.position⟩ [], ?_, ?_⟩, hos⟩
    · simp [content, Tree.isTrivia, Tree.kind?, hkind]
    · exact ⟨_, rfl⟩

/-- A leaf that comes first. -/
theorem runs_leaf_first {kind : Kind} (hkind : kind.isTrivia = false) (l : Lookahead) :
    Runs (Begins older) (leaf kind l) (HoldsFirst older (IsLeaf kind) Nothing) := by
  rintro s a s' ⟨hcount, rfl⟩ hp
  cases hp
  refine ⟨.node kind none ⟨l.before.position, l.after.position⟩ [], hkind, ⟨_, rfl⟩, ?_, [], rfl,
    List.forall_mem_nil _, rfl⟩
  simp [hcount]

theorem adds_leaf {kind : Kind} (hkind : kind.isTrivia = false) (l : Lookahead) :
    Adds (leaf kind l) (One (IsLeaf kind)) := fun _ =>
  (runs_leaf hkind l).imp fun _ hs => hs.imp fun _ => Behind.of_nothing

theorem length_sub_length (recent older : List Tree) :
    (recent ++ older).length - older.length = recent.length := by
  rw [List.length_append]
  omega

theorem content_takeWhile (p : Tree → Bool) (ts : List Tree) :
    content (ts.takeWhile fun t => t.isTrivia && p t) = [] := by
  induction ts with
  | nil => rfl
  | cons t ts ih =>
    rw [List.takeWhile_cons]
    split
    · next h =>
      rw [Bool.and_eq_true] at h
      simpa [content, h.1] using ih
    · rfl

/-- What is known of a node that is closed: its children are the nodes finished since the mark, oldest
first, up to gaps at the end. -/
theorem runs_close_recent {m : Mark} (hm : m.count = older.length) {kind : Kind}
    (hkind : kind.isTrivia = false) {P : List Tree → Prop}
    (h : ∀ extent outside inside, content outside = [] → (∀ c ∈ inside, c.isTrivia → IsGap c) →
      P (outside ++ inside) → T (.node kind none extent inside.reverse)) :
    Runs (fun s => s.count = s.finished.length ∧ ∃ recent, s.finished = recent ++ older ∧
      (∀ t ∈ recent, t.isTrivia → IsGap t) ∧ P recent) (close m kind)
      (HoldsFirst older T Nothing) := by
  rintro s a s' ⟨hcount, recent, hfinished, hgaps, hP⟩ hp
  cases hp
  have hlength : s.count - m.count = recent.length := by
    rw [hcount, hm, hfinished, length_sub_length]
  -- Trivia behind the end of the node stay outside of it.
  let isBehind (t : Tree) : Bool := t.start.offset ≥ s.stop.offset
  let outside := recent.takeWhile fun t => t.isTrivia && isBehind t
  let inside := recent.dropWhile fun t => t.isTrivia && isBehind t
  let new : Tree := .node kind none ⟨m.start, s.stop⟩ inside.reverse
  have hnew : T new := by
    refine h _ outside inside (content_takeWhile _ _) (fun c hc => hgaps c ?_) ?_
    · exact (List.dropWhile_sublist _).mem hc
    · rwa [List.takeWhile_append_dropWhile]
  have htake : s.finished.take (s.count - m.count) = recent := by
    rw [hlength, hfinished, List.take_left]
  have hdrop : s.finished.drop (s.count - m.count) = older := by
    rw [hlength, hfinished, List.drop_left]
  refine ⟨new, hkind, hnew, ?_, outside, ?_, fun t ht => hgaps t ?_, ?_⟩
  · dsimp only
    rw [htake, hdrop]
    simp only [List.length_append, List.length_cons, hm]
    omega
  · dsimp only
    rw [htake, hdrop]
  · exact (List.takeWhile_sublist _).mem ht
  · exact content_takeWhile _ _

/-- The new node comes first. -/
theorem runs_close_new {m : Mark} (hm : m.count = older.length) {kind : Kind}
    (hkind : kind.isTrivia = false)
    (h : ∀ extent children, (∀ c ∈ children, c.isTrivia → IsGap c) →
      L (content children).reverse → T (.node kind none extent children)) :
    Runs (Holds older L) (close m kind) (HoldsFirst older T Nothing) := by
  refine runs_close_recent hm hkind (P := fun ts => L (content ts)) ?_
  intro extent outside inside houtside hgaps hL
  refine h extent _ (fun c hc => hgaps c (List.mem_reverse.1 hc)) ?_
  rw [content_append, houtside, List.nil_append] at hL
  rwa [content, List.filter_reverse, List.reverse_reverse]

/-- What is known of the children of a node that is closed: gaps apart, they are the nodes finished
since the mark, oldest first. -/
theorem runs_close {m : Mark} (hm : m.count = older.length) {kind : Kind}
    (hkind : kind.isTrivia = false)
    (h : ∀ extent children, (∀ c ∈ children, c.isTrivia → IsGap c) →
      L (content children).reverse → T (.node kind none extent children)) :
    Runs (Holds older L) (close m kind) (Holds older (One T)) :=
  (runs_close_new hm hkind h).imp fun _ => HoldsFirst.one

/-- The first of the children is known, and no gap stands before it. -/
theorem runs_close_first {m : Mark} (hm : m.count = older.length) {kind : Kind}
    (hkind : kind.isTrivia = false)
    (h : ∀ extent first rest, T first → (∀ c ∈ rest, c.isTrivia → IsGap c) →
      L (content rest).reverse → U (.node kind none extent (first :: rest))) :
    Runs (HoldsFirst older T L) (close m kind) (Holds older (One U)) := by
  refine .first fun first hfirst hT => ?_
  have hpast : Runs _ (close m kind) (HoldsFirst older U Nothing) :=
    runs_close_recent hm hkind
      (P := fun ts => ∃ recent, ts = recent ++ [first] ∧ L (content recent)) ?_
  · refine (Runs.of_imp (fun s hs => ?_) hpast).imp fun _ => HoldsFirst.one
    obtain ⟨hcount, recent, hfinished, hgaps, hL⟩ := hs
    refine ⟨hcount, recent ++ [first], ?_, ?_, recent, rfl, hL⟩
    · rw [hfinished, List.append_assoc, List.singleton_append]
    · refine List.forall_mem_append.2 ⟨hgaps, List.forall_mem_singleton.2 fun htrivia => ?_⟩
      rw [hfirst] at htrivia
      cases htrivia
  · rintro extent outside inside houtside hgaps ⟨recent, hrecent, hL⟩
    -- The first node is no gap, so it is not outside.
    obtain ⟨rest, rfl, rfl⟩ : ∃ rest, recent = outside ++ rest ∧ inside = rest ++ [first] := by
      rcases List.append_eq_append_iff.1 hrecent with ⟨rest, hrest, hinside⟩ | ⟨rest, hrest, hlast⟩
      · exact ⟨rest, hrest, hinside⟩
      · rcases List.singleton_eq_append_iff.1 hlast with ⟨rfl, hinside⟩ | ⟨rfl, -⟩
        · exact ⟨[], by simpa using hrest.symm, by simpa using hinside⟩
        · rw [hrest, content_append] at houtside
          simp [content, hfirst] at houtside
    rw [content_append, houtside, List.nil_append] at hL
    rw [List.reverse_append, List.reverse_singleton, List.singleton_append]
    refine h extent first rest.reverse hT (fun c hc => hgaps c ?_) ?_
    · exact List.mem_append_left _ (List.mem_reverse.1 hc)
    · rwa [content, List.filter_reverse, List.reverse_reverse]

theorem isGap_or_of_content {children : List Tree} (hgaps : ∀ c ∈ children, c.isTrivia → IsGap c)
    (hT : All T (content children).reverse) : ∀ c ∈ children, IsGap c ∨ T c := by
  intro c hc
  by_cases htrivia : c.isTrivia
  · exact .inl (hgaps c hc htrivia)
  · refine .inr (hT c ?_)
    simp [content, hc, htrivia]

theorem runs_close_all {m : Mark} (hm : m.count = older.length) {kind : Kind}
    (hkind : kind.isTrivia = false)
    (h : ∀ extent children, (∀ c ∈ children, IsGap c ∨ T c) → U (.node kind none extent children)) :
    Runs (Holds older (All T)) (close m kind) (Holds older (One U)) :=
  runs_close hm hkind fun extent children hgaps hT =>
    h extent children (isGap_or_of_content hgaps hT)

theorem runs_close_has {m : Mark} (hm : m.count = older.length) {kind : Kind}
    (hkind : kind.isTrivia = false) {Q : Tree → Prop}
    (h : ∀ extent children, (∀ c ∈ children, IsGap c ∨ T c) → (∃ c ∈ children, Q c) →
      U (.node kind none extent children)) :
    Runs (Holds older (Has Q T)) (close m kind) (Holds older (One U)) := by
  refine runs_close hm hkind fun extent children hgaps hts => ?_
  obtain ⟨hT, t, ht, hQ⟩ := hts
  have hmem : t ∈ children := (List.mem_filter.1 (List.mem_reverse.1 ht)).1
  exact h extent children (isGap_or_of_content hgaps hT) ⟨t, hmem, hQ⟩

theorem runs_close_parts {m : Mark} (hm : m.count = older.length) {kind : Kind}
    (hkind : kind.isTrivia = false) (hdeclaration : kind.isDeclaration = false)
    (hconfined : kind.isConfined = false) (hcomplete : ∀ children, IsComplete kind children) :
    Runs (Holds older (All (Part kind))) (close m kind) (Holds older (One Plain)) :=
  runs_close_all hm hkind fun _ children h =>
    .of_parts hdeclaration hconfined rfl (hcomplete children) fun c hc =>
      (h c hc).elim (fun hgap => hgap.part kind) id

theorem runs_close_plain {m : Mark} (hm : m.count = older.length) {kind : Kind}
    (hkind : kind.isPlain) :
    Runs (Holds older (All Plain)) (close m kind) (Holds older (One Plain)) :=
  runs_close_all hm (Kind.isTrivia_of_isPlain hkind) fun _ _ h =>
    .node hkind rfl fun c hc => (h c hc).elim IsGap.plain id

theorem runs_close_all_plain {m : Mark} (hm : m.count = older.length) {kind : Kind}
    (hkind : kind.isPlain) :
    Runs (Holds older (All Plain)) (close m kind) (Holds older (All Plain)) :=
  (runs_close_plain hm hkind).all

theorem runs_mapSince {count : Nat} (hcount : count = older.length) {f : Tree → Tree}
    (hf : ∀ t, t.isTrivia = false → (f t).isTrivia = false)
    (himp : ∀ ts, L ts → L' (ts.map f)) :
    Runs (Holds older L) (mapSince count f) (Holds older L') := by
  intro s a s' hs hp
  cases hp
  obtain ⟨hcount', recent, hfinished, hgaps, hL⟩ := hs
  have hlength : s.count - count = recent.length := by
    rw [hcount', hcount, hfinished, length_sub_length]
  -- Gaps stay as they are.
  let g (t : Tree) : Tree := if t.isTrivia then t else f t
  have hnew : (s.finished.splitAt (s.count - count)).1.map g ++
      (s.finished.splitAt (s.count - count)).2 = recent.map g ++ older := by
    rw [hlength, hfinished, List.splitAt_eq, List.take_left, List.drop_left]
  refine ⟨?_, recent.map g, hnew, ?_, ?_⟩
  · dsimp only
    rw [hnew, hcount', hfinished]
    simp
  · intro t ht htrivia
    obtain ⟨u, hu, rfl⟩ := List.mem_map.1 ht
    by_cases h : u.isTrivia
    · simp only [g, h, if_true] at htrivia ⊢
      exact hgaps u hu h
    · simp [g, h, hf u (by simpa using h)] at htrivia
  · have hcontent : content (recent.map g) = (content recent).map f := by
      clear hfinished hgaps hL hlength hnew
      induction recent with
      | nil => rfl
      | cons t ts ih =>
        by_cases h : t.isTrivia
        · simpa [content, g, h] using ih
        · simpa [content, g, h, hf t (by simpa using h)] using ih
    rw [hcontent]
    exact himp _ hL

theorem runs_withRole {count : Nat} (hcount : count = older.length) {role : Role}
    (himp : ∀ ts, L ts → L' (ts.map (·.withRole role))) :
    Runs (Holds older L) (mapSince count (·.withRole role)) (Holds older L') :=
  runs_mapSince hcount (fun t ht => (isTrivia_withRole role t).trans ht) himp

theorem adds_inRole {role : Role} {body : Parse Unit} (h : Adds body L)
    (himp : ∀ ts, L ts → L' (ts.map (·.withRole role))) : Adds (inRole role body) L' :=
  .inner (f := fun s => do body; mapSince s.count (·.withRole role)) fun before hbefore =>
    (h before.finished).bind fun _ =>
      runs_withRole hbefore himp

end Parse

theorem Runs.peek_bind {f : Lookahead → Parse α} {expected : Expected}
    (h : ∀ l, Runs (Holds older L) (f l) R) :
    Runs (Holds older L) (Parse.peek expected >>= f) R :=
  .quiet_bind (Parse.quiet_peek expected) h

/-- What stands ahead is known from then on. -/
theorem Runs.peek_bind_saw {f : Lookahead → Parse α} {expected : Expected}
    (h : ∀ l, Runs (fun s => Holds older L s ∧ Saw expected l s) (f l) R) :
    Runs (Holds older L) (Parse.peek expected >>= f) R := by
  intro s a s'' hs hp
  change (Parse.peek expected s).bind _ = _ at hp
  cases hr : Parse.peek expected s with
  | error =>
    rw [hr] at hp
    cases hp
  | ok r =>
    rw [hr] at hp
    have hafter := Parse.quiet_peek expected older L s r.1 r.2 hs hr
    exact h r.1 r.2 a s'' ⟨hafter, Parse.saw_of_peek hr⟩ hp

/-- A loop that stops in the first round. -/
theorem Runs.repeated_stops {body : Parse Bool} (h : ∀ s, P s → body s = .ok (false, s)) :
    Runs P (Parse.repeated body) P := by
  intro s a s' hs hp
  change Parse.loop body s.limit s = _ at hp
  cases hlimit : s.limit with
  | zero =>
    rw [hlimit] at hp
    cases hp
    exact hs
  | succ rounds =>
    rw [hlimit] at hp
    change (body s).bind _ = _ at hp
    rw [h s hs] at hp
    cases hp
    exact hs

/-- A loop that goes round at least once. -/
theorem Runs.repeated_once {body : Parse Bool} (hlimit : ∀ s, P s → s.limit ≠ 0)
    (hfirst : Runs P body Q) (h : Runs Q body Q) : Runs P (Parse.repeated body) Q := by
  intro s a s' hs hp
  obtain ⟨rounds, hrounds⟩ := Nat.exists_eq_succ_of_ne_zero (hlimit s hs)
  change Parse.loop body s.limit s = _ at hp
  rw [hrounds] at hp
  exact (hfirst.bind fun _ => .ite (fun _ => h.loop rounds) fun _ => .done ()) s a s' hs hp

theorem Runs.take_bind {f : Unit → Parse α} {l : Lookahead}
    (h : ∀ u, Runs (Holds older L) (f u) R) : Runs (Holds older L) (Parse.take l >>= f) R :=
  .quiet_bind (Parse.quiet_take l) h

theorem Adds.peek_bind {f : Lookahead → Parse α} {expected : Expected} (h : ∀ l, Adds (f l) L) :
    Adds (Parse.peek expected >>= f) L := fun older => .peek_bind fun l => h l older

namespace Parse

theorem adds_identifier_leaf (l : Lookahead) : Adds (leaf .identifier l) (One IsName) :=
  (adds_leaf rfl l).imp fun _ h => h.imp fun _ ht => ht.isName_identifier

theorem adds_identifier_one : Adds identifier (One (IsLeaf .identifier)) := by
  refine .peek_bind fun l => ?_
  split
  · exact adds_leaf rfl l
  · exact fun _ => runs_fail _

theorem adds_identifier : Adds identifier (One IsName) :=
  adds_identifier_one.imp fun _ h => h.imp fun _ ht => ht.isName_identifier

theorem adds_dottedName (follow : Expected) :
    Adds (dottedName follow) (One fun t => IsName t ∧ t.isKind .dottedName) := by
  have hidentifier := adds_identifier.all
  refine .peek_bind fun l => .node IsName l fun older m hm => ?_
  refine hidentifier.keeps.bind fun _ => .bind (.repeated ?_) fun _ => ?_
  · refine .peek_bind fun l => .ite (fun _ => ?_) fun _ => .done _
    exact .take_bind fun _ => hidentifier.keeps.bind fun _ => .done _
  · exact runs_close_all hm rfl fun extent children h =>
      ⟨.node rfl extent fun c hc => (h c hc).elim IsGap.isName id, rfl⟩

end Parse

end SourceCorpus.Syntax
