import Mathlib.Data.List.Chain
import SourceCorpus.Proofs.Syntax.Shape
import SourceCorpus.Proofs.Syntax.Spelling.Places
import SourceCorpus.Text.Lines

/-!
Dotted names in a syntax tree and their text. Main statement: the text of a dotted name without its
blanks is that of its identifiers with dots between them, exactly if nothing but a dot and blanks
stands between them.
-/

namespace SourceCorpus.Syntax

namespace Tree

mutual

/-- The identifiers of a dotted name, if the tree is one: an identifier, or a member of one. -/
def identifiers? : Tree → Option (List Tree)
  | node kind role extent children =>
    match kind with
    | .identifier => some [node kind role extent children]
    | .memberAccess =>
      match objectIdentifiers? children, children.find? (·.hasRole .member) with
      | some names, some member =>
        if member.isKind .identifier then some (names ++ [member]) else none
      | _, _ => none
    | _ => none
  | _ => none

def objectIdentifiers? : List Tree → Option (List Tree)
  | [] => none
  | t :: ts => if t.hasRole .object then identifiers? t else objectIdentifiers? ts

end

end Tree

open SourceCorpus.Syntax.Tree

def between (source : List Char) (a b : Tree) : List Char :=
  stretch source a.extent.stop.offset b.start.offset

def dotted (source : List Char) (names : List Tree) : List Char :=
  Text.joinWith ['.'] (names.map (·.chars source))

def IsSpaced (source : List Char) (names : List Tree) : Prop :=
  names.IsChain fun a b => Text.compactChars (between source a b) = ['.']

instance (source : List Char) (names : List Tree) : Decidable (IsSpaced source names) :=
  inferInstanceAs (Decidable (List.IsChain _ _))

structure Joins (source : List Char) (t object member : Tree) : Prop where
  isFirst : t.children.head? = some object
  isObject : object.hasRole .object
  isMember : t.child? .member = some member
  start : object.start = t.start
  stop : member.extent.stop = t.extent.stop
  le : object.extent.stop.offset ≤ member.start.offset
  dot : '.' ∈ between source object member

structure SpellsOut (source : List Char) (t : Tree) : Prop where
  word : t.isKind .identifier →
    IsWord (t.chars source) ∧ t.start.offset ≤ t.extent.stop.offset
  member : t.isKind .memberAccess → t.identifiers?.isSome →
    ∃ object member, Joins source t object member

def IsSpelled (source : List Char) (t : Tree) : Prop := ∀ n ∈ t.preorder, SpellsOut source n

def Kind.isDottable : Kind → Bool
  | identifier | memberAccess => Bool.true
  | _ => Bool.false

variable {source : List Char} {kind : Kind} {role : Option Role} {extent : Extent}
  {children names : List Tree} {t t' : Tree}

/-! ### Spelled trees -/

theorem isSpelled_node :
    IsSpelled source (node kind role extent children) ↔
      SpellsOut source (node kind role extent children) ∧ ∀ c ∈ children, IsSpelled source c := by
  unfold IsSpelled
  rw [preorder_node, List.forall_mem_cons, List.forall_mem_flatMap]

theorem IsSpelled.spellsOut (h : IsSpelled source t) : SpellsOut source t := by
  cases t with
  | node => exact (isSpelled_node.1 h).1
  | error => exact ⟨(nomatch ·), (nomatch ·)⟩
  | missing => exact ⟨(nomatch ·), (nomatch ·)⟩

theorem identifiers?_of_isKind_identifier (h : t.isKind .identifier) :
    t.identifiers? = some [t] := by
  cases t with
  | node kind =>
    rw [isKind, kind?, beq_iff_eq, Option.some_inj] at h
    subst h
    rfl
  | error => cases h
  | missing => cases h

theorem identifiers?_memberAccess_iff :
    (node .memberAccess role extent children).identifiers? = some names ↔
      ∃ ids member, objectIdentifiers? children = some ids ∧
        children.find? (·.hasRole .member) = some member ∧ member.isKind .identifier ∧
          names = ids ++ [member] := by
  rw [identifiers?]
  constructor
  · intro h
    split at h
    next ids member hids hmember =>
      split at h
      next hkind => exact ⟨ids, member, hids, hmember, hkind, (Option.some.inj h).symm⟩
      next => cases h
    next => cases h
  · rintro ⟨ids, member, hids, hmember, hkind, rfl⟩
    simp only [hids, hmember, hkind, if_true]

theorem spellsOut_of_not_isDottable (h : kind.isDottable = false) :
    SpellsOut source (node kind role extent children) := by
  have hkind {kind' : Kind} (hdottable : kind'.isDottable) :
      (node kind role extent children).isKind kind' ≠ true := by
    intro hkind
    rw [isKind, kind?, beq_iff_eq, Option.some_inj] at hkind
    subst hkind
    rw [h] at hdottable
    cases hdottable
  exact ⟨fun h => absurd h (hkind rfl), fun h => absurd h (hkind rfl)⟩

theorem isSpelled_of_not_isDottable (h : kind.isDottable = false)
    (hchildren : ∀ c ∈ children, IsSpelled source c) :
    IsSpelled source (node kind role extent children) :=
  isSpelled_node.2 ⟨spellsOut_of_not_isDottable h, hchildren⟩

/-- A member access that is no dotted name. -/
theorem spellsOut_of_identifiers?_eq_none
    (h : (node .memberAccess role extent children).identifiers? = none) :
    SpellsOut source (node .memberAccess role extent children) := by
  refine ⟨(nomatch ·), fun _ hsome => ?_⟩
  rw [h] at hsome
  cases hsome

theorem SpellsOut.relabel (role' : Option Role)
    (h : SpellsOut source (node kind role extent children)) :
    SpellsOut source (node kind role' extent children) := by
  refine ⟨h.word, fun hkind hsome => ?_⟩
  have hsome' : (node kind role extent children).identifiers?.isSome := by
    cases kind
    case memberAccess => exact hsome
    all_goals cases hkind
  obtain ⟨object, member, hjoins⟩ := h.member hkind hsome'
  exact ⟨object, member, hjoins.isFirst, hjoins.isObject, hjoins.isMember, hjoins.start,
    hjoins.stop, hjoins.le, hjoins.dot⟩

theorem IsSpelled.relabel (role' : Option Role)
    (h : IsSpelled source (node kind role extent children)) :
    IsSpelled source (node kind role' extent children) := by
  rw [isSpelled_node] at h ⊢
  exact ⟨h.1.relabel role', h.2⟩

theorem IsSpelled.withRole (role : Role) (h : IsSpelled source t) :
    IsSpelled source (t.withRole role) := by
  cases t with
  | node => exact h.relabel _
  | error => exact h
  | missing => exact h

theorem IsSpelled.of_mem_preorder {c : Tree} (h : IsSpelled source t) (hc : c ∈ t.preorder) :
    IsSpelled source c := fun _ hn => h _ (mem_preorder_trans hc hn)

/-! ### Targets and stars -/

theorem IsSpelled.asTarget? {target : Tree} (h : IsSpelled source t)
    (ht : t.asTarget? = some target) : IsSpelled source target := by
  induction t using Tree.induction generalizing target with
  | node kind role extent children ih =>
    have hparts := (isSpelled_node.1 h).2
    cases isRetargeted_of_asTarget? ht with
    | same => exact h
    | starred => exact isSpelled_of_not_isDottable rfl hparts
    | grouped hkind hkind' htargets =>
      refine isSpelled_of_not_isDottable (by rcases hkind' with rfl | rfl <;> rfl) fun c hc => ?_
      obtain ⟨u, hu, huc⟩ := htargets c hc
      exact ih u hu (hparts u hu) huc
  | error => cases ht
  | missing => cases ht

/-- A star has moved into the tree, which is no dotted name any more. -/
structure IsStarredName (source : List Char) (t t' : Tree) : Prop where
  spelled : IsSpelled source t'
  identifiers? : t'.identifiers? = none
  role?_eq : t'.role? = t.role?

theorem IsSpelled.starred (h : IsSpelled source (node kind role extent children))
    (start : Position) :
    IsStarredName source (node kind role extent children)
      (Tree.starred start (node kind role extent children)) := by
  refine ⟨isSpelled_of_not_isDottable rfl ?_, rfl, rfl⟩
  exact List.forall_mem_singleton.2 (h.relabel none)

/-- A member access is no dotted name when a star has moved into its first child. -/
theorem identifiers?_cons_eq_none {c c' : Tree} {cs : List Tree} (extent' : Extent)
    (h : IsSpelled source (node .memberAccess role extent (c :: cs)))
    (hc : c'.identifiers? = none) (hrole : c'.role? = c.role?) :
    (node .memberAccess role extent' (c' :: cs)).identifiers? = none := by
  have hsame (role : Role) : c'.hasRole role = c.hasRole role := hasRole_eq_of_role?_eq hrole role
  by_cases hobject : c.hasRole .object
  · have hnone : objectIdentifiers? (c' :: cs) = none := by
      rw [objectIdentifiers?, hsame, if_pos hobject, hc]
    simp only [identifiers?, hnone]
  · rw [← Option.not_isSome_iff_eq_none, Option.isSome_iff_exists]
    rintro ⟨names, hnames⟩
    obtain ⟨ids, member, hids, hmember, hkind, rfl⟩ := identifiers?_memberAccess_iff.1 hnames
    have hids' : objectIdentifiers? (c :: cs) = some ids := by
      rw [objectIdentifiers?, hsame, if_neg hobject] at hids
      rwa [objectIdentifiers?, if_neg hobject]
    have hmember' : (c :: cs).find? (·.hasRole .member) = some member := by
      rw [List.find?_cons, hsame] at hmember
      rw [List.find?_cons]
      cases hrole : c.hasRole .member with
      | false => simpa only [hrole] using hmember
      | true =>
        -- an identifier is a dotted name, and the starred child is none
        obtain rfl : c' = member := by simpa only [hrole, Option.some_inj] using hmember
        rw [identifiers?_of_isKind_identifier hkind] at hc
        cases hc
    have hnames' : (node .memberAccess role extent (c :: cs)).identifiers? = some (ids ++ [member]) :=
      identifiers?_memberAccess_iff.2 ⟨ids, member, hids', hmember', hkind, rfl⟩
    -- but the object of a dotted name is its first child
    obtain ⟨object, member', hjoins⟩ := h.spellsOut.member rfl (Option.isSome_of_eq_some hnames')
    obtain rfl : c = object := Option.some.inj hjoins.isFirst
    exact hobject hjoins.isObject

/-- A tree with a star on its leading part is no dotted name, and what is spelled in it stays so. -/
theorem IsSpelled.isStarredName {start : Position} (h : IsSpelled source t)
    (ht : starLeading? start t = some t') : IsStarredName source t t' := by
  have hmoves := starMoves_of_starLeading? ht
  clear ht
  induction hmoves with
  | before => exact h.starred start
  | @inside kind role extent c c' cs _ hname _ ih =>
    have hparts := List.forall_mem_cons.1 (isSpelled_node.1 h).2
    have hfirst := ih hparts.1
    have hspelled : ∀ u ∈ c' :: cs, IsSpelled source u :=
      List.forall_mem_cons.2 ⟨hfirst.spelled, hparts.2⟩
    by_cases hmember : kind = .memberAccess
    · subst hmember
      have hnone := identifiers?_cons_eq_none ⟨start, extent.stop⟩ h hfirst.identifiers?
        hfirst.role?_eq
      exact ⟨isSpelled_node.2 ⟨spellsOut_of_identifiers?_eq_none hnone, hspelled⟩, hnone, rfl⟩
    · have hdottable : kind.isDottable = false := by
        cases kind <;> first | rfl | contradiction
      have hnone : (node kind role ⟨start, extent.stop⟩ (c' :: cs)).identifiers? = none := by
        cases kind <;> first | rfl | contradiction
      exact ⟨isSpelled_of_not_isDottable hdottable hspelled, hnone, rfl⟩

theorem IsSpelled.restarLone (h : IsSpelled source t) : IsSpelled source (restarLone t) := by
  have hrestarred := isRestarred_restarLone t
  generalize t.restarLone = t' at hrestarred ⊢
  cases hrestarred with
  | same => exact h
  | moved hinner hstar =>
    exact (((isSpelled_node.1 h).2 _ hinner).isStarredName hstar).spelled.relabel _

/-! ### The text of a dotted name -/

theorem joinWith_concat (sep piece : List Char) {pieces : List (List Char)} (h : pieces ≠ []) :
    Text.joinWith sep (pieces ++ [piece]) = Text.joinWith sep pieces ++ (sep ++ piece) := by
  induction pieces with
  | nil => exact absurd rfl h
  | cons first rest ih =>
    cases rest with
    | nil => simp [Text.joinWith]
    | cons second rest =>
      have hrest := ih (List.cons_ne_nil second rest)
      simp only [List.cons_append, Text.joinWith, List.append_assoc] at hrest ⊢
      rw [hrest]

theorem dotted_concat {ids : List Tree} (h : ids ≠ []) (member : Tree) :
    dotted source (ids ++ [member]) = dotted source ids ++ '.' :: member.chars source := by
  rw [dotted, dotted, List.map_append, List.map_singleton, joinWith_concat]
  · rfl
  · rwa [Ne, List.map_eq_nil_iff]

theorem isSpaced_concat {ids : List Tree} {member : Tree} :
    IsSpaced source (ids ++ [member]) ↔ IsSpaced source ids ∧
      ∀ last ∈ ids.getLast?, Text.compactChars (between source last member) = ['.'] := by
  rw [IsSpaced, IsSpaced, List.isChain_append]
  refine and_congr_right fun _ => (and_iff_right (List.isChain_singleton _)).trans ?_
  exact forall₂_congr fun last _ => ⟨fun h => h member rfl, fun h b hb => Option.some.inj hb ▸ h⟩

/-- The text of a dotted name consists of its identifiers and what is between them. -/
structure IsWritten (source : List Char) (t : Tree) (names : List Tree) : Prop where
  stop : names.getLast?.map (·.extent.stop) = some t.extent.stop
  le : t.start.offset ≤ t.extent.stop.offset
  eq_dotted : IsSpaced source names → Text.compactChars (t.chars source) = dotted source names
  length_le : (dotted source names).length ≤ (Text.compactChars (t.chars source)).length
  isSpaced : (Text.compactChars (t.chars source)).length ≤ (dotted source names).length →
    IsSpaced source names

theorem isWritten_identifier (h : SpellsOut source t) (hkind : t.isKind .identifier) :
    IsWritten source t [t] := by
  obtain ⟨hword, hle⟩ := h.word hkind
  have htext : Text.compactChars (t.chars source) = dotted source [t] := hword.compactChars
  exact ⟨rfl, hle, fun _ => htext, Nat.le_of_eq (congrArg _ htext.symm), fun _ =>
    List.isChain_singleton t⟩

/-- The text of a member access is made of the texts of its parts. -/
theorem Joins.chars_eq {object member : Tree} (h : Joins source t object member)
    (hobject : object.start.offset ≤ object.extent.stop.offset)
    (hmember : member.start.offset ≤ member.extent.stop.offset) :
    t.chars source =
      object.chars source ++ (between source object member ++ member.chars source) := by
  have hright : between source object member ++ member.chars source =
      stretch source object.extent.stop.offset member.extent.stop.offset :=
    stretch_append h.le hmember
  have hall : object.chars source ++
        stretch source object.extent.stop.offset member.extent.stop.offset =
      stretch source object.start.offset member.extent.stop.offset :=
    stretch_append hobject (Nat.le_trans h.le hmember)
  rw [hright, hall, h.start, h.stop]
  rfl

theorem Joins.compactChars_eq {object member : Tree} (h : Joins source t object member)
    (hobject : object.start.offset ≤ object.extent.stop.offset)
    (hmember : member.start.offset ≤ member.extent.stop.offset)
    (hword : IsWord (member.chars source)) :
    Text.compactChars (t.chars source) = Text.compactChars (object.chars source) ++
      (Text.compactChars (between source object member) ++ member.chars source) := by
  rw [h.chars_eq hobject hmember]
  simp only [Text.compactChars, List.filter_append]
  rw [← Text.compactChars, ← Text.compactChars, ← Text.compactChars, hword.compactChars]

/-- The last identifier ends with the object, so what follows it is what follows the object. -/
theorem isSpaced_concat_iff {ids : List Tree} {object member : Tree}
    (hstop : ids.getLast?.map (·.extent.stop) = some object.extent.stop) :
    IsSpaced source (ids ++ [member]) ↔
      IsSpaced source ids ∧ Text.compactChars (between source object member) = ['.'] := by
  obtain ⟨last, hlast, hsame⟩ := Option.map_eq_some_iff.1 hstop
  have hbetween : between source last member = between source object member := by
    rw [between, between, hsame]
  rw [isSpaced_concat, hlast]
  refine and_congr_right fun _ => ⟨fun hall => ?_, fun hdot last' hmem => ?_⟩
  · exact hbetween ▸ hall last rfl
  · obtain rfl := Option.some.inj hmem
    rwa [hbetween]

theorem isWritten_member {object member : Tree} {ids : List Tree}
    (h : Joins source t object member) (hobject : IsWritten source object ids)
    (hmember : SpellsOut source member) (hkind : member.isKind .identifier) :
    IsWritten source t (ids ++ [member]) := by
  obtain ⟨hword, hle⟩ := hmember.word hkind
  have hids : ids ≠ [] := by
    rintro rfl
    cases hobject.stop
  have hspaced : IsSpaced source (ids ++ [member]) ↔
      IsSpaced source ids ∧ Text.compactChars (between source object member) = ['.'] :=
    isSpaced_concat_iff hobject.stop
  have hdot : '.' ∈ Text.compactChars (between source object member) :=
    List.mem_filter.2 ⟨h.dot, rfl⟩
  have hpos : 1 ≤ (Text.compactChars (between source object member)).length :=
    List.length_pos_of_mem hdot
  have htext := h.compactChars_eq hobject.le hle hword
  have hlength := hobject.length_le
  refine ⟨?_, ?_, fun hall => ?_, ?_, fun hshort => ?_⟩
  · rw [List.getLast?_concat, Option.map_some, h.stop]
  · rw [← h.start, ← h.stop]
    exact Nat.le_trans hobject.le (Nat.le_trans h.le hle)
  · obtain ⟨hall, heq⟩ := hspaced.1 hall
    rw [htext, hobject.eq_dotted hall, heq, dotted_concat hids]
    rfl
  · rw [htext, dotted_concat hids]
    simp only [List.length_append, List.length_cons]
    omega
  · -- The text of the object is as long as its name at least, and the dot takes one more place.
    rw [htext, dotted_concat hids] at hshort
    simp only [List.length_append, List.length_cons] at hshort
    refine hspaced.2 ⟨hobject.isSpaced (by omega), ?_⟩
    obtain ⟨a, ha⟩ := List.length_eq_one_iff.1 (Nat.le_antisymm (by omega) hpos)
    rw [ha, List.mem_singleton] at hdot
    rw [ha, hdot]

theorem IsSpelled.isWritten (h : IsSpelled source t) (hnames : t.identifiers? = some names) :
    IsWritten source t names := by
  induction t using Tree.induction generalizing names with
  | node kind role extent children ih =>
    -- Only identifiers and member accesses are dotted names; the object of the latter is one again.
    cases kind
    case identifier =>
      rw [identifiers?_of_isKind_identifier rfl, Option.some_inj] at hnames
      subst hnames
      exact isWritten_identifier h.spellsOut rfl
    case memberAccess =>
      obtain ⟨object, member, hjoins⟩ :=
        h.spellsOut.member rfl (Option.isSome_of_eq_some hnames)
      obtain ⟨ids, member', hids, hmember, hidentifier, rfl⟩ :=
        identifiers?_memberAccess_iff.1 hnames
      obtain rfl : member = member' := Option.some.inj (hjoins.isMember.symm.trans hmember)
      obtain ⟨rest, rfl⟩ : ∃ rest, children = object :: rest :=
        List.head?_eq_some_iff.1 hjoins.isFirst
      have hparts := (isSpelled_node.1 h).2
      rw [objectIdentifiers?, if_pos hjoins.isObject] at hids
      have hobject := ih object List.mem_cons_self (hparts object List.mem_cons_self) hids
      have hmember := hparts member (List.mem_of_find?_eq_some hmember)
      exact isWritten_member hjoins hobject hmember.spellsOut hidentifier
    all_goals cases hnames
  | error => cases hnames
  | missing => cases hnames

/-- The text of a dotted name without its blanks is that of its identifiers with dots between them
exactly if nothing else stands between these. -/
theorem IsSpelled.compactChars_eq_iff (h : IsSpelled source t)
    (hnames : t.identifiers? = some names) :
    Text.compactChars (t.chars source) = dotted source names ↔ IsSpaced source names :=
  ⟨fun heq => (h.isWritten hnames).isSpaced (Nat.le_of_eq (congrArg _ heq)),
    (h.isWritten hnames).eq_dotted⟩

end SourceCorpus.Syntax
