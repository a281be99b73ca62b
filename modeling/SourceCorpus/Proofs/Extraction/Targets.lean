import SourceCorpus.Proofs.Extraction.Walk
import SourceCorpus.Syntax.Grammar

/-!
Targets of loops and aliases, and targets of assignments. Main statement: a target names the same in
both, and nothing that it binds is read, exactly if no name stands behind a star that is written as
in an expression.
-/

namespace SourceCorpus

namespace Syntax

def Kind.groupsTargets : Kind → Bool
  | patternList | tuplePattern | listPattern | tuple | list | parenthesizedExpression => Bool.true
  | _ => Bool.false

def Kind.starsTargets : Kind → Bool
  | listSplatPattern | listSplat => Bool.true
  | _ => Bool.false

namespace Tree

mutual

/-- What may be bound: a name, a member or an element, or any nesting of these in sequences and
stars. Comments and joined lines may stand between the parts. -/
def isTarget : Tree → Bool
  | node kind _ _ children =>
    kind == .identifier || kind == .memberAccess || kind == .subscript || kind.isTrivia ||
      ((kind.groupsTargets || kind.starsTargets) && areTargets children)
  | _ => false

def areTargets : List Tree → Bool
  | [] => true
  | t :: ts => isTarget t && areTargets ts

end

mutual

/-- The parts of a target that are no targets around others, from left to right. Each is marked if it
stands behind a star in the form of an expression, as everything does when `behindStar` is set. -/
def leaves (behindStar : Bool) : Tree → List (Bool × Tree)
  | node kind role extent children =>
    if kind.groupsTargets || kind.starsTargets then
      leavesOfAll (behindStar || kind == .listSplat) children
    else [(behindStar, node kind role extent children)]
  | t => [(behindStar, t)]

def leavesOfAll (behindStar : Bool) : List Tree → List (Bool × Tree)
  | [] => []
  | t :: ts => leaves behindStar t ++ leavesOfAll behindStar ts

end

def places (t : Tree) : List Tree :=
  ((t.leaves false).map (·.2)).filter fun leaf => !leaf.isKind .identifier

def starredNames (t : Tree) : List Tree :=
  ((t.leaves false).filter fun leaf => leaf.1 && leaf.2.isKind .identifier).map (·.2)

theorem areTargets_eq_all (ts : List Tree) : areTargets ts = ts.all isTarget := by
  induction ts with
  | nil => rfl
  | cons t ts ih => rw [areTargets, ih, List.all_cons]

theorem leavesOfAll_eq_flatMap (behindStar : Bool) (ts : List Tree) :
    leavesOfAll behindStar ts = ts.flatMap (leaves behindStar) := by
  induction ts with
  | nil => rfl
  | cons t ts ih => rw [leavesOfAll, ih, List.flatMap_cons]

/-- Which parts of a target are leaves does not depend on the stars before it. -/
theorem map_snd_leaves (behindStar : Bool) (t : Tree) :
    (t.leaves behindStar).map (·.2) = (t.leaves false).map (·.2) := by
  induction t using Tree.induction generalizing behindStar with
  | node kind role extent children ih =>
    rw [leaves, leaves]
    split
    · simp only [leavesOfAll_eq_flatMap, List.map_flatMap]
      exact List.flatMap_congr fun c hc => (ih c hc _).trans (ih c hc _).symm
    · rfl
  | error => rfl
  | missing => rfl

section

variable {kind : Kind} {role : Option Role} {extent : Extent} {children : List Tree}

theorem places_of_contains (h : kind.groupsTargets || kind.starsTargets) :
    (node kind role extent children).places = children.flatMap places := by
  rw [places, leaves, if_pos h, leavesOfAll_eq_flatMap, List.map_flatMap, List.filter_flatMap]
  refine List.flatMap_congr fun c _ => ?_
  rw [places, map_snd_leaves]

theorem places_of_not_contains (h : ¬(kind.groupsTargets || kind.starsTargets))
    (hname : kind ≠ .identifier) :
    (node kind role extent children).places = [node kind role extent children] := by
  rw [places, leaves, if_neg h]
  simpa [isKind, kind?] using hname

end

end Tree

end Syntax

namespace Extraction

open Syntax Tree

def namesIn (facts : List Fact) : List NameRef :=
  facts.filterMap fun
    | .named ref => some ref
    | _ => none

def accessed (access : Access) (refs : List NameRef) : List String :=
  (refs.filter (·.access = access)).map (·.name)

def writesIn (facts : List Fact) : List String := accessed .write (namesIn facts)

def readsIn (facts : List Fact) : List String := accessed .read (namesIn facts)

/-- The target writes the same names in a loop or alias and in an assignment, and in both it reads
only what the evaluation of its members and elements reads. -/
structure BindsAlike (source : List Char) (t : Tree) : Prop where
  writes : ∀ place b target, writesIn (factsOf source .bound place t) =
    writesIn (factsOf source (.assigned b target) place t)
  readsBound : ∀ place, readsIn (factsOf source .bound place t) =
    t.places.flatMap fun leaf => readsIn (factsOf source .value place leaf)
  readsAssigned : ∀ place b target, readsIn (factsOf source (.assigned b target) place t) =
    t.places.flatMap fun leaf => readsIn (factsOf source .value place leaf)

variable {source : List Char} {place : Place}

@[simp]
theorem namesIn_append (facts facts' : List Fact) :
    namesIn (facts ++ facts') = namesIn facts ++ namesIn facts' :=
  List.filterMap_append

theorem namesIn_flatMap {α : Type} (f : α → List Fact) (parts : List α) :
    namesIn (parts.flatMap f) = parts.flatMap fun part => namesIn (f part) := by
  rw [namesIn, List.filterMap_flatMap]
  rfl

theorem namesIn_instanceAttributes (name : Option String) :
    namesIn (name.map Fact.instanceAttribute).toList = [] := by
  cases name <;> rfl

/-! ### Leaves -/

/-- What is recorded of a part of a target: a name is written, unless it is evaluated like anything
else. -/
def leafNames (source : List Char) (place : Place) (evaluated : Bool) (leaf : Tree) :
    List NameRef :=
  if leaf.isKind .identifier && !evaluated then [⟨leaf.text source, .write⟩]
  else namesIn (factsOf source .value place leaf)

section

variable {kind : Kind} {role : Option Role} {extent : Extent} {children : List Tree}

/-- A target is a leaf, or a sequence or star of targets. -/
theorem isTarget_node (h : (node kind role extent children).isTarget) :
    ((kind = .identifier ∨ kind = .memberAccess ∨ kind = .subscript ∨ kind.isTrivia) ∧
      ∀ behindStar, (node kind role extent children).leaves behindStar =
        [(behindStar, node kind role extent children)]) ∨
    ((kind.groupsTargets ∨ kind.starsTargets) ∧ (∀ c ∈ children, c.isTarget) ∧
      ∀ behindStar, (node kind role extent children).leaves behindStar =
        children.flatMap (leaves (behindStar || kind == .listSplat))) := by
  simp only [isTarget, areTargets_eq_all, Bool.or_eq_true, Bool.and_eq_true, beq_iff_eq,
    List.all_eq_true, or_assoc] at h
  simp only [leaves, leavesOfAll_eq_flatMap]
  rcases h with rfl | rfl | rfl | htrivia | ⟨hkind, hchildren⟩
  · exact .inl ⟨.inl rfl, fun _ => rfl⟩
  · exact .inl ⟨.inr (.inl rfl), fun _ => rfl⟩
  · exact .inl ⟨.inr (.inr (.inl rfl)), fun _ => rfl⟩
  · refine .inl ⟨.inr (.inr (.inr htrivia)), fun _ => ?_⟩
    cases kind <;> first | rfl | cases htrivia
  · exact .inr ⟨hkind, hchildren, fun _ => if_pos (by simpa using hkind)⟩

/-- The parts of a sequence or star of targets are assigned one by one. -/
theorem exists_factsOf_assigned_parts (h : kind.groupsTargets || kind.starsTargets) (b : Binding)
    (target : TargetKind) :
    ∃ element, factsOf source (.assigned b target) place (.node kind role extent children) =
      factsOfAll source (.assigned b element) place children := by
  cases kind <;> first | exact ⟨_, rfl⟩ | cases h

/-- Any part of a target is evaluated by evaluating its leaves. -/
theorem namesIn_value {t : Tree} (h : t.isTarget) (behindStar : Bool) :
    namesIn (factsOf source .value place t) =
      (t.leaves behindStar).flatMap fun leaf => leafNames source place true leaf.2 := by
  induction t using Tree.induction generalizing behindStar with
  | node kind role extent children ih =>
    rcases isTarget_node h with ⟨-, hleaf⟩ | ⟨hkind, hchildren, hleaves⟩
    · rw [hleaf, List.flatMap_singleton, leafNames, Bool.not_true, Bool.and_false, if_neg (by decide)]
    · have hvalue : factsOf source .value place (.node kind role extent children) =
          factsOfAll source .value place children := by
        cases kind <;> first | rfl | (rcases hkind with h | h <;> cases h)
      rw [hvalue, factsOfAll_eq_flatMap, namesIn_flatMap, hleaves, List.flatMap_assoc]
      exact List.flatMap_congr fun c hc => ih c hc (hchildren c hc) _
  | error => cases h
  | missing => cases h

/-- Everything behind a star in the form of an expression is marked. -/
theorem marked_of_mem_leaves {t : Tree} {leaf : Bool × Tree} (h : leaf ∈ t.leaves true) :
    leaf.1 = true := by
  induction t using Tree.induction with
  | node kind role extent children ih =>
    rw [leaves, leavesOfAll_eq_flatMap] at h
    split at h
    · obtain ⟨c, hc, hleaf⟩ := List.mem_flatMap.1 h
      exact ih c hc hleaf
    · rw [List.mem_singleton.1 h]
  | error => rw [List.mem_singleton.1 h]
  | missing => rw [List.mem_singleton.1 h]

theorem namesIn_bound {t : Tree} (h : t.isTarget) :
    namesIn (factsOf source .bound place t) =
      (t.leaves false).flatMap fun leaf => leafNames source place leaf.1 leaf.2 := by
  induction t using Tree.induction with
  | node kind role extent children ih =>
    rcases isTarget_node h with ⟨hkind, hleaf⟩ | ⟨hkind, hchildren, hleaves⟩
    · rw [hleaf, List.flatMap_singleton]
      cases kind <;> first | rfl | simp [Kind.isTrivia] at hkind
    · by_cases hstar : kind = .listSplat
      · -- The star is not among the kinds of targets here, so what is behind it is evaluated.
        subst hstar
        have hvalue : factsOf source .bound place (.node .listSplat role extent children) =
            factsOf source .value place (.node .listSplat role extent children) := rfl
        rw [hvalue, namesIn_value h false]
        refine List.flatMap_congr fun leaf hleaf => ?_
        rw [hleaves] at hleaf
        obtain ⟨c, -, hc⟩ := List.mem_flatMap.1 hleaf
        rw [marked_of_mem_leaves hc]
      · have hbound : factsOf source .bound place (.node kind role extent children) =
            factsOfAll source .bound place children := by
          cases kind <;> first | rfl | contradiction
        have hsame : (kind == .listSplat) = false := by simpa using hstar
        rw [hbound, factsOfAll_eq_flatMap, namesIn_flatMap, hleaves, hsame, List.flatMap_assoc]
        exact List.flatMap_congr fun c hc => ih c hc (hchildren c hc)
  | error => cases h
  | missing => cases h

theorem namesIn_assigned {t : Tree} (h : t.isTarget) (behindStar : Bool) (b : Binding)
    (target : TargetKind) :
    namesIn (factsOf source (.assigned b target) place t) =
      (t.leaves behindStar).flatMap fun leaf => leafNames source place false leaf.2 := by
  induction t using Tree.induction generalizing behindStar target with
  | node kind role extent children ih =>
    rcases isTarget_node h with ⟨hkind, hleaf⟩ | ⟨hkind, hchildren, hleaves⟩
    · rw [hleaf, List.flatMap_singleton]
      by_cases hmember : kind = .memberAccess
      · subst hmember
        -- What a member assigns on the instance comes before its evaluation, and names nothing.
        have hassigned : factsOf source (.assigned b target) place
              (.node .memberAccess role extent children) =
            ((instanceName? source place (.node .memberAccess role extent children)).map
              .instanceAttribute).toList ++
              factsOf source .value place (.node .memberAccess role extent children) := rfl
        rw [hassigned, namesIn_append, namesIn_instanceAttributes, List.nil_append]
        rfl
      · cases kind <;> first | rfl | contradiction
    · obtain ⟨element, hassigned⟩ :=
        exists_factsOf_assigned_parts (Bool.or_eq_true_iff.2 hkind) b target
      rw [hassigned, factsOfAll_eq_flatMap, namesIn_flatMap, hleaves, List.flatMap_assoc]
      exact List.flatMap_congr fun c hc => ih c hc (hchildren c hc) _ _
  | error => cases h
  | missing => cases h

end

/-! ### Names and places -/

theorem accessed_flatMap {α : Type} (access : Access) (f : α → List NameRef) (parts : List α) :
    accessed access (parts.flatMap f) = parts.flatMap fun part => accessed access (f part) := by
  rw [accessed, List.filter_flatMap, List.map_flatMap]
  rfl

theorem namesIn_identifier {leaf : Tree} (h : leaf.isKind .identifier) :
    namesIn (factsOf source .value place leaf) = [⟨leaf.text source, .read⟩] := by
  cases leaf with
  | node kind role extent children =>
    obtain rfl : kind = .identifier := by simpa [isKind, kind?] using h
    rfl
  | error => cases h
  | missing => cases h

/-- A name that is assigned is not read. -/
theorem reads_leafNames (leaf : Tree) :
    accessed .read (leafNames source place false leaf) =
      if leaf.isKind .identifier then [] else readsIn (factsOf source .value place leaf) := by
  rw [leafNames, Bool.not_false, Bool.and_true]
  split <;> rfl

/-- Only the evaluation of a name, which writes nothing, differs from its assignment, which writes
the name. -/
theorem length_writes_leafNames (leaf : Bool × Tree) :
    (accessed .write (leafNames source place leaf.1 leaf.2)).length +
        (if leaf.1 && leaf.2.isKind .identifier then 1 else 0) =
      (accessed .write (leafNames source place false leaf.2)).length := by
  obtain ⟨evaluated, leaf⟩ := leaf
  cases evaluated with
  | false => rfl
  | true =>
    rw [leafNames, leafNames]
    cases h : leaf.isKind .identifier with
    | true =>
      rw [Bool.not_true, Bool.and_false, if_neg Bool.false_ne_true, namesIn_identifier h]
      rfl
    | false => rfl

theorem length_writes_leaves (leaves : List (Bool × Tree)) :
    (accessed .write (leaves.flatMap fun leaf => leafNames source place leaf.1 leaf.2)).length +
        (leaves.filter fun leaf => leaf.1 && leaf.2.isKind .identifier).length =
      (accessed .write (leaves.flatMap fun leaf => leafNames source place false leaf.2)).length := by
  simp only [accessed_flatMap, ← List.countP_eq_length_filter]
  induction leaves with
  | nil => rfl
  | cons leaf leaves ih =>
    have hleaf : (accessed .write (leafNames source place leaf.1 leaf.2)).length + _ = _ :=
      length_writes_leafNames leaf
    simp only [List.flatMap_cons, List.length_append, List.countP_cons]
    omega

/-- Names behind a star in the form of an expression are all that an assignment writes beyond what a
loop or alias does. -/
theorem length_writes_bound {t : Tree} (h : t.isTarget) (b : Binding) (target : TargetKind) :
    (writesIn (factsOf source .bound place t)).length + t.starredNames.length =
      (writesIn (factsOf source (.assigned b target) place t)).length := by
  rw [writesIn, writesIn, namesIn_bound h, namesIn_assigned h false, starredNames, List.length_map]
  exact length_writes_leaves _

theorem reads_assigned {t : Tree} (h : t.isTarget) (b : Binding) (target : TargetKind) :
    readsIn (factsOf source (.assigned b target) place t) =
      t.places.flatMap fun leaf => readsIn (factsOf source .value place leaf) := by
  rw [readsIn, namesIn_assigned h false, accessed_flatMap, places]
  induction t.leaves false with
  | nil => rfl
  | cons leaf leaves ih =>
    rw [List.flatMap_cons, ih, reads_leafNames, List.map_cons]
    cases hname : leaf.2.isKind .identifier with
    | true => rw [if_pos rfl, List.filter_cons_of_neg (by simp [hname]), List.nil_append]
    | false =>
      rw [if_neg Bool.false_ne_true, List.filter_cons_of_pos (by simp [hname]), List.flatMap_cons]

theorem BindsAlike.of_starredNames_eq_nil {t : Tree} (h : t.isTarget)
    (hnone : t.starredNames = []) : BindsAlike source t := by
  have hleaf : ∀ leaf ∈ t.leaves false, (leaf.1 && leaf.2.isKind .identifier) = false := by
    simpa [starredNames] using hnone
  have hsame : ∀ place b target, namesIn (factsOf source .bound place t) =
      namesIn (factsOf source (.assigned b target) place t) := by
    intro place b target
    rw [namesIn_bound h, namesIn_assigned h false]
    refine List.flatMap_congr fun leaf hmem => ?_
    obtain ⟨behindStar, leaf⟩ := leaf
    cases behindStar with
    | false => rfl
    | true =>
      have hplace : leaf.isKind .identifier = false := hleaf _ hmem
      rw [leafNames, leafNames, hplace]
      rfl
  refine ⟨fun place b target => congrArg (accessed .write) (hsame place b target), fun place => ?_,
    fun place b target => reads_assigned h b target⟩
  have hreads : readsIn (factsOf source (.assigned ⟨none, none, false, 0⟩ .simple) place t) = _ :=
    reads_assigned h _ _
  rwa [readsIn, ← hsame] at hreads

/-! ### Targets of loops and assignments -/

structure IsPattern (t : Tree) : Prop where
  isTarget : t.isTarget = true
  unmarked : ∀ leaf ∈ t.leaves false, leaf.1 = false

section

variable {kind : Kind} {role : Option Role} {extent : Extent} {children : List Tree}

theorem IsPattern.leaf (hkind : kind = .identifier ∨ kind = .memberAccess ∨ kind = .subscript ∨
    kind.isTrivia) : IsPattern (node kind role extent children) := by
  have htarget : (node kind role extent children).isTarget := by
    rcases hkind with rfl | rfl | rfl | htrivia
    · rfl
    · rfl
    · rfl
    · rw [Tree.isTarget, htrivia, Bool.or_true, Bool.true_or]
  refine ⟨htarget, ?_⟩
  rcases isTarget_node htarget with ⟨-, hleaf⟩ | ⟨hgroup, -, -⟩
  · rw [hleaf, List.forall_mem_singleton]
  · cases kind <;> contradiction

theorem IsPattern.node (hkind : kind.groupsTargets ∨ kind = .listSplatPattern)
    (h : ∀ c ∈ children, IsPattern c) : IsPattern (node kind role extent children) := by
  have hcontains : kind.groupsTargets || kind.starsTargets := by
    rcases hkind with h | rfl
    · rw [h, Bool.true_or]
    · rfl
  have hform : (kind == .listSplat) = false := by
    rcases hkind with h | rfl
    · cases kind <;> first | rfl | cases h
    · rfl
  refine ⟨?_, ?_⟩
  · have hparts : areTargets children := by
      rw [areTargets_eq_all, List.all_eq_true]
      exact fun c hc => (h c hc).isTarget
    rw [Tree.isTarget, hcontains, hparts, Bool.and_true, Bool.or_true]
  · rw [leaves, if_pos hcontains, hform, leavesOfAll_eq_flatMap, List.forall_mem_flatMap]
    exact fun c hc => (h c hc).unmarked

end

/-- What an expression becomes as the target of a loop or an assignment has stars of patterns. -/
theorem isPattern_of_asTarget? {t target : Tree} (ht : t.asTarget? = some target) :
    IsPattern target := by
  induction t using Tree.induction generalizing target with
  | node kind role extent children ih =>
    cases isRetargeted_of_asTarget? ht with
    | same hkind => exact .leaf hkind
    | starred hparts =>
      refine .node (.inr rfl) fun part hpart => ?_
      have hkinds := hparts part hpart
      cases part with
      | node => exact .leaf (by simpa [isTrivia, isKind, kind?] using hkinds)
      | error => simp [isTrivia, isKind, kind?] at hkinds
      | missing => simp [isTrivia, isKind, kind?] at hkinds
    | grouped hkind hkind' htargets =>
      refine .node (.inl (by rcases hkind' with rfl | rfl <;> rfl)) fun part hpart => ?_
      obtain ⟨c, hc, hcpart⟩ := htargets part hpart
      exact ih c hc hcpart
  | error => cases ht
  | missing => cases ht

theorem IsPattern.starredNames_eq_nil {t : Tree} (h : IsPattern t) : t.starredNames = [] := by
  rw [starredNames, List.map_eq_nil_iff, List.filter_eq_nil_iff]
  intro leaf hleaf
  rw [h.unmarked leaf hleaf]
  exact Bool.false_ne_true

/-- In loops, comprehensions and assignments, where targets are read again as patterns, a target
names the same whichever way it is bound. -/
theorem bindsAlike_of_asTarget? {t target : Tree} (ht : t.asTarget? = some target) :
    BindsAlike source target :=
  have h := isPattern_of_asTarget? ht
  .of_starredNames_eq_nil h.isTarget h.starredNames_eq_nil

/-! ### The two ways of binding -/

/-- A target names the same in a loop or alias and in an assignment, exactly if no name in it stands
behind a star in the form of an expression. -/
theorem bindsAlike_iff {t : Tree} (h : t.isTarget) :
    BindsAlike source t ↔ t.starredNames = [] := by
  refine ⟨fun halike => ?_, .of_starredNames_eq_nil h⟩
  have hlength : (writesIn (factsOf source .bound .top t)).length + _ = _ :=
    length_writes_bound h ⟨none, none, false, 0⟩ .simple
  rw [halike.writes .top ⟨none, none, false, 0⟩ .simple] at hlength
  exact List.eq_nil_of_length_eq_zero (Nat.add_eq_left.1 hlength)

/-- Names at every depth of a pattern are bound, and members and elements evaluated. -/
theorem bindsAlike_of_nested_patterns :
    let source := "for a, (*b, [p.c, d]), e[f] in xs:\n    pass\n".toList
    ∃ t ∈ (parse source).preorder, t.hasRole .left ∧ t.isTarget ∧ BindsAlike source t ∧
      writesIn (factsOf source .bound .top t) = ["a", "b", "d"] ∧
      readsIn (factsOf source .bound .top t) = ["p", "e", "f"] := by
  intro source
  have hfound : ((parse source).preorder.find? (·.hasRole .left)).map (fun t =>
      (t.isTarget, t.starredNames.length, writesIn (factsOf source .bound .top t),
        readsIn (factsOf source .bound .top t))) =
      some (true, 0, ["a", "b", "d"], ["p", "e", "f"]) := by decide +kernel
  obtain ⟨t, ht, hfacts⟩ := Option.map_eq_some_iff.1 hfound
  simp only [Prod.mk.injEq, List.length_eq_zero_iff] at hfacts
  obtain ⟨htarget, hnone, hwrites, hreads⟩ := hfacts
  have hleft := List.find?_some ht
  exact ⟨t, List.mem_of_find?_eq_some ht, hleft, htarget, (bindsAlike_iff htarget).2 hnone,
    hwrites, hreads⟩

/-- A star in an alias keeps the form of an expression, and the name behind it is read. -/
theorem not_bindsAlike_of_starred_alias :
    let source := "with f() as (a, *b):\n    pass\n".toList
    ∃ outer ∈ (parse source).preorder, outer.isKind .asPatternTarget ∧
      ∃ t, outer.children = [t] ∧ t.isTarget ∧ ¬BindsAlike source t ∧
        writesIn (factsOf source .bound .top t) = ["a"] ∧
        readsIn (factsOf source .bound .top t) = ["b"] := by
  intro source
  let b : Binding := ⟨none, none, false, 1⟩
  have hfound : ((parse source).preorder.find? (·.isKind .asPatternTarget)).map (fun outer =>
      outer.children.map fun t =>
        (t.isTarget, writesIn (factsOf source .bound .top t),
          readsIn (factsOf source .bound .top t),
          writesIn (factsOf source (.assigned b .simple) .top t))) =
      some [(true, ["a"], ["b"], ["a", "b"])] := by decide +kernel
  obtain ⟨outer, houter, hchildren⟩ := Option.map_eq_some_iff.1 hfound
  obtain ⟨t, ht, hfacts⟩ := List.map_eq_singleton_iff.1 hchildren
  simp only [Prod.mk.injEq] at hfacts
  obtain ⟨htarget, hwrites, hreads, hassigned⟩ := hfacts
  have hkind := List.find?_some houter
  refine ⟨outer, List.mem_of_find?_eq_some houter, hkind, t, ht, htarget, fun halike => ?_,
    hwrites, hreads⟩
  have hsame := halike.writes .top b .simple
  rw [hwrites, hassigned] at hsame
  cases hsame

end Extraction

end SourceCorpus
