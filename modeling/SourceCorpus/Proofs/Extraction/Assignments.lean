import SourceCorpus.Proofs.Extraction.Calls
import SourceCorpus.Proofs.Extraction.Nesting
import SourceCorpus.Proofs.Extraction.Statements
import SourceCorpus.Proofs.Extraction.Targets
import SourceCorpus.Proofs.Order.FirstOccurrences

/-!
What assignments bind. Main statement: an assignment states its value once and then binds each name
in its targets, from left to right, and every object has the variables that the assignments in its
body bind.
-/

namespace SourceCorpus

namespace Syntax.Tree

mutual

/-- The parts of a target that are no targets around others, from left to right, each with the kinds
of the sequences and stars around it, the innermost first. -/
def leavesWithin (around : List Kind) : Tree → List (List Kind × Tree)
  | node kind role extent children =>
    if kind.groupsTargets || kind.starsTargets then leavesWithinAll (kind :: around) children
    else [(around, node kind role extent children)]
  | t => [(around, t)]

def leavesWithinAll (around : List Kind) : List Tree → List (List Kind × Tree)
  | [] => []
  | t :: ts => leavesWithin around t ++ leavesWithinAll around ts

end

mutual

/-- The assignments in the tree, each behind those in its value. The `rest` of a chain is no
assignment of its own. What definitions hold is left out, unless it is asked for `everywhere`. -/
def assignmentsIn (everywhere rest : Bool) : Tree → List Tree
  | node kind role extent children =>
    if kind.isDefinition && !everywhere then []
    else assignmentsFrom everywhere (kind == .assignment) children ++
      if kind.isAssignment && !(rest && kind == .assignment) then [node kind role extent children]
      else []
  | _ => []

def assignmentsFrom (everywhere chained : Bool) : List Tree → List Tree
  | [] => []
  | t :: ts =>
    assignmentsIn everywhere (chained && t.hasRole .right) t ++ assignmentsFrom everywhere chained ts

end

/-- A chain of assignments, with its targets from left to right and what is on the right of the
innermost one. -/
inductive AssignsThrough : Tree → List Tree → Option Tree → Prop where
  | last {t left : Tree} {value? : Option Tree} (hkind : t.isKind .assignment)
    (hleft : t.child? .left = some left) (hright : t.child? .right = value?)
    (hlast : ∀ value : Tree, value? = some value → value.isKind .assignment = false) :
    AssignsThrough t [left] value?
  | next {t left rest : Tree} {targets : List Tree} {value? : Option Tree}
    (hkind : t.isKind .assignment) (hleft : t.child? .left = some left)
    (hright : t.child? .right = some rest) (hrest : AssignsThrough rest targets value?) :
    AssignsThrough t (left :: targets) value?

variable {t : Tree} {everywhere : Bool} {around : List Kind}

theorem leavesWithinAll_eq_flatMap (around : List Kind) (ts : List Tree) :
    leavesWithinAll around ts = ts.flatMap (leavesWithin around) := by
  induction ts with
  | nil => rfl
  | cons t ts ih => rw [leavesWithinAll, ih, List.flatMap_cons]

theorem mem_preorder_of_mem_leavesWithin {leaf : List Kind × Tree}
    (h : leaf ∈ t.leavesWithin around) : leaf.2 ∈ t.preorder := by
  induction t using Tree.induction generalizing around with
  | node kind role extent children ih =>
    rw [leavesWithin, leavesWithinAll_eq_flatMap] at h
    split at h
    · obtain ⟨c, hc, hleaf⟩ := List.mem_flatMap.1 h
      exact mem_preorder_of_mem_children hc (ih c hc hleaf)
    · rw [List.mem_singleton.1 h]
      exact self_mem_preorder _
  | error | missing =>
    rw [List.mem_singleton.1 h]
    exact self_mem_preorder _

theorem assignmentsFrom_eq_flatMap (everywhere chained : Bool) (ts : List Tree) :
    assignmentsFrom everywhere chained ts =
      ts.flatMap fun t => assignmentsIn everywhere (chained && t.hasRole .right) t := by
  induction ts with
  | nil => rfl
  | cons t ts ih => rw [assignmentsFrom, ih, List.flatMap_cons]

theorem assignmentsIn_eq_nil (h : t.HasNoDeclaration) (rest : Bool) :
    t.assignmentsIn everywhere rest = [] := by
  induction t using Tree.induction generalizing rest with
  | node kind role extent children ih =>
    obtain ⟨hkind, hchildren⟩ := avoids_node.1 h
    have hassignment : kind.isAssignment = false := Kind.isAssignment_eq_false hkind
    have hparts : assignmentsFrom everywhere (kind == .assignment) children = [] := by
      rw [assignmentsFrom_eq_flatMap, List.flatMap_eq_nil_iff]
      exact fun c hc => ih c hc (hchildren c hc) _
    rw [assignmentsIn, hparts, hassignment, Bool.false_and, if_neg Bool.false_ne_true,
      List.append_nil, ite_self]
  | error => rfl
  | missing => rfl

end Syntax.Tree

namespace Extraction

open Syntax Tree

/-- The form in which a name is bound: behind a star, as one of several targets, in a sequence or
alone, whichever applies first. -/
def targetKindOf (chained : Bool) (alone : TargetKind) (around : List Kind) : TargetKind :=
  if around.head?.any Kind.starsTargets then .starred
  else if chained then .chained
  else if around.any Kind.groupsTargets then .unpacked
  else alone

def targetNames (targets : List Tree) : List (List Kind × Tree) :=
  targets.flatMap fun target => (target.leavesWithin []).filter (·.2.isKind .identifier)

def variableFor (source : List Char) (t : Tree) (targets : List Tree) (value? : Option Tree)
    (leaf : List Kind × Tree) : Variable :=
  { name := leaf.2.text source
    value := value?.map (·.text source)
    typeHint := (t.child? .type).map (·.text source)
    target := targetKindOf (1 < targets.length)
      (if (t.child? .type).isSome then .annotated else .simple) leaf.1
    line := t.line }

def augmentedVariableFor (source : List Char) (t : Tree) (leaf : List Kind × Tree) : Variable :=
  { name := leaf.2.text source
    value := (t.child? .right).map (·.text source)
    typeHint := none
    target := targetKindOf false .augmented leaf.1
    line := t.line }

/-- A part of a target states that it is written and bound, if it is a name. Otherwise it is
evaluated, and a member of the instance is an attribute. -/
def leafFacts (source : List Char) (place : Place) (v : Variable) (leaf : Tree) : List Fact :=
  if leaf.isKind .identifier then [write v.name, .assigned v]
  else
    (if leaf.isKind .memberAccess then
      ((instanceName? source place leaf).map .instanceAttribute).toList
    else []) ++ factsOf source .value place leaf

/-- The assignment binds the variables, one for every name in its targets. -/
inductive Binds (source : List Char) (t : Tree) : List Variable → Prop where
  | assignment {targets : List Tree} {value? : Option Tree} (h : AssignsThrough t targets value?) :
    Binds source t ((targetNames targets).map (variableFor source t targets value?))
  | augmented {left : Tree} (hkind : t.isKind .augmentedAssignment)
    (hleft : t.child? .left = some left) :
    Binds source t ((targetNames [left]).map (augmentedVariableFor source t))

def BindAll (source : List Char) (ts : List Tree) (vs : List Variable) : Prop :=
  ∃ groups, List.Forall₂ (Binds source) ts groups ∧ vs = groups.flatten

/-- The assignment states what is on its right, once, and then binds the names in its targets. -/
structure StatesBindings (source : List Char) (t : Tree) (targets : List Tree)
    (value? : Option Tree) : Prop where
  facts : ∀ place, factsOf source .value place t =
    value?.toList.flatMap (factsOf source .value place) ++
      targets.flatMap fun target => (target.leavesWithin []).flatMap fun leaf =>
        leafFacts source place (variableFor source t targets value? leaf) leaf.2
  bound : ∀ place, variablesIn (factsOf source .value place t) =
    value?.toList.flatMap (fun value => variablesIn (factsOf source .value place value)) ++
      (targetNames targets).map (variableFor source t targets value?)

def ownAssignments (owner : Tree) : List Tree :=
  (regionOf owner).flatMap (assignmentsIn false false)

def boundIn (m : CodeModel) (o : CodeObject) : List Variable :=
  match o.payload with
  | .module => m.globals
  | .class data => data.attributes
  | .function data | .method data => data.locals

structure HasBindings (source : List Char) (owner : Tree) (vs : List Variable) (o : CodeObject) :
    Prop where
  object : IsObjectOf source owner o
  bound : BindAll source (ownAssignments owner) vs
  writes : ∀ v ∈ vs, (⟨v.name, .write⟩ : NameRef) ∈ o.references

/-- Every assignment binds the names in its targets, and every object has the variables of the
assignments that it runs, each of which is run by one. -/
structure AccountsForAssignments (source : List Char) (tree : Tree) (m : CodeModel) : Prop where
  statements : ∀ t ∈ tree.preorder, t.isKind .assignment →
    ∃ targets value?, AssignsThrough t targets value? ∧ StatesBindings source t targets value?
  objects : List.Forall₂ (fun owner o => HasBindings source owner (boundIn m o) o) (owners tree)
    m.objects.toList
  shared : ((owners tree).flatMap ownAssignments).Perm (tree.assignmentsIn true false)

variable {source : List Char} {place : Place} {facts facts' : List Fact} {t c : Tree}

/-! ### Variables -/

theorem variablesIn_append (facts facts' : List Fact) :
    variablesIn (facts ++ facts') = variablesIn facts ++ variablesIn facts' :=
  List.filterMap_append

theorem variablesIn_flatMap {α : Type} (parts : List α) (f : α → List Fact) :
    variablesIn (parts.flatMap f) = parts.flatMap fun part => variablesIn (f part) :=
  List.filterMap_flatMap

theorem variablesIn_statedIn (facts : List Fact) :
    variablesIn (statedIn facts) = variablesIn facts := by
  rw [variablesIn, statedIn, List.filterMap_filter]
  refine List.filterMap_congr fun fact _ => ?_
  cases fact <;> rfl

theorem variablesIn_eq_nil (h : statedIn facts = []) : variablesIn facts = [] := by
  rw [← variablesIn_statedIn, h]
  rfl

theorem variablesIn_toList_map {α : Type} {f : α → Fact} (h : ∀ a, variablesIn [f a] = [])
    (o : Option α) : variablesIn (o.map f).toList = [] := by
  cases o with
  | none => rfl
  | some a => exact h a

/-! ### Targets -/

theorem factsOf_assigned (h : t.HasNoDefinition) (b : Binding) (alone : TargetKind)
    (around : List Kind) :
    factsOf source (.assigned b (targetKindOf b.chained alone around)) place t =
      (t.leavesWithin around).flatMap fun leaf => leafFacts source place
        (b.bound (leaf.2.text source) (targetKindOf b.chained alone leaf.1)) leaf.2 := by
  induction t using Tree.induction generalizing around with
  | node kind role extent children ih =>
    obtain ⟨hkind, hchildren⟩ := avoids_node.1 h
    let target : TargetKind := targetKindOf b.chained alone around
    rw [leavesWithin, leavesWithinAll_eq_flatMap]
    split
    next hcontains =>
      have helement : factsOf source (.assigned b target) place (.node kind role extent children) =
          factsOfAll source (.assigned b (targetKindOf b.chained alone (kind :: around))) place
            children := by
        cases kind <;> first | rfl | cases hcontains
      rw [helement, factsOfAll_eq_flatMap, List.flatMap_assoc]
      exact List.flatMap_congr fun c hc => ih c hc (hchildren c hc) _
    next hcontains =>
      rw [List.flatMap_singleton]
      cases kind <;> first | rfl | contradiction
  | error => rfl
  | missing => rfl

theorem variablesIn_leafFacts (h : Shaped t) (hnone : t.HasNoDeclaration) (place : Place)
    (v : Variable) :
    variablesIn (leafFacts source place v t) = if t.isKind .identifier then [v] else [] := by
  rw [leafFacts]
  split
  · rfl
  · rw [variablesIn_append, variablesIn_eq_nil (statesNothing h hnone .value rfl place)]
    split
    · rw [variablesIn_toList_map fun _ => rfl]
      rfl
    · rfl

/-- Of the parts of a target, exactly the names are bound. -/
theorem variablesIn_leaves (h : Shaped t) (hnone : t.HasNoDeclaration) (place : Place)
    (v : List Kind × Tree → Variable) :
    variablesIn ((t.leavesWithin []).flatMap fun leaf => leafFacts source place (v leaf) leaf.2) =
      ((t.leavesWithin []).filter (·.2.isKind .identifier)).map v := by
  have hleaf {leaf : List Kind × Tree} (hmem : leaf ∈ t.leavesWithin []) :
      variablesIn (leafFacts source place (v leaf) leaf.2) =
        if leaf.2.isKind .identifier then [v leaf] else [] := by
    have hpart : leaf.2 ∈ t.preorder := mem_preorder_of_mem_leavesWithin hmem
    exact variablesIn_leafFacts (h.of_mem_preorder hpart)
      (fun n hn => hnone n (mem_preorder_trans hpart hn)) place _
  rw [variablesIn_flatMap, List.map_eq_flatMap, flatMap_eq_of_filter (p := (·.2.isKind .identifier))]
  · refine List.flatMap_congr fun leaf hmem => ?_
    obtain ⟨hmem, hname⟩ := List.mem_filter.1 hmem
    rw [hleaf hmem, if_pos hname]
  · intro leaf hmem hname
    rw [hleaf hmem, hname]
    rfl

/-- The targets state what their parts do, and bind their names. -/
theorem variablesIn_targets {ts : List Tree} (h : ∀ t ∈ ts, Shaped t ∧ t.HasNoDeclaration)
    (b : Binding) (alone : TargetKind) (place : Place) :
    variablesIn (ts.flatMap (factsOf source (.assigned b (targetKindOf b.chained alone [])) place)) =
      (targetNames ts).map fun leaf =>
        b.bound (leaf.2.text source) (targetKindOf b.chained alone leaf.1) := by
  rw [variablesIn_flatMap, targetNames, List.map_flatMap]
  refine List.flatMap_congr fun t ht => ?_
  rw [factsOf_assigned (h t ht).2.hasNoDefinition, variablesIn_leaves (h t ht).1 (h t ht).2]

/-! ### Sides -/

theorem isSide_eq_false_iff : t.isSide = false ↔
    t.hasRole .left = false ∧ t.hasRole .right = false := Bool.or_eq_false_iff

section Sides

variable {kind : Kind} {children : List Tree}

structure AreSides (children : List Tree) (target : Tree) (value? : Option Tree) : Prop where
  left : target.hasRole .left
  right : ∀ value : Tree, value? = some value → value.hasRole .right
  sides : children.filter (·.isSide) = target :: value?.toList

theorem exists_areSides (hkind : kind.isAssignment) (complete : IsComplete kind children) :
    ∃ target value?, AreSides children target value? := by
  have hcomplete : ∃ left rights, children.filter (·.isSide) = left :: rights ∧
      left.hasRole .left ∧ (∀ right ∈ rights, right.hasRole .right) ∧ rights.length ≤ 1 := by
    cases kind <;> first | exact complete | cases hkind
  obtain ⟨target, rights, hsides, hleft, hright, hlength⟩ := hcomplete
  cases rights with
  | nil => exact ⟨target, none, hleft, (fun _ h => by cases h), hsides⟩
  | cons value rest =>
    obtain rfl : rest = [] := List.length_eq_zero_iff.1 (Nat.le_zero.1 (Nat.le_of_succ_le_succ hlength))
    refine ⟨target, some value, hleft, fun value' h => ?_, hsides⟩
    cases h
    exact hright value List.mem_cons_self

theorem find?_sides {role : Role} (hrole : role = .left ∨ role = .right) (ts : List Tree) :
    (ts.filter (·.isSide)).find? (·.hasRole role) = ts.find? (·.hasRole role) := by
  rw [List.find?_filter]
  congr 1
  funext t
  rcases hrole with rfl | rfl <;> simp +contextual [isSide]

theorem targetCountOf_sides (ts : List Tree) :
    targetCountOf (ts.filter (·.isSide)) = targetCountOf ts := by
  induction ts with
  | nil => rfl
  | cons t ts ih =>
    rw [List.filter_cons]
    split
    next => rw [targetCountOf, targetCountOf, ih]
    next hside =>
      obtain ⟨hleft, hright⟩ := isSide_eq_false_iff.1 (Bool.eq_false_iff.2 hside)
      rw [targetCountOf, hleft, hright, ih]
      simp

theorem innermostValueOf?_sides (ts : List Tree) :
    innermostValueOf? (ts.filter (·.isSide)) = innermostValueOf? ts := by
  induction ts with
  | nil => rfl
  | cons t ts ih =>
    rw [List.filter_cons]
    split
    next => rw [innermostValueOf?, innermostValueOf?, ih]
    next hside =>
      rw [innermostValueOf?, (isSide_eq_false_iff.1 (Bool.eq_false_iff.2 hside)).2, ih]
      rfl

theorem targetFacts_sides (b : Binding) (target : TargetKind) (place : Place) (ts : List Tree) :
    targetFacts source b target place (ts.filter (·.isSide)) = targetFacts source b target place ts := by
  rw [targetFacts_eq_flatMap, targetFacts_eq_flatMap]
  refine (flatMap_eq_of_filter fun t _ hside => ?_).symm
  obtain ⟨hleft, hright⟩ := isSide_eq_false_iff.1 hside
  rw [hleft, hright]
  rfl

theorem factsInRole_sides {role : Role} (hrole : role = .left ∨ role = .right) (reading : Reading)
    (place : Place) (ts : List Tree) :
    factsInRole source reading place role (ts.filter (·.isSide)) =
      factsInRole source reading place role ts := by
  rw [factsInRole_eq_flatMap, factsInRole_eq_flatMap]
  refine (flatMap_eq_of_filter fun t _ hside => if_neg ?_).symm
  obtain ⟨hleft, hright⟩ := isSide_eq_false_iff.1 hside
  rcases hrole with rfl | rfl
  · exact Bool.eq_false_iff.1 hleft
  · exact Bool.eq_false_iff.1 hright

namespace AreSides

variable {target : Tree} {value? : Option Tree} (h : AreSides children target value?)
include h

theorem not_right : target.hasRole .right = false := hasRole_eq_false_of_hasRole h.left (by decide)

theorem not_left {value : Tree} (hvalue : value? = some value) : value.hasRole .left = false :=
  hasRole_eq_false_of_hasRole (h.right value hvalue) (by decide)

theorem find?_left : children.find? (·.hasRole .left) = some target := by
  rw [← find?_sides (.inl rfl), h.sides]
  exact List.find?_cons_of_pos h.left

theorem find?_right : children.find? (·.hasRole .right) = value? := by
  rw [← find?_sides (.inr rfl), h.sides, List.find?_cons, h.not_right]
  cases value? with
  | none => rfl
  | some value => exact List.find?_cons_of_pos (h.right value rfl)

theorem mem_left : target ∈ children := by
  have hmem : target ∈ children.filter (·.isSide) := by
    rw [h.sides]
    exact List.mem_cons_self
  exact (List.mem_filter.1 hmem).1

theorem mem_right {value : Tree} (hvalue : value? = some value) : value ∈ children := by
  have hmem : value ∈ children.filter (·.isSide) := by
    rw [h.sides, hvalue]
    exact List.mem_cons_of_mem target List.mem_cons_self
  exact (List.mem_filter.1 hmem).1

theorem facts_left (reading : Reading) (place : Place) :
    factsInRole source reading place .left children = factsOf source reading place target := by
  rw [← factsInRole_sides (.inl rfl), h.sides, factsInRole, if_pos h.left]
  cases value? with
  | none => exact List.append_nil _
  | some value =>
    rw [Option.toList_some, factsInRole, h.not_left rfl]
    exact List.append_nil _

theorem facts_right (reading : Reading) (place : Place) :
    factsInRole source reading place .right children =
      value?.toList.flatMap (factsOf source reading place) := by
  rw [← factsInRole_sides (.inr rfl), h.sides, factsInRole, h.not_right]
  cases value? with
  | none => rfl
  | some value =>
    rw [Option.toList_some, factsInRole, if_pos (h.right value rfl), List.flatMap_singleton]
    exact List.append_nil _

theorem facts_targets (b : Binding) (form : TargetKind) (place : Place) :
    targetFacts source b form place children = factsOf source (.assigned b form) place target ++
      value?.toList.flatMap (factsOf source (.chain b form) place) := by
  rw [← targetFacts_sides, h.sides, targetFacts_eq_flatMap, List.flatMap_cons, if_pos h.left]
  cases value? with
  | none => rfl
  | some value =>
    rw [Option.toList_some, List.flatMap_singleton, List.flatMap_singleton, h.not_left rfl,
      if_neg Bool.false_ne_true, if_pos (h.right value rfl)]

theorem count : targetCountOf children =
    1 + (value?.map fun value => if value.isKind .assignment then targetCount value else 0).getD 0 := by
  rw [← targetCountOf_sides, h.sides, targetCountOf, if_pos h.left, h.not_right]
  cases value? with
  | none => rfl
  | some value => simp [targetCountOf, h.not_left rfl, h.right value rfl]

theorem innermost : innermostValueOf? children =
    value?.bind fun value => if value.isKind .assignment then innermostValue? value else some value := by
  rw [← innermostValueOf?_sides, h.sides, innermostValueOf?, h.not_right]
  cases value? with
  | none => rfl
  | some value =>
    rw [Option.toList_some, if_neg Bool.false_ne_true, innermostValueOf?, if_pos (h.right value rfl)]
    rfl

end AreSides

end Sides

/-! ### Chains -/

structure IsChain (source : List Char) (t : Tree) (lefts : List Tree) (value? : Option Tree) :
    Prop where
  through : AssignsThrough t lefts value?
  targets : ∀ left ∈ lefts, Shaped left ∧ left.HasNoDeclaration
  count : targetCount t = lefts.length
  value : innermostValue? t = value?
  targetFacts : ∀ b target place, factsOf source (.chain b target) place t =
    lefts.flatMap (factsOf source (.assigned b target) place)
  valueFacts : ∀ place, factsOf source .rightSide place t =
    value?.toList.flatMap (factsOf source .value place)

section Nodes

variable {role : Option Role} {extent : Extent} {children : List Tree} {target : Tree}
  {value? : Option Tree}

theorem AreSides.isChain_last (h : AreSides children target value?)
    (htarget : Shaped target ∧ target.HasNoDeclaration)
    (hlast : ∀ value : Tree, value? = some value →
      value.isKind .assignment = false ∧ value.HasNoDefinition) :
    IsChain source (.node .assignment role extent children) [target] value? where
  through := .last rfl h.find?_left h.find?_right fun value hvalue => (hlast value hvalue).1
  targets := List.forall_mem_singleton.2 htarget
  count := by
    refine h.count.trans ?_
    cases value? with
    | none => rfl
    | some value =>
      rw [Option.map_some, (hlast value rfl).1]
      rfl
  value := by
    refine h.innermost.trans ?_
    cases value? with
    | none => rfl
    | some value =>
      rw [Option.bind_some, (hlast value rfl).1]
      rfl
  targetFacts b form place := by
    refine (h.facts_targets b form place).trans ?_
    cases value? with
    | none => rfl
    | some value =>
      rw [Option.toList_some, List.flatMap_singleton, factsOf_chain (hlast value rfl).1]
      rfl
  valueFacts place := by
    refine (h.facts_right .rightSide place).trans ?_
    cases value? with
    | none => rfl
    | some value =>
      rw [Option.toList_some, List.flatMap_singleton, List.flatMap_singleton,
        factsOf_rightSide (hlast value rfl).1 (hlast value rfl).2]

theorem AreSides.isChain_next {rest : Tree} {lefts : List Tree}
    (h : AreSides children target (some rest))
    (htarget : Shaped target ∧ target.HasNoDeclaration) (hrest : rest.isKind .assignment)
    (hchain : IsChain source rest lefts value?) :
    IsChain source (.node .assignment role extent children) (target :: lefts) value? where
  through := .next rfl h.find?_left h.find?_right hchain.through
  targets := List.forall_mem_cons.2 ⟨htarget, hchain.targets⟩
  count := by
    refine h.count.trans ?_
    rw [Option.map_some, if_pos hrest, hchain.count, List.length_cons, Nat.add_comm]
    rfl
  value := by
    refine h.innermost.trans ?_
    rw [Option.bind_some, if_pos hrest, hchain.value]
  targetFacts b form place := by
    refine (h.facts_targets b form place).trans ?_
    rw [Option.toList_some, List.flatMap_singleton, hchain.targetFacts, List.flatMap_cons]
  valueFacts place := by
    refine (h.facts_right .rightSide place).trans ?_
    rw [Option.toList_some, List.flatMap_singleton, hchain.valueFacts]

end Nodes

/-- Every assignment is a chain, from the outermost on. -/
theorem exists_isChain (source : List Char) (h : Shaped t) (hkind : t.isKind .assignment) :
    ∃ lefts value?, IsChain source t lefts value? := by
  induction h with
  | @node kind role extent children fits complete shaped ih =>
    obtain rfl : kind = .assignment := by rwa [isKind_node, beq_iff_eq] at hkind
    obtain ⟨target, value?, hsides⟩ := exists_areSides rfl complete
    have htarget : Shaped target ∧ target.HasNoDeclaration := by
      refine ⟨shaped target hsides.mem_left, (fits target hsides.mem_left).2.1.resolve_left ?_⟩
      rw [hsides.not_right]
      exact fun hright => Bool.false_ne_true hright.1
    by_cases hnext : ∃ rest, value? = some rest ∧ rest.isKind .assignment
    · obtain ⟨rest, rfl, hrest⟩ := hnext
      obtain ⟨lefts, value?, hchain⟩ := ih rest (hsides.mem_right rfl) hrest
      exact ⟨target :: lefts, value?, hsides.isChain_next htarget hrest hchain⟩
    · refine ⟨[target], value?, hsides.isChain_last htarget fun value hvalue => ⟨?_, ?_⟩⟩
      · exact Bool.eq_false_iff.2 fun hrest => hnext ⟨value, hvalue, hrest⟩
      · exact (fits value (hsides.mem_right hvalue)).1

/-! ### Statements -/

theorem IsChain.bound_bindingOf {lefts : List Tree} {value? : Option Tree}
    (h : IsChain source t lefts value?) (leaf : List Kind × Tree) :
    (bindingOf source t).bound (leaf.2.text source) (targetKindOf (bindingOf source t).chained
        (if (t.child? .type).isSome then .annotated else .simple) leaf.1) =
      variableFor source t lefts value? leaf := by
  rw [variableFor, ← h.count, ← h.value]
  rfl

theorem targetKind_bindingOf (t : Tree) : (bindingOf source t).targetKind =
    targetKindOf (bindingOf source t).chained
      (if (t.child? .type).isSome then .annotated else .simple) [] := by
  rw [Binding.targetKind, bindingOf, Option.isSome_map]
  rfl

/-- An assignment evaluates what is on its right and then binds its targets. -/
theorem factsOf_assignment (h : t.isKind .assignment) (place : Place) :
    factsOf source .value place t = factsOf source .rightSide place t ++
      factsOf source (.chain (bindingOf source t) (bindingOf source t).targetKind) place t := by
  cases t with
  | node kind =>
    obtain rfl : kind = .assignment := by rwa [isKind_node, beq_iff_eq] at h
    rfl
  | error => cases h
  | missing => cases h

/-- An augmented assignment evaluates what is on its right, reads the names on its left and then binds
its target. -/
theorem AreSides.factsOf_augmentedAssignment {role : Option Role} {extent : Extent}
    {children : List Tree} {target : Tree} {value? : Option Tree} {b : Binding}
    (h : AreSides children target value?)
    (hb : b = augmentedBindingOf source (.node .augmentedAssignment role extent children))
    (place : Place) :
    factsOf source .value place (.node .augmentedAssignment role extent children) =
      value?.toList.flatMap (factsOf source .value place) ++
        ((children.filter fun c => c.hasRole .left && c.isKind .identifier).map fun c =>
          read (c.text source)) ++
        factsOf source (.assigned b (targetKindOf b.chained .augmented [])) place target := by
  rw [← h.facts_right, ← h.facts_left, hb]
  rfl

theorem IsChain.variablesIn_chain {lefts : List Tree} {value? : Option Tree}
    (h : IsChain source t lefts value?) (place : Place) :
    variablesIn (factsOf source (.chain (bindingOf source t) (bindingOf source t).targetKind) place t) =
      (targetNames lefts).map (variableFor source t lefts value?) := by
  rw [h.targetFacts, targetKind_bindingOf, variablesIn_targets h.targets]
  simp only [h.bound_bindingOf]

theorem IsChain.statesBindings {lefts : List Tree} {value? : Option Tree}
    (h : IsChain source t lefts value?) (hkind : t.isKind .assignment) :
    StatesBindings source t lefts value? := by
  refine ⟨fun place => ?_, fun place => ?_⟩
  · rw [factsOf_assignment hkind, h.valueFacts, h.targetFacts, targetKind_bindingOf]
    refine congrArg _ (List.flatMap_congr fun left hleft => ?_)
    rw [factsOf_assigned (h.targets left hleft).2.hasNoDefinition]
    simp only [h.bound_bindingOf]
  · rw [factsOf_assignment hkind, variablesIn_append, h.variablesIn_chain, h.valueFacts,
      variablesIn_flatMap]

namespace BindAll

variable {ts ts' : List Tree} {vs vs' : List Variable}

theorem nil : BindAll source [] [] := ⟨[], .nil, rfl⟩

theorem single (h : Binds source t vs) : BindAll source [t] vs :=
  ⟨[vs], .cons h .nil, (List.flatten_singleton).symm⟩

theorem append (h : BindAll source ts vs) (h' : BindAll source ts' vs') :
    BindAll source (ts ++ ts') (vs ++ vs') := by
  obtain ⟨groups, hgroups, rfl⟩ := h
  obtain ⟨groups', hgroups', rfl⟩ := h'
  exact ⟨groups ++ groups', List.rel_append hgroups hgroups', List.flatten_append.symm⟩

theorem flatMap {α : Type} {parts : List α} {f : α → List Tree} {g : α → List Variable}
    (h : ∀ part ∈ parts, BindAll source (f part) (g part)) :
    BindAll source (parts.flatMap f) (parts.flatMap g) := by
  induction parts with
  | nil => exact nil
  | cons part parts ih =>
    rw [List.forall_mem_cons] at h
    exact h.1.append (ih h.2)

end BindAll

/-! ### The walk -/

/-- A definition binds nothing where it stands. -/
theorem variablesIn_definition (h : Shaped t) (hdefinition : t.isDefinition)
    (decorators : List String) (place : Place) :
    variablesIn (factsOf source (.definition decorators) place t) = [] := by
  cases t with
  | node kind role extent children =>
    rw [← variablesIn_statedIn, statedIn_definition h hdefinition]
    cases headerOf? source place.owner decorators (.node kind role extent children) <;> rfl
  | error => cases h
  | missing => cases h

theorem assignmentsIn_of_isDefinition (h : t.isDefinition) (rest : Bool) :
    t.assignmentsIn false rest = [] := by
  cases t with
  | node kind =>
    have hkind : kind.isDefinition := h
    rw [assignmentsIn, hkind]
    rfl
  | error => rfl
  | missing => rfl

structure BindsWalked (source : List Char) (t : Tree) : Prop where
  value : ∀ place, BindAll source (t.assignmentsIn false false)
    (variablesIn (factsOf source .value place t))
  rightSide : t.HasNoDefinition → ∀ place, BindAll source (t.assignmentsIn false true)
    (variablesIn (factsOf source .rightSide place t))

section Nodes

variable {kind : Kind} {role : Option Role} {extent : Extent} {children : List Tree} {target : Tree}
  {value? : Option Tree}

theorem AreSides.assignmentsFrom (h : AreSides children target value?)
    (hparts : ∀ c ∈ children, c.hasRole .right = false → c.HasNoDeclaration)
    (everywhere chained : Bool) : assignmentsFrom everywhere chained children =
      value?.toList.flatMap (assignmentsIn everywhere chained) := by
  rw [assignmentsFrom_eq_flatMap, flatMap_eq_of_filter (p := (·.isSide)), h.sides,
    List.flatMap_cons, assignmentsIn_eq_nil (hparts target h.mem_left h.not_right), List.nil_append]
  · cases value? with
    | none => rfl
    | some value =>
      rw [Option.toList_some, List.flatMap_singleton, List.flatMap_singleton, h.right value rfl,
        Bool.and_true]
  · exact fun c hc hside => assignmentsIn_eq_nil (hparts c hc (isSide_eq_false_iff.1 hside).2) _

theorem assignmentsIn_node (hdefinition : kind.isDefinition = false)
    (hassignment : kind.isAssignment = false) (everywhere rest : Bool) :
    (node kind role extent children).assignmentsIn everywhere rest =
      children.flatMap (assignmentsIn everywhere false) := by
  have hkind : (kind == .assignment) = false := by cases kind <;> first | rfl | cases hassignment
  rw [assignmentsIn, hdefinition, hassignment, hkind, assignmentsFrom_eq_flatMap]
  exact List.append_nil _

/-- Apart from what is on its right, an assignment has nothing but expressions in it. -/
theorem hasNoDeclaration_of_fits_assignment (hkind : kind.isAssignment) (hfits : Fits kind c)
    (hright : c.hasRole .right = false) : c.HasNoDeclaration := by
  have hpart : (c.hasRole .right ∧ c.isAssignment) ∨ c.HasNoDeclaration := by
    cases kind <;> first | exact hfits.2.1 | cases hkind
  refine hpart.resolve_left fun h => ?_
  rw [hright] at h
  exact Bool.false_ne_true h.1

variable (h : Shaped (.node kind role extent children)) (ih : ∀ c ∈ children, BindsWalked source c)
include h ih

theorem bindsWalked_assignment (hkind : kind = .assignment) :
    BindsWalked source (.node kind role extent children) := by
  subst hkind
  let t : Tree := .node .assignment role extent children
  obtain ⟨lefts, value?, hchain⟩ := exists_isChain source h rfl
  have hparts : ∀ place, BindAll source (assignmentsFrom false true children)
      (variablesIn (factsOf source .rightSide place t)) := by
    intro place
    cases h with
    | node fits complete =>
      obtain ⟨target, value?, hsides⟩ := exists_areSides rfl complete
      have hfacts : factsOf source .rightSide place t =
          value?.toList.flatMap (factsOf source .rightSide place) := hsides.facts_right _ place
      rw [hfacts, variablesIn_flatMap, hsides.assignmentsFrom fun c hc =>
        hasNoDeclaration_of_fits_assignment rfl (fits c hc)]
      refine .flatMap fun value hvalue => ?_
      have hmem : value ∈ children := hsides.mem_right (Option.mem_toList.1 hvalue)
      exact (ih value hmem).rightSide (fits value hmem).1 place
  refine ⟨fun place => ?_, fun _ place => ?_⟩
  · rw [factsOf_assignment rfl, variablesIn_append, hchain.variablesIn_chain]
    exact (hparts place).append (.single (.assignment hchain.through))
  · change BindAll source (assignmentsFrom false true children ++ []) _
    rw [List.append_nil]
    exact hparts place

theorem bindsWalked_augmentedAssignment (hkind : kind = .augmentedAssignment) :
    BindsWalked source (.node kind role extent children) := by
  subst hkind
  let t : Tree := .node .augmentedAssignment role extent children
  let b : Binding := augmentedBindingOf source t
  have hvalue : ∀ place, BindAll source (t.assignmentsIn false false)
      (variablesIn (factsOf source .value place t)) := by
    intro place
    cases h with
    | node fits complete shaped =>
      obtain ⟨target, value?, hsides⟩ := exists_areSides rfl complete
      have hnone : ∀ c ∈ children, c.hasRole .right = false → c.HasNoDeclaration := fun c hc =>
        hasNoDeclaration_of_fits_assignment rfl (fits c hc)
      have hfacts : factsOf source .value place t = _ := hsides.factsOf_augmentedAssignment rfl place
      have hreads : variablesIn ((children.filter fun c =>
          c.hasRole .left && c.isKind .identifier).map fun c => read (c.text source)) = [] :=
        variablesIn_eq_nil (statedIn_map (fun _ => rfl) _)
      have htarget : ∀ left ∈ [target], Shaped left ∧ left.HasNoDeclaration :=
        List.forall_mem_singleton.2 ⟨shaped target hsides.mem_left,
          hnone target hsides.mem_left hsides.not_right⟩
      have hbound : variablesIn ([target].flatMap
          (factsOf source (.assigned b (targetKindOf b.chained .augmented [])) place)) =
            (targetNames [target]).map (augmentedVariableFor source t) :=
        variablesIn_targets htarget b .augmented place
      rw [List.flatMap_singleton] at hbound
      rw [hfacts, variablesIn_append, variablesIn_append, hreads, List.append_nil,
        variablesIn_flatMap, hbound]
      -- The assignments in the value come first, as in the tree; the target binds last.
      refine .append ?_ (.single (.augmented rfl hsides.find?_left))
      change BindAll source (assignmentsFrom false false children) _
      rw [hsides.assignmentsFrom hnone]
      refine .flatMap fun value hvalue => ?_
      exact (ih value (hsides.mem_right (Option.mem_toList.1 hvalue))).value place
  exact ⟨hvalue, fun _ => hvalue⟩

omit ih in
theorem bindAll_decoratedDefinition (hkind : kind = .decoratedDefinition) (place : Place) :
    BindAll source ((node kind role extent children).assignmentsIn false false)
      (variablesIn (factsOf source .value place (.node kind role extent children))) := by
  have hvariables : variablesIn (factsOf source .value place (.node kind role extent children)) = [] := by
    rw [← variablesIn_statedIn, statedIn_decoratedDefinition h hkind, variablesIn_flatMap,
      List.flatMap_eq_nil_iff]
    intro c hc
    obtain ⟨hc, hrole⟩ := List.mem_filter.1 hc
    have hdefinition : c.isDefinition := by
      subst hkind
      exact isDefinition_of_fits (Shaped.fits h hc) hrole
    rw [variablesIn_statedIn]
    exact variablesIn_definition (Shaped.of_mem h hc) hdefinition _ place
  have hassignments : (node kind role extent children).assignmentsIn false false = [] := by
    subst hkind
    rw [assignmentsIn_node rfl rfl, List.flatMap_eq_nil_iff]
    intro c hc
    by_cases hrole : c.hasRole .definition
    · exact assignmentsIn_of_isDefinition (isDefinition_of_fits (Shaped.fits h hc) hrole) false
    · exact assignmentsIn_eq_nil (hasNoDeclaration_of_fits_decorated (Shaped.fits h hc)
        (Bool.eq_false_iff.2 hrole)) false
  rw [hvariables, hassignments]
  exact .nil

theorem bindAll_value (hkind : kind.isAssignment = false) (place : Place) :
    BindAll source ((node kind role extent children).assignmentsIn false false)
      (variablesIn (factsOf source .value place (.node kind role extent children))) := by
  -- Definitions, decorators and imports bind nothing themselves; any other node binds what its parts
  -- do.
  by_cases hdefinition : kind.isDefinition
  · have hfacts : factsOf source .value place (.node kind role extent children) =
        factsOf source (.definition []) place (.node kind role extent children) := by
      cases kind <;> first | rfl | cases hdefinition
    rw [hfacts, variablesIn_definition h hdefinition, assignmentsIn_of_isDefinition (t := .node kind role extent children) hdefinition]
    exact .nil
  rw [Bool.not_eq_true] at hdefinition
  by_cases hdecorated : kind = .decoratedDefinition
  · exact bindAll_decoratedDefinition h hdecorated place
  rw [assignmentsIn_node hdefinition hkind]
  by_cases himport : kind.isImport
  · have hfacts : factsOf source .value place (.node kind role extent children) =
        (importsOf source (.node kind role extent children) place.conditional).map .imported := by
      cases kind <;> first | rfl | cases himport
    have hvariables (statements : List (ObjectId → Import)) :
        variablesIn (statements.map .imported) = [] := by
      rw [variablesIn, List.filterMap_map, List.filterMap_eq_nil_iff]
      exact fun _ _ => rfl
    have hassignments : children.flatMap (assignmentsIn false false) = [] := by
      rw [List.flatMap_eq_nil_iff]
      intro c hc
      have hinert : c.IsInert := by
        have hfits := Shaped.fits h hc
        cases kind <;> first | exact hfits.1 | cases himport
      exact assignmentsIn_eq_nil hinert.hasNoDeclaration false
    rw [hfacts, hvariables, hassignments]
    exact .nil
  · have hdeclaration : kind.isDeclaration = false := by
      rw [Kind.isDeclaration, hdefinition, hkind, Bool.eq_false_iff.2 himport]
      rfl
    rw [← variablesIn_statedIn, statedIn_node h hdeclaration hdecorated, variablesIn_flatMap]
    refine .flatMap fun c hc => ?_
    rw [variablesIn_statedIn]
    exact (ih c hc).value _

theorem bindsWalked_node : BindsWalked source (.node kind role extent children) := by
  by_cases hassignment : kind = .assignment
  · exact bindsWalked_assignment h ih hassignment
  by_cases haugmented : kind = .augmentedAssignment
  · exact bindsWalked_augmentedAssignment h ih haugmented
  have hkind : kind.isAssignment = false := by cases kind <;> first | rfl | contradiction
  refine ⟨bindAll_value h ih hkind, fun hnone place => ?_⟩
  have hdefinition : kind.isDefinition = false := (avoids_node.1 hnone).1
  have hvalue := bindAll_value h ih hkind place
  rw [assignmentsIn_node hdefinition hkind] at hvalue ⊢
  rwa [factsOf_rightSide (by rwa [isKind_node, beq_eq_false_iff_ne]) hnone]

end Nodes

theorem bindsWalked_of_shaped (h : Shaped t) : BindsWalked source t := by
  induction h with
  | node fits complete shaped ih => exact bindsWalked_node (.node fits complete shaped) ih

/-! ### Owners -/

/-- Each assignment is run by the innermost definition around it, or by the module. -/
theorem assignmentsIn_perm (h : Shaped t) (rest : Bool) :
    (t.assignmentsIn true rest).Perm
      (t.assignmentsIn false rest ++ t.definitions.flatMap ownAssignments) := by
  induction h generalizing rest with
  | @node kind role extent children fits complete shaped ih =>
    let t : Tree := .node kind role extent children
    let chained : Bool := kind == .assignment
    let own : List Tree := if kind.isAssignment && !(rest && kind == .assignment) then [t] else []
    -- By induction each part splits in two; a definition then moves its own region to the other side.
    have hparts : (assignmentsFrom true chained children).Perm
        (assignmentsFrom false chained children ++
          (children.flatMap definitions).flatMap ownAssignments) := by
      rw [assignmentsFrom_eq_flatMap, assignmentsFrom_eq_flatMap, List.flatMap_assoc]
      exact (List.Perm.flatMap_left _ fun c hc => ih c hc _).trans
        (List.flatMap_append_perm ..).symm
    have hall : t.assignmentsIn true rest = assignmentsFrom true chained children ++ own := by
      rw [assignmentsIn, Bool.not_true, Bool.and_false, if_neg Bool.false_ne_true]
    change (t.assignmentsIn true rest).Perm _
    rw [hall, definitions_node]
    by_cases hdefinition : kind.isDefinition
    · have hassignment : kind.isAssignment = false := by
        cases kind <;> first | rfl | cases hdefinition
      have hown : own = [] := if_neg (by rw [hassignment]; exact Bool.false_ne_true)
      have hregion : ownAssignments t = assignmentsFrom false chained children := by
        have hnone : chained = false := by cases kind <;> first | rfl | cases hdefinition
        have howner : t.isDefinition := hdefinition
        rw [ownAssignments, regionOf, if_pos howner, assignmentsFrom_eq_flatMap, hnone]
        refine (flatMap_eq_of_filter fun c hc hbody => ?_).symm
        have hfits : Fits .functionDefinition c := by
          have hfits := fits c hc
          cases kind <;> first | exact hfits | cases hdefinition
        exact assignmentsIn_eq_nil (hasNoDeclaration_of_fits hfits (Bool.eq_false_iff.1 hbody)) _
      rw [assignmentsIn_of_isDefinition (t := t) hdefinition, if_pos hdefinition, hown,
        List.append_nil, List.nil_append, List.singleton_append, List.flatMap_cons, hregion]
      exact hparts
    · have hwithin : t.assignmentsIn false rest = assignmentsFrom false chained children ++ own := by
        rw [assignmentsIn, Bool.eq_false_iff.2 hdefinition, Bool.false_and, if_neg Bool.false_ne_true]
      rw [if_neg hdefinition, List.nil_append]
      change List.Perm _ (t.assignmentsIn false rest ++ _)
      rw [hwithin, List.append_assoc]
      refine (hparts.append_right own).trans ?_
      rw [List.append_assoc]
      exact List.perm_append_comm.append_left _

/-! ### Writes -/

def WritesBound (facts : List Fact) : Prop :=
  ∀ v, Fact.assigned v ∈ facts → write v.name ∈ facts

theorem isClosed_writesBound : IsClosed fun _ => WritesBound where
  nil _ := fun v h => by cases h
  append h h' := fun v hv => by
    rw [List.mem_append] at hv ⊢
    exact hv.imp (h v) (h' v)
  atom h := fun v hv => by
    rw [List.mem_singleton] at hv
    subst hv
    cases h
  bound v := fun v' hv => by
    simp only [List.mem_cons, List.not_mem_nil, or_false, Fact.assigned.injEq] at hv
    rcases hv with h | rfl
    · cases h
    · exact List.mem_cons_self
  defined _ _ := fun v hv => by
    rw [List.mem_singleton] at hv
    cases hv

theorem WritesBound.mem_referencesIn (h : WritesBound facts) {v : Variable}
    (hv : v ∈ variablesIn facts) : (⟨v.name, .write⟩ : NameRef) ∈ referencesIn facts := by
  obtain ⟨fact, hfact, hbinding⟩ := List.mem_filterMap.1 hv
  rw [Extraction.mem_referencesIn]
  cases fact <;> cases hbinding
  exact h v hfact

/-! ### Objects -/

/-- What is bound in the body of an object, apart from that of a module. -/
theorem boundIn_of_represents {m : CodeModel} {entry : Header × List Fact} {d : Tree}
    {o : CodeObject} (h : Describes source entry d) (ho : Represents entry o) :
    boundIn m o = variablesIn entry.2 := by
  rw [boundIn, ho.payload, payloadOf]
  cases hkind : entry.1.kind with
  | module => exact absurd hkind h.kind
  | «class» | function | method => rfl

theorem hasBindings_of_facts (facts : List Fact) {owner : Tree} {o : CodeObject} (hobject : IsObjectOf source owner o)
    (hbound : BindAll source (ownAssignments owner) (variablesIn facts)) (hwrites : WritesBound facts)
    (hreferences : o.references = referencesIn facts) :
    HasBindings source owner (variablesIn facts) o := by
  refine ⟨hobject, hbound, fun v hv => ?_⟩
  rw [hreferences]
  exact hwrites.mem_referencesIn hv

theorem hasBindings_modelOf {tree : Tree} (file : String) (h : IsStatement tree)
    (hmodule : tree.isKind .module) :
    List.Forall₂ (fun owner o => HasBindings source owner (boundIn (modelOf file source tree) o) o)
      (owners tree) (modelOf file source tree).objects.toList := by
  refine forall₂_owners_modelOf file h hmodule (fun _ _ _ ho => ⟨ho.1.withChildren _, ho.2, ho.3⟩)
    ?_ fun entry d o hshaped hentry ho => ?_
  · have hdefinition : tree.isDefinition = false := not_isDefinition_of_isKind_module hmodule
    -- The module reads all of its children, a definition only its body.
    refine hasBindings_of_facts (factsOfAll source .value .top tree.children)
      (isObjectOf_moduleObject file _ _ hdefinition) ?_ ?_ rfl
    · rw [ownAssignments, regionOf, hdefinition, if_neg Bool.false_ne_true, List.flatMap_singleton,
        ← factsOf_module hmodule]
      exact (bindsWalked_of_shaped h.shaped).value .top
    · rw [← factsOf_module hmodule]
      exact isClosed_writesBound.holdsOf tree .value .top
  · rw [boundIn_of_represents hentry ho]
    obtain ⟨place, decorators, -, hbody⟩ := hentry.origin
    refine hasBindings_of_facts entry.2 (isObjectOf_of_represents hentry ho).1 ?_ ?_ ho.references
    · cases d with
      | node kind role extent children =>
        have hregion : regionOf (.node kind role extent children) =
            children.filter (·.hasRole .body) := if_pos hentry.isDefinition
        have hfacts : entry.2 = (children.filter (·.hasRole .body)).flatMap
            (factsOf source .value (place.inside (some entry.1))) :=
          hbody.trans (factsInRole_body hshaped hentry.isDefinition _)
        rw [hfacts, variablesIn_flatMap, ownAssignments, hregion]
        refine .flatMap fun c hc => ?_
        exact (bindsWalked_of_shaped (Shaped.of_mem hshaped (List.mem_filter.1 hc).1)).value _
      | error => cases hshaped
      | missing => cases hshaped
    · rw [hbody]
      exact isClosed_writesBound.inRole (fun t _ => isClosed_writesBound.holdsOf t) .body _ .body

/-- Whatever the source text, assignments bind the names in their targets and objects have what is
bound in their bodies. -/
theorem accountsForAssignments {file source : String} {m : CodeModel}
    (h : extract file source = .ok m) :
    AccountsForAssignments source.toList (parse source.toList) m := by
  obtain ⟨hproblem, rfl⟩ := extract_eq_ok_iff.1 h
  obtain ⟨hstatement, hmodule⟩ := isStatement_parse hproblem
  refine ⟨fun t ht hkind => ?_, hasBindings_modelOf file hstatement hmodule, ?_⟩
  · obtain ⟨targets, value?, hchain⟩ :=
      exists_isChain source.toList (hstatement.shaped.of_mem_preorder ht) hkind
    exact ⟨targets, value?, hchain.through, hchain.statesBindings hkind⟩
  · have hdefinition := not_isDefinition_of_isKind_module hmodule
    rw [owners, List.flatMap_cons, ownAssignments, regionOf, hdefinition,
      if_neg Bool.false_ne_true, List.flatMap_singleton]
    exact (assignmentsIn_perm hstatement.shaped false).symm

/-- Several targets, nested and starred ones, an annotation, and places that are no names. -/
theorem accountsForAssignments_of_mixed_targets :
    let source := "a = (b, *c), d.e = f()\np, [*q, r[0]] = s\nx: int = 3\ndef g(self):\n    self.y = (z) = a += 1\n"
    ∃ m, extract "t.py" source = .ok m ∧
      AccountsForAssignments source.toList (parse source.toList) m ∧
      m.objects.toList.map (boundIn m) =
        [[⟨"a", some "f()", none, .chained, 1⟩, ⟨"b", some "f()", none, .chained, 1⟩,
            ⟨"c", some "f()", none, .starred, 1⟩, ⟨"p", some "s", none, .unpacked, 2⟩,
            ⟨"q", some "s", none, .starred, 2⟩, ⟨"x", some "3", some "int", .annotated, 3⟩],
          [⟨"a", some "1", none, .augmented, 5⟩, ⟨"z", some "a += 1", none, .chained, 5⟩]] := by
  intro source
  have hextract : extract "t.py" source =
      .ok (modelOf "t.py" source.toList (parse source.toList)) :=
    extract_eq_ok_iff.2 ⟨by decide +kernel, rfl⟩
  exact ⟨_, hextract, accountsForAssignments hextract, by decide +kernel⟩

end Extraction

end SourceCorpus
