import SourceCorpus.Proofs.Extraction.Ownership
import SourceCorpus.Proofs.Extraction.Targets

/-!
What a stretch of source declares: the definitions in it, and what it assigns on the instance of a
method. Main statement: the facts of a tree tell of both in the order of the source, if augmented
assignments are not chained with others.
-/

namespace SourceCorpus

namespace Syntax.Tree

mutual

/-- The steps from a node to a child of it, in the order of the source. None of them leads into the
body of a definition. -/
def stepsIn : Tree → List (Tree × Tree)
  | node kind role extent children => stepsFrom (node kind role extent children) children
  | _ => []

def stepsFrom (parent : Tree) : List Tree → List (Tree × Tree)
  | [] => []
  | c :: cs =>
    (if entersBody parent c then [] else (parent, c) :: stepsIn c) ++ stepsFrom parent cs

end

def isMixedChain (t : Tree) : Bool :=
  t.isAssignment && t.children.any fun c =>
    c.hasRole .right && c.isAssignment && !(t.isKind .assignment && c.isKind .assignment)

/-- Chains of assignments have no augmented one among them: that would be evaluated as a value, and
bind its target before those on its left. -/
def HasPlainChains (t : Tree) : Prop := ∀ n ∈ t.preorder, n.isMixedChain = false

instance (t : Tree) : Decidable t.HasPlainChains :=
  inferInstanceAs (Decidable (∀ n ∈ t.preorder, n.isMixedChain = false))

theorem stepsFrom_eq_flatMap (parent : Tree) (ts : List Tree) :
    stepsFrom parent ts =
      ts.flatMap fun c => if entersBody parent c then [] else (parent, c) :: stepsIn c := by
  induction ts with
  | nil => rfl
  | cons t ts ih => rw [stepsFrom, ih, List.flatMap_cons]

theorem mem_preorder_of_mem_stepsIn {t : Tree} {step : Tree × Tree} (h : step ∈ stepsIn t) :
    step.2 ∈ t.preorder := by
  induction t using Tree.induction with
  | node kind role extent children ih =>
    rw [stepsIn, stepsFrom_eq_flatMap] at h
    obtain ⟨c, hc, hstep⟩ := List.mem_flatMap.1 h
    refine mem_preorder_of_mem_children (t := .node kind role extent children) hc ?_
    split at hstep
    · cases hstep
    · rcases List.mem_cons.1 hstep with rfl | hstep
      · exact self_mem_preorder c
      · exact ih c hc hstep
  | error => cases h
  | missing => cases h

theorem HasPlainChains.of_mem_preorder {t n : Tree} (h : t.HasPlainChains) (hn : n ∈ t.preorder) :
    n.HasPlainChains := fun m hm => h m (mem_preorder_trans hn hm)

theorem HasNoDeclaration.isDefinition_eq_false {t : Tree} (h : t.HasNoDeclaration) :
    t.isDefinition = false := h.hasNoDefinition t (self_mem_preorder t)

end Syntax.Tree

namespace Extraction

open Syntax Tree

def ownSteps (owner : Tree) : List (Tree × Tree) := (regionOf owner).flatMap stepsIn

def declares : Fact → Bool
  | .defined .. | .instanceAttribute _ => true
  | _ => false

def declarationsIn (facts : List Fact) : List Fact := facts.filter declares

def isSpelled (source : List Char) (name : String) (t : Tree) : Bool :=
  t.isKind .identifier && t.text source == name

def memberOf? (source : List Char) (isReceiver : Tree → Bool) (t : Tree) : Option String :=
  match t.child? .object, t.child? .member with
  | some object, some member =>
    if t.isKind .memberAccess && isReceiver object then some (member.text source) else none
  | _, _ => none

def boundMembers (source : List Char) (isReceiver : Tree → Bool) (target : Tree) : List String :=
  target.places.filterMap (memberOf? source isReceiver)

def decoratorsIn (t : Tree) : List Tree :=
  if t.isKind .decoratedDefinition then t.children.filter (·.isKind .decorator) else []

def definedBy (source : List Char) (place : Place) (decorators : List String) (t : Tree) :
    List Fact :=
  if t.isDefinition then
    (headerOf? source place.owner decorators t).toList.map fun header =>
      .defined header (factsInRole source .body (place.inside (some header)) .body t.children)
  else []

def assignedBy (source : List Char) (place : Place) (target : Tree) : List Fact :=
  match place.selfName with
  | some receiver => (boundMembers source (isSpelled source receiver) target).map .instanceAttribute
  | none => []

/-- What the step declares: the definition that it leads to, and the members of the instance that are
bound with the target of an assignment. -/
def declaredBy (source : List Char) (place : Place) (step : Tree × Tree) : List Fact :=
  definedBy source place ((decoratorsIn step.1).filterMap (decoratorText? source)) step.2 ++
    if step.1.isAssignment && step.2.hasRole .left then assignedBy source place step.2 else []

def declaredIn (source : List Char) (place : Place) (t : Tree) : List Fact :=
  (stepsIn t).flatMap (declaredBy source place)

def partDeclared (source : List Char) (place : Place) (parent c : Tree) : List Fact :=
  if entersBody parent c then []
  else declaredBy source place (parent, c) ++ declaredIn source place c

def DeclaresAll (source : List Char) (place : Place) (t : Tree) (facts : List Fact) : Prop :=
  declarationsIn facts = definedBy source place [] t ++ declaredIn source place t

variable {source : List Char} {place : Place} {facts : List Fact} {t c : Tree}

theorem declarationsIn_append (facts facts' : List Fact) :
    declarationsIn (facts ++ facts') = declarationsIn facts ++ declarationsIn facts' :=
  List.filter_append ..

theorem declarationsIn_flatMap (ts : List Tree) (f : Tree → List Fact) :
    declarationsIn (ts.flatMap f) = ts.flatMap fun t => declarationsIn (f t) :=
  List.filter_flatMap

theorem declarationsIn_map {α : Type} {f : α → Fact} (h : ∀ a, declares (f a) = false)
    (l : List α) : declarationsIn (l.map f) = [] := by
  rw [declarationsIn, List.filter_map, List.map_eq_nil_iff, List.filter_eq_nil_iff]
  exact fun a _ => by simp [h a]

theorem declarationsIn_all_eq_nil {reading : Reading} {ts : List Tree}
    (h : ∀ t ∈ ts, declarationsIn (factsOf source reading place t) = []) :
    declarationsIn (factsOfAll source reading place ts) = [] := by
  rw [factsOfAll_eq_flatMap, declarationsIn_flatMap]
  exact List.flatMap_eq_nil_iff.2 h

theorem declarationsIn_inRole_eq_nil {reading : Reading} {part : Role} {ts : List Tree}
    (h : ∀ t ∈ ts, t.hasRole part → declarationsIn (factsOf source reading place t) = []) :
    declarationsIn (factsInRole source reading place part ts) = [] := by
  rw [factsInRole_eq_flatMap, declarationsIn_flatMap, List.flatMap_eq_nil_iff]
  intro t ht
  split
  next hrole => exact h t ht hrole
  next => rfl

theorem definedBy_eq_nil (h : t.isDefinition = false) (decorators : List String) :
    definedBy source place decorators t = [] := by
  rw [definedBy, h, if_neg Bool.false_ne_true]

section Nodes

variable {kind : Kind} {role : Option Role} {extent : Extent} {children : List Tree}

theorem declaredIn_node :
    declaredIn source place (.node kind role extent children) =
      children.flatMap (partDeclared source place (.node kind role extent children)) := by
  rw [declaredIn, stepsIn, stepsFrom_eq_flatMap, List.flatMap_assoc]
  refine List.flatMap_congr fun c _ => ?_
  rw [partDeclared]
  split
  · rfl
  · rw [List.flatMap_cons, declaredIn]

theorem declaredIn_eq_nil (h : t.HasNoDeclaration) : declaredIn source place t = [] := by
  induction t using Tree.induction with
  | node kind role extent children ih =>
    obtain ⟨hkind, hchildren⟩ := avoids_node.1 h
    have hassignment : (node kind role extent children).isAssignment = false :=
      Kind.isAssignment_eq_false hkind
    rw [declaredIn_node, List.flatMap_eq_nil_iff]
    intro c hc
    have hnone : c.HasNoDeclaration := hchildren c hc
    rw [partDeclared, declaredBy, definedBy_eq_nil hnone.isDefinition_eq_false, hassignment,
      ih c hc hnone]
    simp
  | error => rfl
  | missing => rfl

theorem DeclaresAll.eq_nil (h : DeclaresAll source place t facts) (hnone : t.HasNoDeclaration) :
    declarationsIn facts = [] := by
  rw [DeclaresAll, definedBy_eq_nil hnone.isDefinition_eq_false, declaredIn_eq_nil hnone] at h
  exact h

theorem DeclaresAll.of_eq_nil (hnone : t.HasNoDeclaration) (h : declarationsIn facts = []) :
    DeclaresAll source place t facts := by
  rw [DeclaresAll, definedBy_eq_nil hnone.isDefinition_eq_false, declaredIn_eq_nil hnone, h,
    List.append_nil]

/-- Facts of a node that is no definition, in terms of its children. -/
theorem declaresAll_node (hkind : kind.isDefinition = false)
    (h : declarationsIn facts =
      children.flatMap (partDeclared source place (.node kind role extent children))) :
    DeclaresAll source place (.node kind role extent children) facts := by
  rw [DeclaresAll, definedBy_eq_nil (t := .node kind role extent children) hkind, List.nil_append,
    declaredIn_node, h]

/-- Most nodes declare what their children are and contain. -/
theorem partDeclared_of_ordinary (hkind : kind.isDeclaration = false)
    (hdecorated : kind ≠ .decoratedDefinition) (c : Tree) :
    partDeclared source place (.node kind role extent children) c =
      definedBy source place [] c ++ declaredIn source place c := by
  have hbody : entersBody (.node kind role extent children) c = false := by
    rw [entersBody, isDefinition_node, Kind.isDefinition_eq_false hkind, Bool.false_and]
  have hplain : (node kind role extent children).isAssignment = false :=
    Kind.isAssignment_eq_false hkind
  have hdecorators : decoratorsIn (.node kind role extent children) = [] :=
    if_neg (by simpa using hdecorated)
  rw [partDeclared, hbody, if_neg Bool.false_ne_true, declaredBy, hdecorators, hplain,
    List.filterMap_nil, Bool.false_and, if_neg Bool.false_ne_true, List.append_nil]

theorem partDeclared_eq_nil {parent : Tree} (hnone : c.HasNoDeclaration)
    (h : parent.isAssignment = false ∨ c.hasRole .left = false) :
    partDeclared source place parent c = [] := by
  have hno : (parent.isAssignment && c.hasRole .left) = false := Bool.and_eq_false_iff.2 h
  rw [partDeclared, declaredBy, definedBy_eq_nil hnone.isDefinition_eq_false, hno,
    declaredIn_eq_nil hnone]
  simp

theorem declaresAll_all (hkind : kind.isDeclaration = false)
    (hdecorated : kind ≠ .decoratedDefinition) {reading : Reading}
    (h : ∀ c ∈ children, DeclaresAll source place c (factsOf source reading place c)) :
    DeclaresAll source place (.node kind role extent children)
      (factsOfAll source reading place children) := by
  refine declaresAll_node (Kind.isDefinition_eq_false hkind) ?_
  rw [factsOfAll_eq_flatMap, declarationsIn_flatMap]
  refine List.flatMap_congr fun c hc => ?_
  rw [partDeclared_of_ordinary hkind hdecorated]
  exact h c hc

/-- Only the children in one role are read, and the others have nothing to declare. -/
theorem declaresAll_inRole (hkind : kind.isDeclaration = false)
    (hdecorated : kind ≠ .decoratedDefinition) {reading : Reading} {part : Role}
    (h : ∀ c ∈ children, DeclaresAll source place c (factsOf source reading place c))
    (hnone : ∀ c ∈ children, c.hasRole part ∨ c.HasNoDeclaration) :
    DeclaresAll source place (.node kind role extent children)
      (factsInRole source reading place part children) := by
  refine declaresAll_node (Kind.isDefinition_eq_false hkind) ?_
  rw [factsInRole_eq_flatMap, declarationsIn_flatMap]
  refine List.flatMap_congr fun c hc => ?_
  by_cases hrole : c.hasRole part
  · rw [if_pos hrole, partDeclared_of_ordinary hkind hdecorated]
    exact h c hc
  · have hplain : (node kind role extent children).isAssignment = false :=
      Kind.isAssignment_eq_false hkind
    rw [if_neg hrole, partDeclared_eq_nil ((hnone c hc).resolve_left hrole) (.inl hplain)]
    rfl

/-- A node that neither defines nor assigns declares nothing, if there are no declarations below it. -/
theorem declaresAll_of_isInert (hdefinition : kind.isDefinition = false)
    (hassignment : kind.isAssignment = false) (hinert : ∀ c ∈ children, c.IsInert)
    (hsilent : declarationsIn facts = []) :
    DeclaresAll source place (.node kind role extent children) facts := by
  have hplain : (node kind role extent children).isAssignment = false := hassignment
  refine declaresAll_node hdefinition (hsilent.trans (List.flatMap_eq_nil_iff.2 fun c hc => ?_).symm)
  exact partDeclared_eq_nil (hinert c hc).hasNoDeclaration (.inl hplain)

theorem DeclaresAll.silent_append {facts' : List Fact} (hsilent : declarationsIn facts = [])
    (h : DeclaresAll source place t facts') : DeclaresAll source place t (facts ++ facts') := by
  rw [DeclaresAll, declarationsIn_append, hsilent, List.nil_append]
  exact h

structure DeclaresWalked (source : List Char) (t : Tree) : Prop where
  value : ∀ place, DeclaresAll source place t (factsOf source .value place t)
  bound : ∀ place, DeclaresAll source place t (factsOf source .bound place t)
  rightSide : t.isKind .assignment ∨ t.HasNoDeclaration → ∀ place,
    declarationsIn (factsOf source .rightSide place t) = []
  chain : t.isKind .assignment ∨ t.HasNoDeclaration → ∀ place b target,
    declarationsIn (factsOf source (.chain b target) place t) = declaredIn source place t
  assigned : t.HasNoDeclaration → ∀ place b target,
    declarationsIn (factsOf source (.assigned b target) place t) = assignedBy source place t
  decorator : t.HasNoDeclaration → ∀ place,
    declarationsIn (factsOf source .decorator place t) = []
  definition : t.isDefinition → ∀ place decorators,
    declarationsIn (factsOf source (.definition decorators) place t) =
      definedBy source place decorators t
  /-- What is not in the body of a definition declares nothing. -/
  outside : t.isDefinition → ∀ place, declaredIn source place t = []
  defaults : t.HasNoDeclaration → ∀ place,
    declarationsIn (factsOf source .defaults place t) = []

/-! ### Targets -/

theorem instanceName?_eq (h : t.isKind .memberAccess) :
    instanceName? source place t =
      place.selfName.bind fun receiver => memberOf? source (isSpelled source receiver) t := by
  rw [instanceName?]
  cases place.selfName with
  | none => cases t.child? .object <;> cases t.child? .member <;> rfl
  | some receiver =>
    rw [Option.bind_some, memberOf?, h]
    cases t.child? .object <;> cases t.child? .member <;> rfl

theorem memberOf?_eq_none (h : t.isKind .memberAccess = false) (isReceiver : Tree → Bool) :
    memberOf? source isReceiver t = none := by
  rw [memberOf?, h]
  cases t.child? .object <;> cases t.child? .member <;> rfl

/-- A target with no others in it binds a member of the receiver, if it is one. -/
theorem assignedBy_of_places (h : t.places = [t]) :
    assignedBy source place t = ((place.selfName.bind fun receiver =>
      memberOf? source (isSpelled source receiver) t).map .instanceAttribute).toList := by
  rw [assignedBy]
  cases place.selfName with
  | none => rfl
  | some receiver =>
    rw [Option.bind_some]
    change (boundMembers source (isSpelled source receiver) t).map Fact.instanceAttribute = _
    rw [boundMembers, h]
    cases hmember : memberOf? source (isSpelled source receiver) t <;> simp [hmember]

theorem assignedBy_eq_flatMap (h : (node kind role extent children).places = children.flatMap places) :
    assignedBy source place (.node kind role extent children) =
      children.flatMap (assignedBy source place) := by
  unfold assignedBy
  cases place.selfName with
  | none => simp
  | some receiver => simp only [boundMembers, h, List.filterMap_flatMap, List.map_flatMap]

variable (ih : ∀ c ∈ children, DeclaresWalked source c)
include ih

theorem declarationsIn_assigned (hnone : (node kind role extent children).HasNoDeclaration)
    (hvalue : DeclaresAll source place (.node kind role extent children)
      (factsOf source .value place (.node kind role extent children))) (b : Binding)
    (target : TargetKind) :
    declarationsIn (factsOf source (.assigned b target) place (.node kind role extent children)) =
      assignedBy source place (.node kind role extent children) := by
  obtain ⟨hdeclaration, hchildren⟩ := avoids_node.1 hnone
  -- A group of targets declares what its parts do, a member its attribute, and anything else nothing.
  by_cases hcontains : kind.groupsTargets || kind.starsTargets
  · obtain ⟨element, hfacts⟩ := exists_factsOf_assigned_parts hcontains b target
    rw [hfacts, factsOfAll_eq_flatMap, declarationsIn_flatMap,
      assignedBy_eq_flatMap (places_of_contains hcontains)]
    exact List.flatMap_congr fun c hc => (ih c hc).assigned (hchildren c hc) place b element
  by_cases hname : kind = .identifier
  · subst hname
    unfold assignedBy
    split <;> rfl
  have hplaces : (node kind role extent children).places = [_] :=
    places_of_not_contains hcontains hname
  by_cases hmember : kind = .memberAccess
  · subst hmember
    have hobject : declarationsIn (factsInRole source .value place .object children) = [] :=
      declarationsIn_inRole_eq_nil fun c hc _ => ((ih c hc).value place).eq_nil (hchildren c hc)
    change declarationsIn (((instanceName? source place _).map .instanceAttribute).toList ++
      factsInRole source .value place .object children) = _
    rw [declarationsIn_append, hobject, List.append_nil, instanceName?_eq rfl,
      assignedBy_of_places hplaces]
    generalize place.selfName.bind _ = name?
    cases name? <;> rfl
  · have hfacts : factsOf source (.assigned b target) place (.node kind role extent children) =
        factsOf source .value place (.node kind role extent children) := by
      cases kind <;> first | rfl | contradiction
    have hother : (node kind role extent children).isKind .memberAccess = false := by
      simpa using hmember
    rw [hfacts, hvalue.eq_nil hnone, assignedBy_of_places hplaces]
    simp [memberOf?_eq_none hother]

theorem declaresAll_bound (hvalue : DeclaresAll source place (.node kind role extent children)
      (factsOf source .value place (.node kind role extent children))) :
    DeclaresAll source place (.node kind role extent children)
      (factsOf source .bound place (.node kind role extent children)) := by
  have hall (hkind : kind.isDeclaration = false) (hdecorated : kind ≠ .decoratedDefinition) :
      DeclaresAll source place (.node kind role extent children)
        (factsOfAll source .bound place children) :=
    declaresAll_all hkind hdecorated fun c hc => (ih c hc).bound place
  by_cases hsequence : isSequence kind
  · rw [factsOf_bound_of_isSequence hsequence]
    exact hall (by cases kind <;> first | rfl | cases hsequence) (by rintro rfl; cases hsequence)
  by_cases htarget : kind = .asPatternTarget
  · subst htarget
    cases children with
    | nil => exact .of_eq_nil (avoids_node.2 ⟨rfl, List.forall_mem_nil _⟩) rfl
    | cons c cs => exact hall rfl (by decide)
  by_cases hname : kind = .identifier
  · subst hname
    exact hvalue
  rwa [factsOf_bound_eq_value hsequence htarget hname]

/-! ### Assignments -/

omit ih in
theorem partDeclared_of_assignment (hkind : kind.isAssignment) (hnone : c.HasNoDefinition) :
    partDeclared source place (.node kind role extent children) c =
      (if c.hasRole .left then assignedBy source place c else []) ++ declaredIn source place c := by
  have hkinds : kind.isDefinition = false ∧ kind ≠ .decoratedDefinition := by
    cases kind <;> first | decide | cases hkind
  have hassignment : (node kind role extent children).isAssignment = true := hkind
  have hbody : entersBody (.node kind role extent children) c = false := by
    rw [entersBody, isDefinition_node, hkinds.1, Bool.false_and]
  have hdefinition : c.isDefinition = false := hnone c (self_mem_preorder c)
  rw [partDeclared, hbody, if_neg Bool.false_ne_true, declaredBy, definedBy_eq_nil hdefinition,
    hassignment, List.nil_append, Bool.true_and]

omit ih in
/-- On the right of an assignment stands a plain one, if any. -/
theorem isKind_assignment_or_of_fits (hkind : kind.isAssignment) (hc : c ∈ children)
    (hfits : Fits kind c) (hchain : (node kind role extent children).isMixedChain = false) :
    (kind = .assignment ∧ c.hasRole .right ∧ c.isKind .assignment) ∨ c.HasNoDeclaration := by
  have hparts : (c.hasRole .right ∧ c.isAssignment) ∨ c.HasNoDeclaration := by
    cases kind
    case assignment => exact hfits.2.1
    case augmentedAssignment => exact hfits.2.1
    all_goals cases hkind
  refine hparts.imp_left fun ⟨hright, hassignment⟩ => ?_
  have hself : (node kind role extent children).isAssignment = true := hkind
  rw [isMixedChain, hself, Bool.true_and, List.any_eq_false] at hchain
  have hplain := hchain c hc
  simp only [hright, hassignment, Bool.true_and, Bool.not_eq_true', Bool.and_eq_false_iff,
    not_or, Bool.not_eq_false, isKind_node, beq_iff_eq] at hplain
  exact ⟨hplain.1, hright, hplain.2⟩

theorem declarationsIn_targetFacts (fits : ∀ c ∈ children, Fits .assignment c)
    (hchain : (node .assignment role extent children).isMixedChain = false) (place : Place)
    (b : Binding) (target : TargetKind) :
    declarationsIn (targetFacts source b target place children) =
      declaredIn source place (.node .assignment role extent children) := by
  rw [targetFacts_eq_flatMap, declarationsIn_flatMap, declaredIn_node]
  refine List.flatMap_congr fun c hc => ?_
  have hparts := isKind_assignment_or_of_fits rfl hc (fits c hc) hchain
  rw [partDeclared_of_assignment rfl (fits c hc).1]
  by_cases hleft : c.hasRole .left
  · have hnone : c.HasNoDeclaration := by
      refine hparts.resolve_left fun h => ?_
      rw [hasRole_eq_false_of_hasRole hleft (by decide)] at h
      cases h.2.1
    rw [if_pos hleft, if_pos hleft, (ih c hc).assigned hnone, declaredIn_eq_nil hnone,
      List.append_nil]
  rw [if_neg hleft, if_neg hleft, List.nil_append]
  by_cases hright : c.hasRole .right
  · rw [if_pos hright]
    exact (ih c hc).chain (hparts.imp_left (·.2.2)) place b target
  · rw [if_neg hright, declaredIn_eq_nil (hparts.resolve_left fun h => hright h.2.1)]
    rfl

/-- What stands on the right of an assignment declares something only as a further assignment. -/
theorem declarationsIn_rightSides (fits : ∀ c ∈ children, Fits .assignment c)
    (hchain : (node .assignment role extent children).isMixedChain = false) (place : Place) :
    declarationsIn (factsInRole source .rightSide place .right children) = [] :=
  declarationsIn_inRole_eq_nil fun c hc _ => (ih c hc).rightSide
    ((isKind_assignment_or_of_fits rfl hc (fits c hc) hchain).imp_left (·.2.2)) place

theorem declaresAll_assignment (fits : ∀ c ∈ children, Fits .assignment c)
    (hchain : (node .assignment role extent children).isMixedChain = false) (place : Place) :
    DeclaresAll source place (.node .assignment role extent children)
      (factsOf source .value place (.node .assignment role extent children)) := by
  let b := bindingOf source (.node .assignment role extent children)
  refine declaresAll_node rfl ?_
  change declarationsIn (factsInRole source .rightSide place .right children ++
    targetFacts source b b.targetKind place children) = _
  rw [declarationsIn_append, declarationsIn_rightSides ih fits hchain, List.nil_append,
    declarationsIn_targetFacts ih fits hchain, declaredIn_node]

theorem declaresAll_augmentedAssignment (fits : ∀ c ∈ children, Fits .augmentedAssignment c)
    (hchain : (node .augmentedAssignment role extent children).isMixedChain = false)
    (place : Place) :
    DeclaresAll source place (.node .augmentedAssignment role extent children)
      (factsOf source .value place (.node .augmentedAssignment role extent children)) := by
  let b := augmentedBindingOf source (.node .augmentedAssignment role extent children)
  have hnone : ∀ c ∈ children, c.HasNoDeclaration := fun c hc =>
    (isKind_assignment_or_of_fits rfl hc (fits c hc) hchain).resolve_left fun h => nomatch h.1
  have hright : declarationsIn (factsInRole source .value place .right children) = [] :=
    declarationsIn_inRole_eq_nil fun c hc _ => ((ih c hc).value place).eq_nil (hnone c hc)
  refine declaresAll_node rfl ?_
  change declarationsIn (factsInRole source .value place .right children ++
    ((children.filter fun c => c.hasRole .left && c.isKind .identifier).map fun c =>
      read (c.text source)) ++ factsInRole source (.assigned b .augmented) place .left children) = _
  rw [declarationsIn_append, declarationsIn_append, hright, declarationsIn_map (fun _ => rfl),
    List.nil_append, List.nil_append, factsInRole_eq_flatMap, declarationsIn_flatMap]
  refine List.flatMap_congr fun c hc => ?_
  rw [partDeclared_of_assignment rfl (fits c hc).1, declaredIn_eq_nil (hnone c hc), List.append_nil]
  split
  · exact (ih c hc).assigned (hnone c hc) place b .augmented
  · rfl

theorem declarationsIn_rightSide (fits : ∀ c ∈ children, Fits kind c)
    (hchain : (node kind role extent children).isMixedChain = false)
    (hvalue : DeclaresAll source place (.node kind role extent children)
      (factsOf source .value place (.node kind role extent children)))
    (h : (node kind role extent children).isKind .assignment ∨
      (node kind role extent children).HasNoDeclaration) :
    declarationsIn (factsOf source .rightSide place (.node kind role extent children)) = [] := by
  rw [isKind_node, beq_iff_eq] at h
  by_cases hkind : kind = .assignment
  · subst hkind
    exact declarationsIn_rightSides ih fits hchain place
  · have hnone := h.resolve_left hkind
    have hother : (node kind role extent children).isKind .assignment = false := by
      rwa [isKind_node, beq_eq_false_iff_ne]
    rw [factsOf_rightSide hother hnone.hasNoDefinition]
    exact hvalue.eq_nil hnone

theorem declarationsIn_chain (fits : ∀ c ∈ children, Fits kind c)
    (hchain : (node kind role extent children).isMixedChain = false)
    (h : (node kind role extent children).isKind .assignment ∨
      (node kind role extent children).HasNoDeclaration) (place : Place) (b : Binding)
    (target : TargetKind) :
    declarationsIn (factsOf source (.chain b target) place (.node kind role extent children)) =
      declaredIn source place (.node kind role extent children) := by
  rw [isKind_node, beq_iff_eq] at h
  by_cases hkind : kind = .assignment
  · subst hkind
    exact declarationsIn_targetFacts ih fits hchain place b target
  · have hchained : factsOf source (.chain b target) place (.node kind role extent children) = [] :=
      if_neg hkind
    rw [hchained, declaredIn_eq_nil (h.resolve_left hkind)]
    rfl

/-! ### Loops -/

omit ih in
theorem declarationsIn_factsAs {reading : Reading} {as : Role}
    (h : c.hasRole as → declarationsIn (factsOf source reading place c) = []) :
    declarationsIn (factsAs source reading place as c) = [] := by
  rw [factsAs]
  split
  next hrole => exact h hrole
  next => rfl

/-- What a part of a loop declares is found in its body or its alternative. -/
theorem declarationsIn_loopPart (hkind : kind = .forStatement ∨ kind = .forInClause)
    (hc : c ∈ children) (hpart : IsLoopPart c) (place : Place) :
    declarationsIn (factsAs source .value place .body c) ++
        declarationsIn (factsAs source .value place .alternative c) =
      partDeclared source place (.node kind role extent children) c := by
  have hkinds : kind.isDeclaration = false ∧ kind ≠ .decoratedDefinition := by
    rcases hkind with rfl | rfl <;> decide
  have hplain : (node kind role extent children).isAssignment = false :=
    Kind.isAssignment_eq_false hkinds.1
  have hvalue : declarationsIn (factsOf source .value place c) = _ := (ih c hc).value place
  by_cases hbody : c.hasRole .body
  · rw [factsAs_of_hasRole hbody, factsAs_of_hasRole_ne hbody (by decide), hvalue,
      partDeclared_of_ordinary hkinds.1 hkinds.2]
    exact List.append_nil _
  rw [factsAs_of_not_hasRole hbody]
  by_cases halternative : c.hasRole .alternative
  · rw [factsAs_of_hasRole halternative, hvalue, partDeclared_of_ordinary hkinds.1 hkinds.2]
    rfl
  have hnone : c.HasNoDeclaration := hpart.hasNoDeclaration_of_header hbody halternative
  rw [factsAs_of_not_hasRole halternative, partDeclared_eq_nil hnone (.inl hplain)]
  rfl

/-- The header of a loop declares nothing, and no body comes behind an alternative. -/
theorem declaresAll_loop (hkind : kind = .forStatement ∨ kind = .forInClause)
    (fits : ∀ c ∈ children, Fits kind c)
    (hordered : children.Pairwise fun c later =>
      ¬(c.hasRole .alternative ∧ later.hasRole .body) ∨ c.HasNoDeclaration) (place : Place) :
    DeclaresAll source place (.node kind role extent children)
      (factsOf source .value place (.node kind role extent children)) := by
  let inner := if kind = .forStatement then place.branch else place
  have hdefinition : kind.isDefinition = false := by rcases hkind with rfl | rfl <;> rfl
  have hinner : DeclaresAll source inner = DeclaresAll source place := by
    funext t facts
    simp only [inner]
    split <;> rfl
  have hpart {c : Tree} (hc : c ∈ children) : IsLoopPart c := isLoopPart_of_fits hkind (fits c hc)
  have hheader {reading : Reading} {as : Role} (has : as = .left ∨ as = .right)
      (h : ∀ c ∈ children, DeclaresAll source inner c (factsOf source reading inner c)) :
      declarationsIn (factsInRole source reading inner as children) = [] := by
    refine declarationsIn_inRole_eq_nil fun c hc hrole => (h c hc).eq_nil ?_
    exact (hpart hc).hasNoDeclaration (by rcases has with rfl | rfl <;> simp [hrole])
  rw [factsOf_value_of_isLoop hkind rfl, ← hinner]
  refine declaresAll_node hdefinition ?_
  rw [declarationsIn_append, declarationsIn_append, declarationsIn_append,
    hheader (.inl rfl) fun c hc => (ih c hc).bound inner,
    hheader (.inr rfl) fun c hc => (ih c hc).value inner, List.nil_append, List.nil_append,
    factsInRole_eq_flatMap, factsInRole_eq_flatMap, declarationsIn_flatMap, declarationsIn_flatMap]
  change (children.flatMap fun c => declarationsIn (factsAs source .value inner .body c)) ++
    (children.flatMap fun c => declarationsIn (factsAs source .value inner .alternative c)) = _
  rw [flatMap_append_flatMap]
  · exact List.flatMap_congr fun c hc => declarationsIn_loopPart ih hkind hc (hpart hc) inner
  -- All bodies are read before the alternatives: that is the order of the source, as no body that
  -- declares something stands behind an alternative.
  · refine hordered.imp_of_mem fun {c later} hc _ h => ?_
    rcases h with hroles | hnone
    · by_cases halternative : c.hasRole .alternative
      · exact .inr (declarationsIn_factsAs fun hbody => absurd ⟨halternative, hbody⟩ hroles)
      · exact .inl (declarationsIn_factsAs fun h => absurd h halternative)
    · exact .inl (declarationsIn_factsAs fun _ => ((ih c hc).value inner).eq_nil hnone)

/-! ### Definitions -/

/-- A decorator is an expression, and declares nothing. -/
theorem declarationsIn_decorator (hnone : (node kind role extent children).HasNoDeclaration)
    (place : Place) :
    declarationsIn (factsOf source .decorator place (.node kind role extent children)) = [] := by
  change declarationsIn (if kind = .decorator then firstFacts source place children else []) = []
  split
  · rw [firstFacts_eq]
    cases hfirst : (withoutComments children).head? with
    | none => rfl
    | some x =>
      have hx : x ∈ children := (List.mem_filter.1 (List.mem_of_head? hfirst)).1
      exact ((ih x hx).value place).eq_nil ((avoids_node.1 hnone).2 x hx)
  · rfl

omit ih in
theorem partDeclared_of_decorated (c : Tree) :
    partDeclared source place (.node .decoratedDefinition role extent children) c =
      definedBy source place (decoratorsOf source (.node .decoratedDefinition role extent children))
        c ++ declaredIn source place c :=
  congrArg (· ++ declaredIn source place c) (List.append_nil _)

theorem declaresAll_decoratedDefinition (fits : ∀ c ∈ children, Fits .decoratedDefinition c)
    (place : Place) :
    DeclaresAll source place (.node .decoratedDefinition role extent children)
      (factsOf source .value place (.node .decoratedDefinition role extent children)) := by
  let t : Tree := .node .decoratedDefinition role extent children
  have hplain : t.isAssignment = false := rfl
  have hsilent : declarationsIn (factsOfAll source .decorator place children) = [] := by
    refine declarationsIn_all_eq_nil fun c hc => ?_
    rcases fits c hc with ⟨hordinary, -⟩ | ⟨-, -, hnone⟩
    · rw [factsOf_decorator_eq_nil ((IsReadable.of_isOrdinary hordinary).isKind_eq_false rfl
        (by decide))]
      rfl
    · exact (ih c hc).decorator hnone place
  refine declaresAll_node rfl ?_
  change declarationsIn (factsOfAll source .decorator place children ++
    factsInRole source (.definition (decoratorsOf source t)) place .definition children) = _
  rw [declarationsIn_append, hsilent, List.nil_append, factsInRole_eq_flatMap,
    declarationsIn_flatMap]
  refine List.flatMap_congr fun c hc => ?_
  rcases fits c hc with ⟨-, ⟨hrole, hdefinition⟩ | ⟨hrole, hinert⟩⟩ | ⟨hrole, -, hnone⟩
  · rw [if_pos hrole, (ih c hc).definition hdefinition, partDeclared_of_decorated,
      (ih c hc).outside hdefinition, List.append_nil]
  · rw [hrole, if_neg Bool.false_ne_true, partDeclared_eq_nil hinert.hasNoDeclaration (.inl hplain)]
    rfl
  · have hno : c.hasRole .definition = false := by simp [hasRole, hrole]
    rw [hno, if_neg Bool.false_ne_true, partDeclared_eq_nil hnone (.inl hplain)]
    rfl

omit ih in
theorem declaredIn_definition (hkind : kind.isDefinition)
    (fits : ∀ c ∈ children, Fits .functionDefinition c) (place : Place) :
    declaredIn source place (.node kind role extent children) = [] := by
  have hplain : (node kind role extent children).isAssignment = false := by
    cases kind <;> first | rfl | cases hkind
  rw [declaredIn_node, List.flatMap_eq_nil_iff]
  intro c hc
  by_cases hbody : c.hasRole .body
  · have henters : entersBody (.node kind role extent children) c := by
      rw [entersBody, isDefinition_node, hkind, hbody, Bool.true_and]
    rw [partDeclared, if_pos henters]
  · exact partDeclared_eq_nil (hasNoDeclaration_of_fits (fits c hc) hbody) (.inl hplain)

theorem declarationsIn_definition (hkind : kind.isDefinition)
    (fits : ∀ c ∈ children, Fits .functionDefinition c) (place : Place)
    (decorators : List String) :
    declarationsIn (factsOf source (.definition decorators) place (.node kind role extent children)) =
      definedBy source place decorators (.node kind role extent children) := by
  let t : Tree := .node kind role extent children
  -- Defaults and bases are expressions, so they declare nothing.
  have hdefaults : declarationsIn (factsOfAll source .defaults place children) = [] := by
    refine declarationsIn_all_eq_nil fun c hc => ?_
    by_cases hbody : c.hasRole .body
    · rw [factsOf_defaults_eq_nil_of_isKind (isKind_block_of_fits rfl (fits c hc) hbody) (by decide)]
      rfl
    · exact (ih c hc).defaults (hasNoDeclaration_of_fits (fits c hc) hbody) place
  have hbases : declarationsIn (factsInRole source .value place .superclasses children) = [] := by
    refine declarationsIn_inRole_eq_nil fun c hc hrole => ?_
    exact ((ih c hc).value place).eq_nil (hasNoDeclaration_of_superclasses (fits c hc) hrole)
  have hdefinition : t.isDefinition = true := hkind
  change declarationsIn (definitionFacts (headerOf? source place.owner decorators t)
    (factsOfAll source .defaults place children ++
      factsInRole source .value place .superclasses children)
    (factsInRole source .body (place.inside (headerOf? source place.owner decorators t)) .body
      children)) = definedBy source place decorators t
  rw [definedBy, if_pos hdefinition]
  cases headerOf? source place.owner decorators t with
  | none => rfl
  | some header =>
    rw [definitionFacts, declarationsIn_append, declarationsIn_append, hdefaults, hbases]
    rfl

/-- Default values are expressions, and declare nothing. -/
theorem declarationsIn_defaults (hnone : (node kind role extent children).HasNoDeclaration)
    (place : Place) :
    declarationsIn (factsOf source .defaults place (.node kind role extent children)) = [] := by
  have hchildren := (avoids_node.1 hnone).2
  cases kind
  case parameters =>
    exact declarationsIn_all_eq_nil fun c hc => (ih c hc).defaults (hchildren c hc) place
  case defaultParameter | typedDefaultParameter =>
    exact declarationsIn_inRole_eq_nil fun c hc _ =>
      ((ih c hc).value place).eq_nil (hchildren c hc)
  all_goals rfl

/-! ### Whole trees -/

/-- The target of an alias is bound, and anything else in it is evaluated. -/
theorem declaresAll_asPattern (place : Place) :
    DeclaresAll source place (.node .asPattern role extent children)
      (factsOf source .value place (.node .asPattern role extent children)) := by
  refine declaresAll_node rfl ?_
  change declarationsIn (aliasFacts source place children) = _
  rw [aliasFacts_eq_flatMap, declarationsIn_flatMap]
  refine List.flatMap_congr fun c hc => ?_
  rw [partDeclared_of_ordinary rfl (by decide)]
  split
  · exact (ih c hc).bound place
  · exact (ih c hc).value place

theorem declaresAll_value (fits : ∀ c ∈ children, Fits kind c) (complete : IsComplete kind children)
    (hchain : (node kind role extent children).isMixedChain = false) (place : Place) :
    DeclaresAll source place (.node kind role extent children)
      (factsOf source .value place (.node kind role extent children)) := by
  have hall (hkind : kind.isDeclaration = false) (hdecorated : kind ≠ .decoratedDefinition)
      (place : Place) : DeclaresAll source place (.node kind role extent children)
        (factsOfAll source .value place children) :=
    declaresAll_all hkind hdecorated fun c hc => (ih c hc).value place
  have hinRole (part : Role) (hkind : kind.isDeclaration = false)
      (hdecorated : kind ≠ .decoratedDefinition)
      (hnone : ∀ c ∈ children, c.hasRole part ∨ c.HasNoDeclaration) :
      DeclaresAll source place (.node kind role extent children)
        (factsInRole source .value place part children) :=
    declaresAll_inRole hkind hdecorated (fun c hc => (ih c hc).value place) hnone
  by_cases htransparent : isTransparent kind
  · have hkinds : kind.isDeclaration = false ∧ kind ≠ .decoratedDefinition := by
      cases kind <;> first | decide | cases htransparent
    rw [factsOf_value_of_isTransparent htransparent]
    split
    · exact hall hkinds.1 hkinds.2 place.branch
    · exact hall hkinds.1 hkinds.2 place
  cases kind
  case comment | globalStatement | nonlocalStatement => exact declaresAll_of_isInert rfl rfl fits rfl
  case identifier => exact declaresAll_of_isInert rfl rfl fits rfl
  case importStatement | importFromStatement | futureImportStatement =>
    exact declaresAll_of_isInert rfl rfl (fun c hc => (fits c hc).1)
      (declarationsIn_map (fun _ => rfl) _)
  case decoratedDefinition => exact declaresAll_decoratedDefinition ih fits place
  case functionDefinition | classDefinition =>
    rw [DeclaresAll, declaredIn_definition rfl fits, List.append_nil]
    exact declarationsIn_definition ih rfl fits place []
  case call =>
    refine .silent_append ?_ (hall rfl (by decide) place)
    cases callSite? source (.node .call role extent children) <;> rfl
  case memberAccess =>
    exact hinRole .object rfl (by decide) fun c hc => (fits c hc).2.imp_right (·.hasNoDeclaration)
  case keywordArgument =>
    exact hinRole .value rfl (by decide) fun c hc => (fits c hc).2.imp_right (·.hasNoDeclaration)
  case namedExpression =>
    refine .silent_append ?_ (hinRole .value rfl (by decide) fun c hc =>
      (fits c hc).2.imp_right (·.hasNoDeclaration))
    cases (node .namedExpression role extent children).child? .name <;> rfl
  case lambda =>
    refine hinRole .body rfl (by decide) fun c hc => ?_
    rcases fits c hc with ⟨-, hpart⟩ | ⟨-, -, hnone⟩
    · exact hpart.imp_right (·.hasNoDeclaration)
    · exact .inr hnone
  case asPattern => exact declaresAll_asPattern ih place
  case assignment => exact declaresAll_assignment ih fits hchain place
  case augmentedAssignment => exact declaresAll_augmentedAssignment ih fits hchain place
  case returnStatement =>
    refine .silent_append ?_ (hall rfl (by decide) place)
    cases (withoutComments children).head? <;> rfl
  case forStatement =>
    exact declaresAll_loop ih (.inl rfl) fits (complete.imp fun h => .inl h) place
  case forInClause =>
    refine declaresAll_loop ih (.inr rfl) fits ?_ place
    exact List.pairwise_of_forall_mem_list fun c hc _ _ => .inr (fits c hc).2.1
  all_goals exact absurd rfl htransparent

theorem declaresWalked_node (fits : ∀ c ∈ children, Fits kind c)
    (complete : IsComplete kind children)
    (hchain : (node kind role extent children).isMixedChain = false) :
    DeclaresWalked source (.node kind role extent children) := by
  have hvalue (place : Place) : DeclaresAll source place (.node kind role extent children) _ :=
    declaresAll_value ih fits complete hchain place
  have hparts (hdefinition : kind.isDefinition) : ∀ c ∈ children, Fits .functionDefinition c := by
    cases kind <;> first | exact fits | cases hdefinition
  refine ⟨hvalue, fun place => declaresAll_bound ih (hvalue place), fun h place => ?_,
    fun h place b target => ?_, fun hnone place b target => ?_, fun hnone place => ?_,
    fun hdefinition place decorators => ?_, fun hdefinition place => ?_, fun hnone place => ?_⟩
  · exact declarationsIn_rightSide ih fits hchain (hvalue place) h
  · exact declarationsIn_chain ih fits hchain h place b target
  · exact declarationsIn_assigned ih hnone (hvalue place) b target
  · exact declarationsIn_decorator ih hnone place
  · exact declarationsIn_definition ih hdefinition (hparts hdefinition) place decorators
  · exact declaredIn_definition hdefinition (hparts hdefinition) place
  · exact declarationsIn_defaults ih hnone place

end Nodes

theorem DeclaresWalked.of_shaped {t : Tree} (h : Shaped t) (hchains : t.HasPlainChains) :
    DeclaresWalked source t := by
  induction h with
  | @node kind role extent children fits complete _ ih =>
    refine declaresWalked_node (fun c hc => ih c hc ?_) fits complete
      (hchains _ (self_mem_preorder _))
    exact hchains.of_mem_preorder (mem_preorder_of_mem_children hc (self_mem_preorder c))

end Extraction

end SourceCorpus
