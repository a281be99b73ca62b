import SourceCorpus.Proofs.Extraction.Calls

/-!
The names that a tree reads. Main statement: an object records a name as read exactly if an
identifier spelled so is evaluated on behalf of its owner, which leaves out targets, the names of
members, keywords and imports, and the parameters of lambdas.
-/

namespace SourceCorpus.Extraction

open Syntax Tree

/-- How a part of a tree is read: it is evaluated, or it is the target of a loop or alias, or of an
assignment. -/
inductive Stance where
  | value | bound | assigned
  deriving DecidableEq

def Stance.at : Stance → Kind → Stance
  | .value, _ => .value
  | .bound, kind =>
    if kind == .identifier || kind == .asPatternTarget || isSequence kind then .bound else .value
  | .assigned, kind =>
    if kind == .identifier || kind == .listSplat || isSequence kind then .assigned else .value

def evaluatedIf (condition : Bool) : Option Stance := if condition then some .value else none

/-- How a child of an evaluated node is read; not at all if it only is a name or a layout. The target
of an augmented assignment is evaluated too if it is a name. -/
def evaluatedPart? (kind : Kind) (c : Tree) : Option Stance :=
  match kind with
  | .identifier | .comment | .globalStatement | .nonlocalStatement | .importStatement
  | .importFromStatement | .futureImportStatement => none
  | .memberAccess => evaluatedIf (c.hasRole .object)
  | .keywordArgument | .namedExpression | .defaultParameter | .typedDefaultParameter =>
    evaluatedIf (c.hasRole .value)
  | .lambda => evaluatedIf (c.hasRole .body || c.isKind .lambdaParameters)
  | .parameters | .lambdaParameters => evaluatedIf c.hasDefault
  | .functionDefinition | .classDefinition =>
    evaluatedIf (c.hasRole .body || c.hasRole .superclasses || c.isKind .parameters)
  | .decoratedDefinition => evaluatedIf (c.hasRole .definition || c.isKind .decorator)
  | .asPattern => some (if c.isKind .asPatternTarget then .bound else .value)
  | .assignment => if c.hasRole .left then some .assigned else evaluatedIf (c.hasRole .right)
  | .augmentedAssignment =>
    if c.hasRole .left then some (if c.isKind .identifier then .value else .assigned)
    else evaluatedIf (c.hasRole .right)
  | .forStatement | .forInClause =>
    if c.hasRole .left then some .bound
    else evaluatedIf (c.hasRole .right || c.hasRole .body || c.hasRole .alternative)
  | _ => some .value

def stanceOf? (s : Stance) (parent c : Tree) : Option Stance :=
  parent.kind?.bind fun kind =>
    match s.at kind with
    | .value => evaluatedPart? kind c
    | target => some target

mutual

/-- The identifiers that are evaluated if the tree is read so, reached by allowed steps, in order. -/
def readsVia (pass : Pass) (s : Stance) : Tree → List Tree
  | .node kind role extent children =>
    if kind = .identifier then (if s = .value then [.node kind role extent children] else [])
    else readsOf pass s (.node kind role extent children) children
  | _ => []

def readsOf (pass : Pass) (s : Stance) (parent : Tree) : List Tree → List Tree
  | [] => []
  | c :: cs =>
    (if pass parent c then
      match stanceOf? s parent c with
      | some part => readsVia pass part c
      | none => []
    else []) ++ readsOf pass s parent cs

end

def ownReads (pass : Pass) (owner : Tree) : List Tree :=
  (regionOf owner).flatMap (readsVia pass .value)

def partReads (pass : Pass) (s : Stance) (parent c : Tree) : List Tree :=
  if pass parent c then
    match stanceOf? s parent c with
    | some part => readsVia pass part c
    | none => []
  else []

def StatesReads (source : List Char) (facts : List Fact) (identifiers : List Tree) : Prop :=
  ∀ name, read name ∈ facts ↔ ∃ t ∈ identifiers, t.text source = name

def ReadsNothing (facts : List Fact) : Prop := ∀ name, read name ∉ facts

variable {source : List Char} {facts facts' : List Fact} {identifiers identifiers' : List Tree}
  {pass : Pass} {s : Stance} {parent c : Tree}

theorem readsOf_eq_flatMap (ts : List Tree) :
    readsOf pass s parent ts = ts.flatMap (partReads pass s parent) := by
  induction ts with
  | nil => rfl
  | cons t ts ih => rw [readsOf, ih, List.flatMap_cons, partReads]

theorem readsVia_node {kind : Kind} (h : kind ≠ .identifier) (role : Option Role) (extent : Extent)
    (children : List Tree) :
    readsVia pass s (.node kind role extent children) =
      children.flatMap (partReads pass s (.node kind role extent children)) := by
  rw [readsVia, if_neg h, readsOf_eq_flatMap]

theorem partReads_of_stanceOf? (hpass : pass parent c) {part : Stance}
    (h : stanceOf? s parent c = some part) : partReads pass s parent c = readsVia pass part c := by
  rw [partReads, if_pos hpass, h]

theorem partReads_of_stanceOf?_eq_none (h : stanceOf? s parent c = none) :
    partReads pass s parent c = [] := by
  rw [partReads, h, ite_self]

theorem partReads_of_not_pass (h : pass parent c = false) : partReads pass s parent c = [] := by
  rw [partReads, h, if_neg Bool.false_ne_true]

/-! ### Facts that state reads -/

namespace StatesReads

theorem of_readsNothing (h : ReadsNothing facts) : StatesReads source facts [] := fun name =>
  ⟨fun hread => absurd hread (h name), fun ⟨_, ht, _⟩ => absurd ht List.not_mem_nil⟩

theorem nil : StatesReads source [] [] := .of_readsNothing fun _ => List.not_mem_nil

theorem append (h : StatesReads source facts identifiers)
    (h' : StatesReads source facts' identifiers') :
    StatesReads source (facts ++ facts') (identifiers ++ identifiers') := by
  intro name
  rw [List.mem_append, h name, h' name]
  simp only [List.mem_append, or_and_right, exists_or]

theorem silent_append (h : ReadsNothing facts) (h' : StatesReads source facts' identifiers) :
    StatesReads source (facts ++ facts') identifiers :=
  (of_readsNothing h).append h'

theorem flatMap {ts : List Tree} {f : Tree → List Fact} {g : Tree → List Tree}
    (h : ∀ t ∈ ts, StatesReads source (f t) (g t)) :
    StatesReads source (ts.flatMap f) (ts.flatMap g) := by
  induction ts with
  | nil => exact nil
  | cons t ts ih =>
    rw [List.forall_mem_cons] at h
    rw [List.flatMap_cons, List.flatMap_cons]
    exact h.1.append (ih h.2)

theorem of_perm (hperm : facts.Perm facts') (h : StatesReads source facts' identifiers) :
    StatesReads source facts identifiers := fun name => hperm.mem_iff.trans (h name)

/-- Another round over the parts may be taken together with those before. -/
theorem round {ts : List Tree} {f f' : Tree → List Fact} (hfacts : facts.Perm (ts.flatMap f))
    (h : StatesReads source (ts.flatMap fun t => f t ++ f' t) identifiers) :
    StatesReads source (facts ++ ts.flatMap f') identifiers :=
  h.of_perm ((hfacts.append_right _).trans (List.flatMap_append_perm ts f f'))

end StatesReads

/-! ### Nodes -/

structure ReadsWalked (source : List Char) (t : Tree) : Prop where
  value : IsReadable t → ∀ place,
    StatesReads source (factsOf source .value place t) (readsVia isRecorded .value t)
  bound : t.isOrdinary → ∀ place,
    StatesReads source (factsOf source .bound place t) (readsVia isRecorded .bound t)
  rightSide : t.isOrdinary → t.HasNoDefinition → ∀ place b target, StatesReads source
    (factsOf source .rightSide place t ++ factsOf source (.chain b target) place t)
    (readsVia isRecorded .value t)
  assigned : t.isOrdinary → t.HasNoDefinition → ∀ place b target,
    StatesReads source (factsOf source (.assigned b target) place t)
      (readsVia isRecorded .assigned t)
  decorator : t.isKind .decorator → ∀ place,
    StatesReads source (factsOf source .decorator place t) (readsVia isRecorded .value t)
  definition : t.isDefinition → ∀ place decorators,
    StatesReads source (factsOf source (.definition decorators) place t)
      (readsVia isRecorded .value t)
  defaults : t.isKind .parameters ∨ t.hasDefault → ∀ place,
    StatesReads source (factsOf source .defaults place t) (readsVia isRecorded .value t)
  body : t.isKind .block → ∀ place,
    StatesReads source (factsOf source .body place t) (readsVia isRecorded .value t)

section Nodes

variable {kind : Kind} {role : Option Role} {extent : Extent} {children : List Tree}
  {place : Place} {reading : Reading}

theorem statesReads_all (hkind : kind ≠ .identifier)
    (h : ∀ c ∈ children, StatesReads source (factsOf source reading place c)
      (partReads isRecorded s (.node kind role extent children) c)) :
    StatesReads source (factsOfAll source reading place children)
      (readsVia isRecorded s (.node kind role extent children)) := by
  rw [factsOfAll_eq_flatMap, readsVia_node hkind]
  exact .flatMap h

theorem statesReads_inRole (hkind : kind ≠ .identifier) {part : Role}
    (h : ∀ c ∈ children, StatesReads source
      (if c.hasRole part then factsOf source reading place c else [])
      (partReads isRecorded s (.node kind role extent children) c)) :
    StatesReads source (factsInRole source reading place part children)
      (readsVia isRecorded s (.node kind role extent children)) := by
  rw [factsInRole_eq_flatMap, readsVia_node hkind]
  exact .flatMap h

theorem readsVia_of_isKind_identifier (h : c.isKind .identifier) :
    readsVia pass s c = if s = .value then [c] else [] := by
  cases c with
  | node kind role extent children =>
    rw [isKind_node, beq_iff_eq] at h
    rw [readsVia, if_pos h]
  | error => cases h
  | missing => cases h

/-- A name that is assigned is written. -/
theorem readsNothing_assigned_identifier (h : c.isKind .identifier) {b : Binding}
    {target : TargetKind} : ReadsNothing (factsOf source (.assigned b target) place c) := by
  cases c with
  | node kind role extent children =>
    rw [isKind_node, beq_iff_eq] at h
    subst h
    intro name
    change read name ∉ [write _, .assigned _]
    simp [read, write]
  | error => exact fun _ => List.not_mem_nil
  | missing => exact fun _ => List.not_mem_nil

theorem StatesReads.of_identifier (h : ReadsNothing facts) :
    StatesReads source ([read (c.text source)] ++ facts) [c] := by
  have hself : StatesReads source [read (c.text source)] [c] := fun name => by
    simp [read, eq_comm]
  exact hself.append (of_readsNothing h)

theorem evaluatedPart?_of_isTransparent (hkind : isTransparent kind)
    (hreadable : kind.isConfined = false ∨ kind = .typeParameter) (c : Tree) :
    evaluatedPart? kind c = some .value := by
  cases kind <;> first
    | rfl
    | exact absurd hreadable (by decide)
    | cases hkind

variable (ih : ∀ c ∈ children, ReadsWalked source c)
include ih

theorem statesReads_transparent (fits : ∀ c ∈ children, Fits kind c) (hkind : isTransparent kind)
    (hreadable : IsReadable (.node kind role extent children)) (place : Place) :
    StatesReads source (factsOf source .value place (.node kind role extent children))
      (readsVia isRecorded .value (.node kind role extent children)) := by
  have hdefinition : kind.isDefinition = false := by cases kind <;> first | rfl | cases hkind
  have hname : kind ≠ .identifier := by
    rintro rfl
    cases hkind
  have hconfined : kind.isConfined = false ∨ kind = .typeParameter := by
    simpa [IsReadable, isKind, kind?] using hreadable
  rw [factsOf_value_of_isTransparent hkind]
  refine statesReads_all hname fun c hc => ?_
  have hstance : stanceOf? .value (.node kind role extent children) c = some .value :=
    evaluatedPart?_of_isTransparent hkind hconfined c
  rcases isOrdinary_or_of_isTransparent hkind hconfined (fits c hc) with hordinary | ⟨rfl, hbrackets⟩
  · rw [partReads_of_stanceOf? (isRecorded_of_isOrdinary hreadable hdefinition hordinary) hstance]
    exact (ih c hc).value (.of_isOrdinary hordinary) _
  · have hpass : isRecorded (.node .genericType role extent children) c := by
      have hargument : isTypeArgument (.node .genericType role extent children) c := hbrackets
      rw [isRecorded, hargument, Bool.or_true]
      rfl
    rw [partReads_of_stanceOf? hpass hstance]
    exact (ih c hc).value (.inr hbrackets) _

/-- A child is evaluated where it stands. -/
theorem statesReads_part (hreadable : IsReadable (.node kind role extent children))
    (hdefinition : kind.isDefinition = false) (hc : c ∈ children) (hordinary : c.isOrdinary)
    (hstance : stanceOf? s (.node kind role extent children) c = some .value) (place : Place) :
    StatesReads source (factsOf source .value place c)
      (partReads isRecorded s (.node kind role extent children) c) := by
  rw [partReads_of_stanceOf? (isRecorded_of_isOrdinary hreadable hdefinition hordinary) hstance]
  exact (ih c hc).value (.of_isOrdinary hordinary) place

/-- Only the children in one role are evaluated. -/
theorem statesReads_value_inRole (hreadable : IsReadable (.node kind role extent children))
    (hdefinition : kind.isDefinition = false) (hname : kind ≠ .identifier) {part : Role}
    (fits : ∀ c ∈ children, c.hasRole part → c.isOrdinary)
    (hstance : ∀ c, stanceOf? s (.node kind role extent children) c = evaluatedIf (c.hasRole part))
    (place : Place) :
    StatesReads source (factsInRole source .value place part children)
      (readsVia isRecorded s (.node kind role extent children)) := by
  refine statesReads_inRole hname fun c hc => ?_
  have hpart := hstance c
  by_cases hrole : c.hasRole part
  · rw [hrole] at hpart
    rw [if_pos hrole]
    exact statesReads_part ih hreadable hdefinition hc (fits c hc hrole) hpart place
  · rw [Bool.not_eq_true] at hrole
    rw [hrole] at hpart
    rw [hrole, if_neg Bool.false_ne_true, partReads_of_stanceOf?_eq_none hpart]
    exact .nil

theorem statesReads_lambda (fits : ∀ c ∈ children, Fits .lambda c) (place : Place) :
    StatesReads source (factsOf source .value place (.node .lambda role extent children))
      (readsVia isRecorded .value (.node .lambda role extent children)) := by
  change StatesReads source (factsInRole source .value place .body children) _
  refine statesReads_inRole (by decide) fun c hc => ?_
  rcases fits c hc with ⟨hordinary, -⟩ | ⟨hkind, hrole, -⟩
  · have hparameters : c.isKind .lambdaParameters = false :=
      (IsReadable.of_isOrdinary hordinary).isKind_eq_false rfl (by decide)
    have hstance : stanceOf? .value (.node .lambda role extent children) c =
        evaluatedIf (c.hasRole .body) := by
      change evaluatedIf (c.hasRole .body || c.isKind .lambdaParameters) = _
      rw [hparameters, Bool.or_false]
    cases hbody : c.hasRole .body with
    | true =>
      rw [hbody] at hstance
      rw [if_pos rfl]
      exact statesReads_part ih (.inl rfl) rfl hc hordinary hstance place
    | false =>
      rw [hbody] at hstance
      rw [if_neg Bool.false_ne_true, partReads_of_stanceOf?_eq_none hstance]
      exact .nil
  · -- The parameters of a lambda are not entered.
    have hpass : isRecorded (.node .lambda role extent children) c = false := by
      have hno : c.isKind .typeParameter = false := by
        rw [isKind, beq_iff_eq] at hkind
        simp [isKind, hkind]
      simp [isRecorded, isEvaluated, isTypeArgument, hkind]
    rw [hasRole_eq_false_of_hasRole hrole (by decide), if_neg Bool.false_ne_true,
      partReads_of_not_pass hpass]
    exact .nil

theorem statesReads_call (fits : ∀ c ∈ children, c.isOrdinary) (place : Place) :
    StatesReads source (factsOf source .value place (.node .call role extent children))
      (readsVia isRecorded .value (.node .call role extent children)) := by
  change StatesReads source (((callSite? source _).map .called).toList ++
    factsOfAll source .value place children) _
  refine .silent_append (fun name => by simp [read]) (statesReads_all (by decide) fun c hc => ?_)
  exact statesReads_part ih (.inl rfl) rfl hc (fits c hc) rfl place

theorem statesReads_return (fits : ∀ c ∈ children, c.isOrdinary) (place : Place) :
    StatesReads source (factsOf source .value place (.node .returnStatement role extent children))
      (readsVia isRecorded .value (.node .returnStatement role extent children)) := by
  change StatesReads source (((withoutComments children).head?.map fun value =>
    Fact.returned (value.text source)).toList ++ factsOfAll source .value place children) _
  refine .silent_append (fun name => by simp [read]) (statesReads_all (by decide) fun c hc => ?_)
  exact statesReads_part ih (.inl rfl) rfl hc (fits c hc) rfl place

theorem statesReads_asPattern (fits : ∀ c ∈ children, c.isOrdinary) (place : Place) :
    StatesReads source (factsOf source .value place (.node .asPattern role extent children))
      (readsVia isRecorded .value (.node .asPattern role extent children)) := by
  change StatesReads source (aliasFacts source place children) _
  rw [aliasFacts_eq_flatMap, readsVia_node (by decide)]
  refine .flatMap fun c hc => ?_
  have hpass : isRecorded (.node .asPattern role extent children) c :=
    isRecorded_of_isOrdinary (.inl rfl) rfl (fits c hc)
  have hstance : stanceOf? .value (.node .asPattern role extent children) c =
      some (if c.isKind .asPatternTarget then .bound else .value) := rfl
  rw [partReads_of_stanceOf? hpass hstance]
  split
  · exact (ih c hc).bound (fits c hc) place
  · exact (ih c hc).value (.of_isOrdinary (fits c hc)) place

theorem statesReads_assignment (fits : ∀ c ∈ children, Fits .assignment c) (place : Place)
    (b : Binding) (target : TargetKind) :
    StatesReads source (factsInRole source .rightSide place .right children ++
        targetFacts source b target place children)
      (readsVia isRecorded .value (.node .assignment role extent children)) := by
  rw [factsInRole_eq_flatMap, targetFacts_eq_flatMap, readsVia_node (by decide)]
  refine .round (.refl _) (.flatMap fun c hc => ?_)
  obtain ⟨hnone, -, hpart⟩ := fits c hc
  have hordinary (hrole : c.hasRole .left ∨ c.hasRole .right) : c.isOrdinary := by
    rcases hpart with htype | h
    · rcases hrole with h | h <;> simp [hasRole_eq_false_of_hasRole h] at htype
    · exact h.1
  have hpass (hrole : c.hasRole .left ∨ c.hasRole .right) :
      isRecorded (.node .assignment role extent children) c :=
    isRecorded_of_isOrdinary (.inl rfl) rfl (hordinary hrole)
  have hstance : stanceOf? .value (.node .assignment role extent children) c =
      if c.hasRole .left then some .assigned else evaluatedIf (c.hasRole .right) := rfl
  -- A child is the target, or on the right, or a type that is not read.
  by_cases hleft : c.hasRole .left
  · have hright : c.hasRole .right = false := hasRole_eq_false_of_hasRole hleft (by decide)
    rw [if_pos hleft] at hstance
    rw [partReads_of_stanceOf? (hpass (.inl hleft)) hstance, hright, if_neg Bool.false_ne_true,
      if_pos hleft, List.nil_append]
    exact (ih c hc).assigned (hordinary (.inl hleft)) hnone place b target
  · rw [if_neg hleft] at hstance
    by_cases hright : c.hasRole .right
    · rw [hright] at hstance
      rw [partReads_of_stanceOf? (hpass (.inr hright)) hstance, if_pos hright, if_neg hleft,
        if_pos hright]
      exact (ih c hc).rightSide (hordinary (.inr hright)) hnone place b target
    · rw [Bool.not_eq_true] at hright
      rw [hright] at hstance
      rw [partReads_of_stanceOf?_eq_none hstance, hright, if_neg hleft, if_neg Bool.false_ne_true]
      exact .nil

theorem statesReads_augmentedAssignment (fits : ∀ c ∈ children, Fits .augmentedAssignment c)
    (place : Place) :
    StatesReads source (factsOf source .value place (.node .augmentedAssignment role extent children))
      (readsVia isRecorded .value (.node .augmentedAssignment role extent children)) := by
  let t : Tree := .node .augmentedAssignment role extent children
  let b := augmentedBindingOf source t
  let reads (c : Tree) : List Fact :=
    if c.hasRole .left && c.isKind .identifier then [read (c.text source)] else []
  have hreads : ((children.filter fun c => c.hasRole .left && c.isKind .identifier).map fun c =>
      read (c.text source)) = children.flatMap reads := by
    rw [flatMap_eq_of_filter fun c _ h => if_neg (Bool.eq_false_iff.1 h), List.map_eq_flatMap]
    exact List.flatMap_congr fun c hc => (if_pos (List.mem_filter.1 hc).2).symm
  change StatesReads source (factsInRole source .value place .right children ++ _ ++
    factsInRole source (.assigned b .augmented) place .left children) _
  rw [hreads, factsInRole_eq_flatMap, factsInRole_eq_flatMap, readsVia_node (by decide)]
  refine .round (List.flatMap_append_perm ..) (.flatMap fun c hc => ?_)
  obtain ⟨hnone, -, hordinary, -⟩ := fits c hc
  have hpass : isRecorded t c := isRecorded_of_isOrdinary (.inl rfl) rfl hordinary
  have hstance : stanceOf? .value t c =
      if c.hasRole .left then some (if c.isKind .identifier then .value else .assigned)
      else evaluatedIf (c.hasRole .right) := rfl
  -- A name on the left is read first and then bound; any other target is only bound.
  by_cases hleft : c.hasRole .left
  · have hright : c.hasRole .right = false := hasRole_eq_false_of_hasRole hleft (by decide)
    rw [if_pos hleft] at hstance
    rw [partReads_of_stanceOf? hpass hstance, hright, if_neg Bool.false_ne_true, if_pos hleft,
      List.nil_append]
    cases hname : c.isKind .identifier with
    | true =>
      have hreadsPart : reads c = [read (c.text source)] :=
        if_pos (by rw [hleft, hname]; rfl)
      rw [if_pos rfl, readsVia_of_isKind_identifier hname, if_pos rfl, hreadsPart]
      exact .of_identifier (readsNothing_assigned_identifier hname)
    | false =>
      have hreadsPart : reads c = [] := if_neg (by simp [hname])
      rw [if_neg Bool.false_ne_true, hreadsPart, List.nil_append]
      exact (ih c hc).assigned hordinary hnone place b .augmented
  · have hreadsPart : reads c = [] := if_neg (by simp [hleft])
    rw [if_neg hleft] at hstance
    rw [hreadsPart, if_neg hleft, List.append_nil, List.append_nil]
    by_cases hright : c.hasRole .right
    · rw [hright] at hstance
      rw [if_pos hright]
      exact statesReads_part ih (.inl rfl) rfl hc hordinary hstance place
    · rw [Bool.not_eq_true] at hright
      rw [hright] at hstance
      rw [partReads_of_stanceOf?_eq_none hstance, hright, if_neg Bool.false_ne_true]
      exact .nil

/-- A child of a loop is read once, in its role. -/
theorem statesReads_loopPart (hkind : kind = .forStatement ∨ kind = .forInClause)
    (hc : c ∈ children) (hpart : IsLoopPart c) (place : Place) :
    StatesReads source (factsAs source .bound place .left c ++ factsAs source .value place .right c ++
        factsAs source .value place .body c ++ factsAs source .value place .alternative c)
      (partReads isRecorded .value (.node kind role extent children) c) := by
  have hkinds : kind.isConfined = false ∧ kind.isDefinition = false := by
    rcases hkind with rfl | rfl <;> decide
  have hstance : stanceOf? .value (.node kind role extent children) c =
      if c.hasRole .left then some .bound
      else evaluatedIf (c.hasRole .right || c.hasRole .body || c.hasRole .alternative) := by
    rcases hkind with rfl | rfl <;> rfl
  have hvalue (h : stanceOf? .value (.node kind role extent children) c = some .value) :
      StatesReads source (factsOf source .value place c)
        (partReads isRecorded .value (.node kind role extent children) c) :=
    statesReads_part ih (.inl hkinds.1) hkinds.2 hc hpart.isOrdinary h place
  -- A child has one role, and of the four lists only the one for its role is not empty.
  by_cases hleft : c.hasRole .left
  · have hpass : isRecorded (.node kind role extent children) c :=
      isRecorded_of_isOrdinary (.inl hkinds.1) hkinds.2 hpart.isOrdinary
    rw [if_pos hleft] at hstance
    rw [factsAs_of_hasRole hleft, factsAs_of_hasRole_ne hleft (by decide),
      factsAs_of_hasRole_ne hleft (by decide), factsAs_of_hasRole_ne hleft (by decide),
      partReads_of_stanceOf? hpass hstance]
    simp only [List.append_nil]
    exact (ih c hc).bound hpart.isOrdinary place
  rw [if_neg hleft] at hstance
  rw [factsAs_of_not_hasRole hleft, List.nil_append]
  by_cases hright : c.hasRole .right
  · rw [factsAs_of_hasRole hright, factsAs_of_hasRole_ne hright (by decide),
      factsAs_of_hasRole_ne hright (by decide), List.append_nil, List.append_nil]
    exact hvalue (by rw [hstance, hright]; rfl)
  rw [factsAs_of_not_hasRole hright, List.nil_append]
  by_cases hbody : c.hasRole .body
  · rw [factsAs_of_hasRole hbody, factsAs_of_hasRole_ne hbody (by decide), List.append_nil]
    exact hvalue (by rw [hstance, hbody, Bool.or_true]; rfl)
  rw [factsAs_of_not_hasRole hbody, List.nil_append]
  by_cases halternative : c.hasRole .alternative
  · rw [factsAs_of_hasRole halternative]
    exact hvalue (by rw [hstance, halternative, Bool.or_true]; rfl)
  rw [factsAs_of_not_hasRole halternative, partReads_of_stanceOf?_eq_none]
  · exact .nil
  · simp [hstance, hright, hbody, halternative, evaluatedIf]

theorem statesReads_loop (hkind : kind = .forStatement ∨ kind = .forInClause)
    (fits : ∀ c ∈ children, Fits kind c) (place : Place) :
    StatesReads source (factsOf source .value place (.node kind role extent children))
      (readsVia isRecorded .value (.node kind role extent children)) := by
  let inner := if kind = .forStatement then place.branch else place
  have hname : kind ≠ .identifier := by
    rintro rfl
    rcases hkind with h | h <;> cases h
  rw [factsOf_value_of_isLoop hkind rfl, readsVia_node hname]
  simp only [factsInRole_eq_flatMap]
  have hheader := List.flatMap_append_perm children (factsAs source .bound inner .left)
    (factsAs source .value inner .right)
  have hbody := (hheader.append_right (children.flatMap (factsAs source .value inner .body))).trans
    (List.flatMap_append_perm ..)
  refine .round hbody (.flatMap fun c hc => ?_)
  exact statesReads_loopPart ih hkind hc (isLoopPart_of_fits hkind (fits c hc)) inner

/-! ### Decorators and definitions -/

omit ih in
theorem readsVia_of_isTrivia (h : Shaped c) (htrivia : c.isTrivia) : readsVia pass s c = [] := by
  cases h with
  | @node kind role extent children _ complete _ =>
    have hkind : kind = .comment ∨ kind = .lineContinuation := by
      cases kind <;> first | exact .inl rfl | exact .inr rfl | cases htrivia
    rcases hkind with rfl | rfl
    · obtain rfl : children = [] := complete
      rfl
    · obtain rfl : children = [] := complete
      rfl

omit ih in
theorem readsVia_decorator (shaped : ∀ c ∈ children, Shaped c) :
    readsVia isRecorded .value (.node .decorator role extent children) =
      (children.filter (!·.isTrivia)).flatMap
        (partReads isRecorded .value (.node .decorator role extent children)) := by
  rw [readsVia_node (by decide)]
  refine flatMap_eq_of_filter fun c hc htrivia => ?_
  have hstance : stanceOf? .value (.node .decorator role extent children) c = some .value := rfl
  rw [partReads, hstance]
  exact ite_eq_right_iff.2 fun _ => readsVia_of_isTrivia (shaped c hc) (by simpa using htrivia)

/-- A decorator has one expression, and that is read unless a joined line comes before it. -/
theorem statesReads_decorator (fits : ∀ c ∈ children, Fits .decorator c)
    (complete : IsComplete .decorator children) (shaped : ∀ c ∈ children, Shaped c)
    (place : Place) :
    StatesReads source (factsOf source .decorator place (.node .decorator role extent children))
      (readsVia isRecorded .value (.node .decorator role extent children)) := by
  let t : Tree := .node .decorator role extent children
  rw [readsVia_decorator shaped]
  change StatesReads source (firstFacts source place children) _
  rw [firstFacts_eq]
  cases hfirst : (withoutComments children).head? with
  | none =>
    rw [filter_isTrivia_eq_nil hfirst]
    exact .nil
  | some x =>
    obtain ⟨hx, hcomment⟩ := List.mem_filter.1 (List.mem_of_head? hfirst)
    have hxvalue := (ih x hx).value (.of_isOrdinary (fits x hx).1) place
    change StatesReads source (factsOf source .value place x) _
    by_cases hjoined : x.isKind .lineContinuation
    · have hnothing : (children.filter (!·.isTrivia)).flatMap (partReads isRecorded .value t) = [] := by
        refine List.flatMap_eq_nil_iff.2 fun c _ => partReads_of_not_pass ?_
        simp [t, isRecorded, isJoined_of_first hfirst, hjoined]
      rw [readsVia_of_isTrivia (shaped x hx) (isTrivia_of_isKind_lineContinuation hjoined)] at hxvalue
      rw [hnothing]
      exact hxvalue
    · have hrecorded : isRecorded t x := isRecorded_of_first hfirst hjoined (fits x hx).1
      have hstance : stanceOf? .value t x = some .value := rfl
      rw [filter_isTrivia_eq_singleton complete hx (by simpa using hcomment) (by simpa using hjoined),
        List.flatMap_singleton, partReads_of_stanceOf? hrecorded hstance]
      exact hxvalue

theorem statesReads_decoratedDefinition (fits : ∀ c ∈ children, Fits .decoratedDefinition c)
    (place : Place) :
    StatesReads source (factsOf source .value place (.node .decoratedDefinition role extent children))
      (readsVia isRecorded .value (.node .decoratedDefinition role extent children)) := by
  let t : Tree := .node .decoratedDefinition role extent children
  let decorators := decoratorsOf source t
  change StatesReads source (factsOfAll source .decorator place children ++
    factsInRole source (.definition decorators) place .definition children) _
  rw [factsOfAll_eq_flatMap, factsInRole_eq_flatMap, readsVia_node (by decide)]
  refine .round (.refl _) (.flatMap fun c hc => ?_)
  have hnotDecorator (hordinary : c.isOrdinary) : c.isKind .decorator = false :=
    (IsReadable.of_isOrdinary hordinary).isKind_eq_false rfl (by decide)
  have hstance : stanceOf? .value t c =
      evaluatedIf (c.hasRole .definition || c.isKind .decorator) := rfl
  rcases fits c hc with ⟨hordinary, ⟨hrole, hdefinition⟩ | ⟨hrole, hinert⟩⟩ | ⟨hrole, hkind, -⟩
  · have hpass : isRecorded t c := isRecorded_of_isOrdinary (.inl rfl) rfl hordinary
    rw [hrole, Bool.true_or] at hstance
    rw [factsOf_decorator_eq_nil (hnotDecorator hordinary), List.nil_append, if_pos hrole,
      partReads_of_stanceOf? hpass hstance]
    exact (ih c hc).definition hdefinition place decorators
  · rw [hrole, hnotDecorator hordinary] at hstance
    rw [factsOf_decorator_eq_nil (hnotDecorator hordinary), List.nil_append, hrole,
      if_neg Bool.false_ne_true, partReads_of_stanceOf?_eq_none hstance]
    exact .nil
  · have hno : c.hasRole .definition = false := by simp [hasRole, hrole]
    rw [hno, hkind] at hstance
    rw [hno, if_neg Bool.false_ne_true, List.append_nil,
      partReads_of_stanceOf? (isRecorded_of_isKind_decorator hrole hkind) hstance]
    exact (ih c hc).decorator hkind place

omit ih in
theorem stanceOf?_definition (hkind : kind.isDefinition) (c : Tree) :
    stanceOf? .value (.node kind role extent children) c =
      evaluatedIf (c.hasRole .body || c.hasRole .superclasses || c.isKind .parameters) := by
  cases kind <;> first | rfl | cases hkind

omit ih in
/-- Of the ordinary children but the body, a base class is evaluated, and nothing else is. -/
theorem statesReads_before_ordinary (hkind : kind.isDefinition) (hordinary : c.isOrdinary)
    (hbody : c.hasRole .body = false) (hwalked : ReadsWalked source c) (place : Place) :
    StatesReads source (factsOf source .defaults place c ++
        if c.hasRole .superclasses then factsOf source .value place c else [])
      (partReads isRecorded .value (.node kind role extent children) c) := by
  have hconfined {kind' : Kind} (h : kind'.isConfined) : c.isKind kind' = false :=
    isKind_eq_false_of_not_isConfined (isConfined_eq_false_of_isOrdinary hordinary) h
  have hdefaults : factsOf source .defaults place c = [] := by
    refine factsOf_defaults_eq_nil (hconfined rfl) ?_
    rw [hasDefault, hconfined rfl, hconfined rfl, Bool.or_false]
  have hstance : stanceOf? .value (.node kind role extent children) c =
      evaluatedIf (c.hasRole .superclasses) := by
    rw [stanceOf?_definition hkind, hbody, hconfined rfl, Bool.false_or, Bool.or_false]
  rw [hdefaults, List.nil_append]
  by_cases hrole : c.hasRole .superclasses
  · have hpass : isRecorded (.node kind role extent children) c :=
      isRecorded_of_definition hkind hbody (hasRole_eq_false_of_hasRole hrole (by decide))
        (hasRole_eq_false_of_hasRole hrole (by decide)) (hconfined rfl) (hconfined rfl)
    rw [hrole] at hstance
    rw [if_pos hrole, partReads_of_stanceOf? hpass hstance]
    exact hwalked.value (.of_isOrdinary hordinary) place
  · rw [Bool.not_eq_true] at hrole
    rw [hrole] at hstance
    rw [hrole, if_neg Bool.false_ne_true, partReads_of_stanceOf?_eq_none hstance]
    exact .nil

omit ih in
/-- A child of a definition is read for what is evaluated where the definition stands. -/
theorem statesReads_before_part (hkind : kind.isDefinition) (hc : Fits .functionDefinition c)
    (hwalked : ReadsWalked source c) (place : Place) :
    StatesReads source (factsOf source .defaults place c ++
        if c.hasRole .superclasses then factsOf source .value place c else [])
      (partReads isRecorded .value (.node kind role extent children) c) := by
  have hstance : stanceOf? .value (.node kind role extent children) c = _ :=
    stanceOf?_definition hkind c
  rcases hc with ⟨hbody, hblock⟩ | ⟨hordinary, -, hbody, -⟩ | ⟨-, hpart⟩
  · rw [factsOf_defaults_eq_nil_of_isKind hblock (by decide),
      hasRole_eq_false_of_hasRole hbody (by decide), if_neg Bool.false_ne_true,
      partReads_of_not_pass (not_isRecorded_of_definition hkind (.inl hbody))]
    exact .nil
  · exact statesReads_before_ordinary hkind hordinary hbody hwalked place
  -- What is left are the parameters, the base classes, the return type and the type parameters.
  rcases hpart with ⟨hrole, hlist⟩ | ⟨hrole, hlist⟩ | ⟨hrole, htype⟩ | ⟨hrole, hbrackets⟩
  · rw [hlist, Bool.or_true] at hstance
    rw [hasRole_eq_false_of_hasRole hrole (by decide), if_neg Bool.false_ne_true, List.append_nil,
      partReads_of_stanceOf? (isRecorded_of_hasRole hkind hrole hlist (by decide) (by decide)) hstance]
    exact hwalked.defaults (.inl hlist) place
  · have hreadable : IsReadable c := by
      refine .inl ?_
      rw [isKind, beq_iff_eq] at hlist
      rw [hlist]
      rfl
    rw [hrole, Bool.or_true, Bool.true_or] at hstance
    rw [factsOf_defaults_eq_nil_of_isKind hlist (by decide), if_pos hrole, List.nil_append,
      partReads_of_stanceOf? (isRecorded_of_hasRole hkind hrole hlist (by decide) (by decide)) hstance]
    exact hwalked.value hreadable place
  · rw [factsOf_defaults_eq_nil_of_isKind htype (by decide),
      hasRole_eq_false_of_hasRole hrole (by decide), if_neg Bool.false_ne_true,
      partReads_of_not_pass (not_isRecorded_of_definition hkind (.inr (.inl hrole)))]
    exact .nil
  · have hno : c.hasRole .superclasses = false := by simp [hasRole, hrole]
    rw [factsOf_defaults_eq_nil_of_isKind hbrackets (by decide), hno, if_neg Bool.false_ne_true,
      partReads_of_not_pass (not_isRecorded_of_definition hkind (.inr (.inr hbrackets)))]
    exact .nil

theorem statesReads_definition (hkind : kind.isDefinition)
    (fits : ∀ c ∈ children, Fits .functionDefinition c)
    (complete : ∃ c ∈ children, c.hasRole .name) (place : Place) (decorators : List String) :
    StatesReads source (factsOf source (.definition decorators) place
        (.node kind role extent children))
      (readsVia isRecorded .value (.node kind role extent children)) := by
  let t : Tree := .node kind role extent children
  have hnamed : ∃ c ∈ t.children, c.hasRole .name := complete
  obtain ⟨header, hheader⟩ : ∃ header, headerOf? source place.owner decorators t = some header :=
    (exists_headerOf hnamed place.owner decorators).imp fun _ h => h.1
  have hname : kind ≠ .identifier := by
    rintro rfl
    cases hkind
  let before := factsOfAll source .defaults place children ++
    factsInRole source .value place .superclasses children
  let body := factsInRole source .body (place.inside (some header)) .body children
  have hfacts : factsOf source (.definition decorators) place t =
      before ++ [.defined header body] := factsOf_definition hheader
  have hbefore : StatesReads source before (readsVia isRecorded .value t) := by
    change StatesReads source (factsOfAll source .defaults place children ++
      factsInRole source .value place .superclasses children) _
    rw [factsOfAll_eq_flatMap, factsInRole_eq_flatMap, readsVia_node hname]
    refine .round (.refl _) (.flatMap fun c hc => ?_)
    exact statesReads_before_part hkind (fits c hc) (ih c hc) place
  have hdefined : ReadsNothing [.defined header body] := fun name => by simp [read]
  rw [hfacts, ← List.append_nil (readsVia isRecorded .value (.node kind role extent children))]
  exact hbefore.append (.of_readsNothing hdefined)

/-- The parameters of a definition are read for their default values. -/
theorem statesReads_parameters (fits : ∀ c ∈ children, Fits .parameters c) (place : Place) :
    StatesReads source (factsOf source .defaults place (.node .parameters role extent children))
      (readsVia isRecorded .value (.node .parameters role extent children)) := by
  change StatesReads source (factsOfAll source .defaults place children) _
  refine statesReads_all (by decide) fun c hc => ?_
  obtain ⟨-, hlist, htype, hreturn, -⟩ := fits c hc
  have hstance : stanceOf? .value (.node .parameters role extent children) c =
      evaluatedIf c.hasDefault := rfl
  cases hdefault : c.hasDefault with
  | true =>
    rw [hdefault] at hstance
    rw [partReads_of_stanceOf? (isRecorded_of_hasDefault hdefault htype hreturn) hstance]
    exact (ih c hc).defaults (.inr hdefault) place
  | false =>
    rw [hdefault] at hstance
    rw [factsOf_defaults_eq_nil hlist hdefault, partReads_of_stanceOf?_eq_none hstance]
    exact .nil

theorem statesReads_defaultParameter
    (hkind : kind = .defaultParameter ∨ kind = .typedDefaultParameter)
    (fits : ∀ c ∈ children, Fits kind c) (place : Place) :
    StatesReads source (factsOf source .defaults place (.node kind role extent children))
      (readsVia isRecorded .value (.node kind role extent children)) := by
  have hfacts : factsOf source .defaults place (.node kind role extent children) =
      factsInRole source .value place .value children := by
    rcases hkind with rfl | rfl <;> rfl
  have hname : kind ≠ .identifier := by
    rintro rfl
    rcases hkind with h | h <;> cases h
  rw [hfacts]
  refine statesReads_inRole hname fun c hc => ?_
  have hstance : stanceOf? .value (.node kind role extent children) c =
      evaluatedIf (c.hasRole .value) := by
    rcases hkind with rfl | rfl <;> rfl
  by_cases hvalue : c.hasRole .value
  · have hordinary : c.isOrdinary := by
      rcases hkind with rfl | rfl <;> exact (fits c hc).2 hvalue
    rw [hvalue] at hstance
    rw [if_pos hvalue, partReads_of_stanceOf? (isRecorded_of_hasRole_value hkind hvalue hordinary)
      hstance]
    exact (ih c hc).value (.of_isOrdinary hordinary) place
  · rw [Bool.not_eq_true] at hvalue
    rw [hvalue] at hstance
    rw [hvalue, if_neg Bool.false_ne_true, partReads_of_stanceOf?_eq_none hstance]
    exact .nil

/-! ### Targets -/

omit ih in
/-- The parts of a target are targets of the same sort. -/
theorem statesReads_sequence (hkind : kind.isPlain) (hat : s.at kind = s) (hs : s ≠ .value)
    (fits : ∀ c ∈ children, Fits kind c)
    (h : ∀ c ∈ children, c.isOrdinary →
      StatesReads source (factsOf source reading place c) (readsVia isRecorded s c)) :
    StatesReads source (factsOfAll source reading place children)
      (readsVia isRecorded s (.node kind role extent children)) := by
  have hname : kind ≠ .identifier := by
    rintro rfl
    cases hkind
  refine statesReads_all hname fun c hc => ?_
  have hordinary : c.isOrdinary := isOrdinary_of_fits hkind (fits c hc)
  have hstance : stanceOf? s (.node kind role extent children) c = some s := by
    rw [stanceOf?, kind?, Option.bind_some, hat]
    cases s <;> first | rfl | contradiction
  rw [partReads_of_stanceOf? (isRecorded_of_isPlain hkind hordinary) hstance]
  exact h c hc hordinary

omit ih in
/-- A node that is no target is read as it is where it is evaluated. -/
theorem readsVia_of_at_eq_value (hname : kind ≠ .identifier) (h : s.at kind = .value) :
    readsVia pass s (.node kind role extent children) =
      readsVia pass .value (.node kind role extent children) := by
  rw [readsVia_node hname, readsVia_node hname]
  refine List.flatMap_congr fun c _ => ?_
  have hstance : stanceOf? s (.node kind role extent children) c =
      stanceOf? .value (.node kind role extent children) c := by
    rw [stanceOf?, kind?, Option.bind_some, h]
    rfl
  rw [partReads, partReads, hstance]

theorem statesReads_bound (fits : ∀ c ∈ children, Fits kind c)
    (hvalue : StatesReads source (factsOf source .value place (.node kind role extent children))
      (readsVia isRecorded .value (.node kind role extent children))) :
    StatesReads source (factsOf source .bound place (.node kind role extent children))
      (readsVia isRecorded .bound (.node kind role extent children)) := by
  have hall (hkind : kind.isPlain) (hat : Stance.bound.at kind = .bound) :
      StatesReads source (factsOfAll source .bound place children)
        (readsVia isRecorded .bound (.node kind role extent children)) :=
    statesReads_sequence hkind hat (by decide) fits fun c hc hordinary =>
      (ih c hc).bound hordinary place
  by_cases hsequence : isSequence kind
  · rw [factsOf_bound_of_isSequence hsequence]
    refine hall (isPlain_of_isSequence hsequence) ?_
    rw [Stance.at, hsequence, Bool.or_true]
    rfl
  by_cases htarget : kind = .asPatternTarget
  · subst htarget
    cases children with
    | nil => exact .of_readsNothing fun name => by simp [factsOf, Reading.at, read, write]
    | cons c cs => exact hall rfl rfl
  by_cases hname : kind = .identifier
  · subst hname
    exact .of_readsNothing fun name => by simp [factsOf, Reading.at, read, write]
  rw [factsOf_bound_eq_value hsequence htarget hname,
    readsVia_of_at_eq_value hname (by simp [Stance.at, hsequence, htarget, hname])]
  exact hvalue

theorem statesReads_rightSide (fits : ∀ c ∈ children, Fits kind c)
    (hnone : (Syntax.Tree.node kind role extent children).HasNoDefinition) (b : Binding)
    (target : TargetKind)
    (hvalue : StatesReads source (factsOf source .value place (.node kind role extent children))
      (readsVia isRecorded .value (.node kind role extent children))) :
    StatesReads source
      (factsOf source .rightSide place (.node kind role extent children) ++
        factsOf source (.chain b target) place (.node kind role extent children))
      (readsVia isRecorded .value (.node kind role extent children)) := by
  by_cases hkind : kind = .assignment
  · subst hkind
    exact statesReads_assignment ih fits place b target
  · have hother : (Syntax.Tree.node kind role extent children).isKind .assignment = false := by
      rwa [isKind_node, beq_eq_false_iff_ne]
    rwa [factsOf_rightSide hother hnone, factsOf_chain hother, List.append_nil]

theorem statesReads_assigned (fits : ∀ c ∈ children, Fits kind c)
    (hnone : (Syntax.Tree.node kind role extent children).HasNoDefinition) (b : Binding)
    (target : TargetKind)
    (hvalue : StatesReads source (factsOf source .value place (.node kind role extent children))
      (readsVia isRecorded .value (.node kind role extent children))) :
    StatesReads source (factsOf source (.assigned b target) place (.node kind role extent children))
      (readsVia isRecorded .assigned (.node kind role extent children)) := by
  obtain ⟨hdefinition, hparts⟩ := avoids_node.1 hnone
  have hall (hkind : kind.isPlain) (hat : Stance.assigned.at kind = .assigned)
      (target' : TargetKind) :
      StatesReads source (factsOfAll source (.assigned b target') place children)
        (readsVia isRecorded .assigned (.node kind role extent children)) :=
    statesReads_sequence hkind hat (by decide) fits fun c hc hordinary =>
      (ih c hc).assigned hordinary (hparts c hc) place b target'
  -- Sequences and stars hand the reading on, a name is not read, and all else is evaluated.
  by_cases hsequence : isSequence kind
  · obtain ⟨target', hfacts⟩ := exists_factsOf_assigned hsequence b target
    rw [hfacts]
    refine hall (isPlain_of_isSequence hsequence) ?_ target'
    rw [Stance.at, hsequence, Bool.or_true]
    rfl
  by_cases hsplat : kind = .listSplat
  · subst hsplat
    exact hall rfl rfl .starred
  by_cases hname : kind = .identifier
  · subst hname
    exact .of_readsNothing (readsNothing_assigned_identifier rfl)
  rw [readsVia_of_at_eq_value hname (by simp [Stance.at, hsequence, hsplat, hname])]
  by_cases hmember : kind = .memberAccess
  · subst hmember
    exact .silent_append (fun name => by simp [read]) hvalue
  rwa [factsOf_assigned_eq_value hdefinition hsequence hsplat hname hmember]

/-! ### Whole trees -/

theorem statesReads_value (fits : ∀ c ∈ children, Fits kind c)
    (complete : IsComplete kind children)
    (hreadable : IsReadable (.node kind role extent children)) (place : Place) :
    StatesReads source (factsOf source .value place (.node kind role extent children))
      (readsVia isRecorded .value (.node kind role extent children)) := by
  by_cases htransparent : isTransparent kind
  · exact statesReads_transparent ih fits htransparent hreadable place
  -- For the kinds whose children are not evaluated.
  have hsilent (hname : kind ≠ .identifier) (hnone : ∀ c, evaluatedPart? kind c = none)
      (hfacts : ReadsNothing (factsOf source .value place (.node kind role extent children))) :
      StatesReads source (factsOf source .value place (.node kind role extent children))
        (readsVia isRecorded .value (.node kind role extent children)) := by
    have hparts : ∀ c ∈ children,
        partReads isRecorded .value (.node kind role extent children) c = [] := fun c _ =>
      partReads_of_stanceOf?_eq_none (hnone c)
    rw [readsVia_node hname, List.flatMap_eq_nil_iff.2 hparts]
    exact .of_readsNothing hfacts
  cases kind
  case comment | globalStatement | nonlocalStatement =>
    exact hsilent (by decide) (fun _ => rfl) fun _ => List.not_mem_nil
  case identifier =>
    exact StatesReads.of_identifier (c := .node .identifier role extent children)
      fun _ => List.not_mem_nil
  case importStatement | importFromStatement | futureImportStatement =>
    refine hsilent (by decide) (fun _ => rfl) fun name => ?_
    change read name ∉ (importsOf source _ place.conditional).map .imported
    simp [read]
  case decoratedDefinition => exact statesReads_decoratedDefinition ih fits place
  case functionDefinition | classDefinition =>
    exact statesReads_definition ih rfl fits complete place []
  case call => exact statesReads_call ih fits place
  case memberAccess =>
    exact statesReads_value_inRole ih (.inl rfl) rfl (by decide) (fun c hc _ => (fits c hc).1)
      (fun _ => rfl) place
  case keywordArgument =>
    exact statesReads_value_inRole ih (.inl rfl) rfl (by decide) (fun c hc _ => (fits c hc).1)
      (fun _ => rfl) place
  case namedExpression =>
    refine .silent_append (fun name => by simp [read, write]) (statesReads_value_inRole ih (.inl rfl)
      rfl (by decide) (fun c hc _ => (fits c hc).1) (fun _ => rfl) place)
  case lambda => exact statesReads_lambda ih fits place
  case asPattern => exact statesReads_asPattern ih fits place
  case assignment => exact statesReads_assignment ih fits place _ _
  case augmentedAssignment => exact statesReads_augmentedAssignment ih fits place
  case returnStatement => exact statesReads_return ih fits place
  case forStatement => exact statesReads_loop ih (.inl rfl) fits place
  case forInClause => exact statesReads_loop ih (.inr rfl) fits place
  all_goals exact absurd rfl htransparent

theorem readsWalked_node (fits : ∀ c ∈ children, Fits kind c) (complete : IsComplete kind children)
    (shaped : ∀ c ∈ children, Shaped c) : ReadsWalked source (.node kind role extent children) := by
  have hvalue (hreadable : IsReadable (.node kind role extent children)) (place : Place) :
      StatesReads source (factsOf source .value place _) _ :=
    statesReads_value ih fits complete hreadable place
  refine ⟨hvalue, fun hordinary place => ?_, fun hordinary hnone place b target => ?_,
    fun hordinary hnone place b target => ?_, fun hkind place => ?_,
    fun hdefinition place decorators => ?_, fun hkind place => ?_, fun hkind place => ?_⟩
  · exact statesReads_bound ih fits (hvalue (.of_isOrdinary hordinary) place)
  · exact statesReads_rightSide ih fits hnone b target (hvalue (.of_isOrdinary hordinary) place)
  · exact statesReads_assigned ih fits hnone b target (hvalue (.of_isOrdinary hordinary) place)
  · rw [isKind_node, beq_iff_eq] at hkind
    subst hkind
    exact statesReads_decorator ih fits complete shaped place
  · rw [isDefinition_node] at hdefinition
    cases kind
    case functionDefinition | classDefinition =>
      exact statesReads_definition ih rfl fits complete place decorators
    all_goals cases hdefinition
  · rw [hasDefault, isKind_node, isKind_node, isKind_node] at hkind
    cases kind
    case parameters => exact statesReads_parameters ih fits place
    case defaultParameter => exact statesReads_defaultParameter ih (.inl rfl) fits place
    case typedDefaultParameter => exact statesReads_defaultParameter ih (.inr rfl) fits place
    all_goals exact absurd hkind (by decide)
  · rw [isKind_node, beq_iff_eq] at hkind
    subst hkind
    exact hvalue (.inl rfl) place

end Nodes

theorem ReadsWalked.of_shaped {t : Tree} (h : Shaped t) : ReadsWalked source t := by
  induction h with
  | node fits complete shaped ih => exact readsWalked_node ih fits complete shaped

/-! ### Objects -/

/-- The object records as read what is evaluated on behalf of its owner. -/
def ReadsItsOwn (source : List Char) (owner : Tree) (o : CodeObject) : Prop :=
  ∀ name, ⟨name, .read⟩ ∈ o.references ↔ ∃ t ∈ ownReads isRecorded owner, t.text source = name

/-- The body of a definition states what it reads. -/
theorem statesReads_body {d : Tree} (h : Shaped d) (hdefinition : d.isDefinition) (place : Place) :
    StatesReads source (factsInRole source .body place .body d.children)
      (ownReads isRecorded d) := by
  rw [ownReads, regionOf, if_pos hdefinition, factsInRole_eq_flatMap,
    flatMap_eq_of_filter fun c _ hrole => if_neg (Bool.eq_false_iff.1 hrole)]
  refine .flatMap fun c hc => ?_
  obtain ⟨hc, hrole⟩ := List.mem_filter.1 hc
  rw [if_pos hrole]
  cases h with
  | node fits _ shaped =>
    refine (ReadsWalked.of_shaped (shaped c hc)).body ?_ place
    exact isKind_block_of_fits hdefinition (fits c hc) hrole

/-- Every object of a model records as read what is evaluated on behalf of its owner. -/
theorem readsItsOwn_modelOf {tree : Tree} (file : String) (h : IsStatement tree)
    (hmodule : tree.isKind .module) :
    List.Forall₂ (ReadsItsOwn source) (owners tree) (modelOf file source tree).objects.toList := by
  refine forall₂_owners_modelOf file h hmodule (fun _ _ _ ho => ho) ?_
    fun entry d o hshaped hentry ho => ?_
  · have hfacts : StatesReads source (factsOf source .value .top tree)
        (readsVia isRecorded .value tree) :=
      (ReadsWalked.of_shaped h.shaped).value (.of_isOrdinary h.isOrdinary) .top
    intro name
    rw [factsOf_module hmodule] at hfacts
    change _ ∈ referencesIn _ ↔ _
    rw [mem_referencesIn, ownReads, regionOf, not_isDefinition_of_isKind_module hmodule,
      if_neg Bool.false_ne_true, List.flatMap_singleton, ← hfacts name]
    exact Iff.rfl
  · intro name
    obtain ⟨place, decorators, -, hbody⟩ := hentry.origin
    rw [ho.references, mem_referencesIn, hbody]
    exact statesReads_body hshaped hentry.isDefinition _ name

end SourceCorpus.Extraction
