import SourceCorpus.Proofs.Extraction.Reach

/-!
The facts of a node in terms of those of its children, for each of the ways in which it is read.
-/

namespace SourceCorpus.Extraction

open Syntax Tree

variable {source : List Char} {place : Place} {t : Tree}

/-! ### Rows of children -/

theorem factsOfAll_eq_flatMap (reading : Reading) (place : Place) (ts : List Tree) :
    factsOfAll source reading place ts = ts.flatMap (factsOf source reading place) := by
  induction ts with
  | nil => rfl
  | cons t ts ih => rw [factsOfAll, ih, List.flatMap_cons]

theorem factsInRole_eq_flatMap (reading : Reading) (place : Place) (role : Role) (ts : List Tree) :
    factsInRole source reading place role ts =
      ts.flatMap fun t => if t.hasRole role then factsOf source reading place t else [] := by
  induction ts with
  | nil => rfl
  | cons t ts ih => rw [factsInRole, ih, List.flatMap_cons]

theorem targetFacts_eq_flatMap (b : Binding) (target : TargetKind) (place : Place)
    (ts : List Tree) :
    targetFacts source b target place ts = ts.flatMap fun t =>
      if t.hasRole .left then factsOf source (.assigned b target) place t
      else if t.hasRole .right then factsOf source (.chain b target) place t
      else [] := by
  induction ts with
  | nil => rfl
  | cons t ts ih => rw [targetFacts, ih, List.flatMap_cons]

theorem aliasFacts_eq_flatMap (place : Place) (ts : List Tree) :
    aliasFacts source place ts = ts.flatMap fun t =>
      factsOf source (if t.isKind .asPatternTarget then .bound else .value) place t := by
  induction ts with
  | nil => rfl
  | cons t ts ih => rw [aliasFacts, ih, List.flatMap_cons]

theorem firstFacts_eq (place : Place) (ts : List Tree) :
    firstFacts source place ts =
      ((withoutComments ts).head?.map (factsOf source .value place)).getD [] := by
  induction ts with
  | nil => rfl
  | cons t ts ih =>
    rw [firstFacts, withoutComments, List.filter_cons]
    by_cases hcomment : t.isKind .comment
    · rw [if_pos hcomment, ih, hcomment]
      rfl
    · rw [if_neg hcomment]
      simp [hcomment]

def factsAs (source : List Char) (reading : Reading) (place : Place) (role : Role) (c : Tree) :
    List Fact :=
  if c.hasRole role then factsOf source reading place c else []

section

variable {c : Tree} {reading : Reading} {as as' : Role}

theorem factsAs_of_hasRole (h : c.hasRole as) :
    factsAs source reading place as c = factsOf source reading place c := if_pos h

theorem factsAs_of_not_hasRole (h : ¬c.hasRole as) : factsAs source reading place as c = [] :=
  if_neg h

theorem factsAs_of_hasRole_ne (h : c.hasRole as) (hne : as ≠ as') :
    factsAs source reading place as' c = [] := by
  refine factsAs_of_not_hasRole ?_
  rw [hasRole_eq_false_of_hasRole h hne]
  exact Bool.false_ne_true

end

section Nodes

variable {kind : Kind} {role : Option Role} {extent : Extent} {children : List Tree}

/-! ### Evaluation -/

/-- Nodes of the kind are evaluated by evaluating their children in a row. -/
def isTransparent : Kind → Bool
  | .comment | .globalStatement | .nonlocalStatement | .decoratedDefinition | .importStatement
  | .importFromStatement | .futureImportStatement | .call | .identifier | .memberAccess
  | .keywordArgument | .lambda | .namedExpression | .asPattern | .assignment
  | .augmentedAssignment | .returnStatement | .forStatement | .forInClause | .functionDefinition
  | .classDefinition => false
  | _ => true

theorem factsOf_value_of_isTransparent (h : isTransparent kind) :
    factsOf source .value place (.node kind role extent children) =
      factsOfAll source .value (if isCompound kind then place.branch else place) children := by
  cases kind <;> first | rfl | cases h

/-- The header of a loop is read first, then its body, and the alternative last. -/
theorem factsOf_value_of_isLoop {inner : Place} (hkind : kind = .forStatement ∨ kind = .forInClause)
    (hinner : inner = if kind = .forStatement then place.branch else place) :
    factsOf source .value place (.node kind role extent children) =
      factsInRole source .bound inner .left children ++
        factsInRole source .value inner .right children ++
        factsInRole source .value inner .body children ++
        factsInRole source .value inner .alternative children := by
  subst hinner
  rcases hkind with rfl | rfl <;> rfl

theorem factsOf_decorator_eq_nil {t : Tree} (h : t.isKind .decorator = false) :
    factsOf source .decorator place t = [] := by
  cases t with
  | node kind role extent children =>
    have hkind : kind ≠ .decorator := by simpa [isKind, kind?] using h
    exact if_neg hkind
  | error => rfl
  | missing => rfl

/-! ### Definitions -/

/-- What is evaluated where a definition stands comes before the definition. -/
theorem factsOf_definition {header : Header} {decorators : List String}
    (hheader : headerOf? source place.owner decorators (.node kind role extent children) =
      some header) :
    factsOf source (.definition decorators) place (.node kind role extent children) =
      factsOfAll source .defaults place children ++
        factsInRole source .value place .superclasses children ++
        [.defined header
          (factsInRole source .body (place.inside (some header)) .body children)] := by
  change definitionFacts (headerOf? source place.owner decorators (.node kind role extent children)) _
    (factsInRole source .body (place.inside (headerOf? source place.owner decorators
      (.node kind role extent children))) .body children) = _
  rw [hheader]
  rfl

theorem factsOf_defaults_eq_nil {t : Tree} (hparameters : t.isKind .parameters = false)
    (hdefault : t.hasDefault = false) : factsOf source .defaults place t = [] := by
  cases t with
  | node kind role extent children =>
    rw [hasDefault, Bool.or_eq_false_iff] at hdefault
    rw [isKind_node, beq_eq_false_iff_ne] at hparameters hdefault
    rw [isKind_node, beq_eq_false_iff_ne] at hdefault
    obtain ⟨hdefault, htyped⟩ := hdefault
    cases kind <;> first | rfl | contradiction
  | error => rfl
  | missing => rfl

theorem factsOf_defaults_eq_nil_of_isKind {c : Tree} {kind' : Kind} (h : c.isKind kind')
    (hne : kind' ≠ .parameters ∧ kind' ≠ .defaultParameter ∧ kind' ≠ .typedDefaultParameter) :
    factsOf source .defaults place c = [] := by
  rw [isKind, beq_iff_eq] at h
  refine factsOf_defaults_eq_nil ?_ ?_ <;> simp [isKind, hasDefault, h, hne]

/-! ### Targets -/

def isSequence : Kind → Bool
  | .patternList | .tuplePattern | .listPattern | .listSplatPattern | .tuple | .list
  | .parenthesizedExpression => true
  | _ => false

theorem factsOf_bound_of_isSequence (h : isSequence kind) :
    factsOf source .bound place (.node kind role extent children) =
      factsOfAll source .bound place children := by
  cases kind <;> first | rfl | cases h

/-- What is no target is evaluated where one is bound. -/
theorem factsOf_bound_eq_value (hsequence : ¬isSequence kind) (htarget : kind ≠ .asPatternTarget)
    (hname : kind ≠ .identifier) :
    factsOf source .bound place (.node kind role extent children) =
      factsOf source .value place (.node kind role extent children) := by
  cases kind <;> first | rfl | contradiction

theorem exists_factsOf_assigned (h : isSequence kind) (b : Binding) (target : TargetKind) :
    ∃ element, factsOf source (.assigned b target) place (.node kind role extent children) =
      factsOfAll source (.assigned b element) place children := by
  cases kind <;> first | exact ⟨_, rfl⟩ | cases h

theorem factsOf_assigned_eq_value (hdefinition : kind.isDefinition = false)
    (hsequence : ¬isSequence kind) (hstar : kind ≠ .listSplat) (hname : kind ≠ .identifier)
    (hmember : kind ≠ .memberAccess) (b : Binding) (target : TargetKind) :
    factsOf source (.assigned b target) place (.node kind role extent children) =
      factsOf source .value place (.node kind role extent children) := by
  cases kind <;> first | rfl | contradiction

end Nodes

/-- What is no assignment is evaluated on the right of one, and ends the chain. -/
theorem factsOf_rightSide (hkind : t.isKind .assignment = false) (hnone : t.HasNoDefinition) :
    factsOf source .rightSide place t = factsOf source .value place t := by
  cases t with
  | node kind role extent children =>
    have hdefinition : kind.isDefinition = false := (avoids_node.1 hnone).1
    cases kind <;> first | rfl | contradiction
  | error => rfl
  | missing => rfl

theorem factsOf_chain (hkind : t.isKind .assignment = false) (b : Binding) (target : TargetKind) :
    factsOf source (.chain b target) place t = [] := by
  cases t with
  | node kind role extent children =>
    have hne : kind ≠ .assignment := beq_eq_false_iff_ne.1 (by rwa [isKind_node] at hkind)
    exact if_neg hne
  | error => rfl
  | missing => rfl

end SourceCorpus.Extraction
