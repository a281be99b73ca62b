import SourceCorpus.Proofs.Extraction.Walk

/-!
What statements define, import and bind. Main statement: expressions tell nothing of the sort, and a
node that is no such statement tells what its children tell, in their order.
-/

namespace SourceCorpus.Extraction

open Syntax Tree

def isStated : Fact → Bool
  | .defined .. | .imported _ | .assigned _ | .instanceAttribute _ => true
  | _ => false

def statedIn (facts : List Fact) : List Fact := facts.filter isStated

def Reading.isPlain : Reading → Bool
  | .value | .bound | .rightSide | .decorator | .defaults | .body => true
  | .chain .. | .assigned .. | .definition _ => false

def Place.below (place : Place) (kind : Kind) : Place :=
  if isCompound kind then place.branch else place

variable {source : List Char} {place : Place} {facts facts' : List Fact} {t c : Tree}

theorem statedIn_append (facts facts' : List Fact) :
    statedIn (facts ++ facts') = statedIn facts ++ statedIn facts' := List.filter_append ..

theorem statedIn_flatMap {α : Type} (l : List α) (f : α → List Fact) :
    statedIn (l.flatMap f) = l.flatMap fun a => statedIn (f a) := List.filter_flatMap

theorem statedIn_map {α : Type} {f : α → Fact} (h : ∀ a, isStated (f a) = false) (l : List α) :
    statedIn (l.map f) = [] := by
  rw [statedIn, List.filter_map, List.map_eq_nil_iff, List.filter_eq_nil_iff]
  exact fun a _ => by simp [h a]

theorem statedIn_toList_map {α : Type} {f : α → Fact} (h : ∀ a, isStated (f a) = false)
    (o : Option α) : statedIn (o.map f).toList = [] := by
  rw [Option.toList_map]
  exact statedIn_map h _

theorem statedIn_silent_append (h : statedIn facts = []) :
    statedIn (facts ++ facts') = statedIn facts' := by
  rw [statedIn_append, h, List.nil_append]

section Nodes

variable {kind : Kind} {role : Option Role} {extent : Extent} {children : List Tree}

/-! ### Expressions -/

theorem statedIn_all_eq_nil {reading : Reading} {ts : List Tree}
    (h : ∀ t ∈ ts, statedIn (factsOf source reading place t) = []) :
    statedIn (factsOfAll source reading place ts) = [] := by
  rw [factsOfAll_eq_flatMap, statedIn_flatMap]
  exact List.flatMap_eq_nil_iff.2 h

theorem statedIn_inRole_eq_nil {reading : Reading} {part : Role} {ts : List Tree}
    (h : ∀ t ∈ ts, t.hasRole part → statedIn (factsOf source reading place t) = []) :
    statedIn (factsInRole source reading place part ts) = [] := by
  rw [factsInRole_eq_flatMap, statedIn_flatMap, List.flatMap_eq_nil_iff]
  intro t ht
  split
  next hrole => exact h t ht hrole
  next => rfl

theorem statedIn_inRole {reading : Reading} {part : Role}
    (h : ∀ c ∈ children, ¬c.hasRole part → statedIn (factsOf source reading place c) = []) :
    statedIn (factsInRole source reading place part children) =
      children.flatMap fun c => statedIn (factsOf source reading place c) := by
  rw [factsInRole_eq_flatMap, statedIn_flatMap]
  refine List.flatMap_congr fun c hc => ?_
  split
  next => rfl
  next hrole => exact (h c hc hrole).symm

/-- A target tells what it would tell as a value. -/
theorem statedIn_bound (t : Tree) (place : Place) :
    statedIn (factsOf source .bound place t) = statedIn (factsOf source .value place t) := by
  induction t using Tree.induction with
  | node kind role extent children ih =>
    have hall : statedIn (factsOfAll source .bound place children) =
        statedIn (factsOfAll source .value place children) := by
      rw [factsOfAll_eq_flatMap, factsOfAll_eq_flatMap, statedIn_flatMap, statedIn_flatMap]
      exact List.flatMap_congr ih
    cases kind
    case identifier => rfl
    case asPatternTarget =>
      cases children with
      | nil => rfl
      | cons => exact hall
    case patternList | tuplePattern | listPattern | listSplatPattern | tuple | list
        | parenthesizedExpression => exact hall
    all_goals rfl
  | error => rfl
  | missing => rfl

def StatesNothing (source : List Char) (t : Tree) : Prop :=
  t.HasNoDeclaration → ∀ reading : Reading, reading.isPlain → ∀ place,
    statedIn (factsOf source reading place t) = []

variable (ih : ∀ c ∈ children, StatesNothing source c)
include ih

theorem statedIn_evaluated {part : Role}
    (h : ∀ c ∈ children, c.hasRole part ∨ c.HasNoDeclaration) (place : Place) :
    statedIn (factsInRole source .value place part children) =
      children.flatMap fun c => statedIn (factsOf source .value place c) :=
  statedIn_inRole fun c hc hrole => ih c hc ((h c hc).resolve_left hrole) .value rfl place

theorem statedIn_loopPart (hc : c ∈ children) (hpart : IsLoopPart c) (place : Place) :
    statedIn (factsAs source .value place .body c) ++
        statedIn (factsAs source .value place .alternative c) =
      statedIn (factsOf source .value place c) := by
  by_cases hbody : c.hasRole .body
  · rw [factsAs_of_hasRole hbody, factsAs_of_hasRole_ne hbody (by decide)]
    exact List.append_nil _
  rw [factsAs_of_not_hasRole hbody]
  by_cases halternative : c.hasRole .alternative
  · rw [factsAs_of_hasRole halternative]
    rfl
  rw [factsAs_of_not_hasRole halternative,
    ih c hc (hpart.hasNoDeclaration_of_header hbody halternative) .value rfl place]
  rfl

/-- The header of a loop states nothing, and no body comes behind an alternative. -/
theorem statedIn_loop (hkind : kind = .forStatement ∨ kind = .forInClause)
    (fits : ∀ c ∈ children, Fits kind c)
    (hordered : children.Pairwise fun c later =>
      ¬(c.hasRole .alternative ∧ later.hasRole .body) ∨ c.HasNoDeclaration) (place : Place) :
    statedIn (factsOf source .value place (.node kind role extent children)) =
      children.flatMap fun c => statedIn (factsOf source .value (place.below kind) c) := by
  let inner := place.below kind
  have hpart {c : Tree} (hc : c ∈ children) : IsLoopPart c := isLoopPart_of_fits hkind (fits c hc)
  have hleft : statedIn (factsInRole source .bound inner .left children) = [] :=
    statedIn_inRole_eq_nil fun c hc hrole =>
      ih c hc ((hpart hc).hasNoDeclaration (.inl hrole)) .bound rfl inner
  have hright : statedIn (factsInRole source .value inner .right children) = [] :=
    statedIn_inRole_eq_nil fun c hc hrole =>
      ih c hc ((hpart hc).hasNoDeclaration (.inr hrole)) .value rfl inner
  have hinner : inner = if kind = .forStatement then place.branch else place := by
    rcases hkind with rfl | rfl <;> rfl
  rw [factsOf_value_of_isLoop hkind hinner, statedIn_append, statedIn_append, statedIn_append, hleft, hright, List.nil_append,
    List.nil_append, factsInRole_eq_flatMap, factsInRole_eq_flatMap, statedIn_flatMap,
    statedIn_flatMap]
  change (children.flatMap fun c => statedIn (factsAs source .value inner .body c)) ++
    (children.flatMap fun c => statedIn (factsAs source .value inner .alternative c)) = _
  rw [flatMap_append_flatMap]
  · exact List.flatMap_congr fun c hc => statedIn_loopPart ih hc (hpart hc) inner
  -- All bodies are read before the alternatives, and none of them stands behind one.
  · refine hordered.imp_of_mem fun {c later} hc _ h => ?_
    by_cases halternative : c.hasRole .alternative
    · rcases h with hroles | hnone
      · refine .inr ?_
        rw [factsAs_of_not_hasRole fun hbody => hroles ⟨halternative, hbody⟩]
        rfl
      · refine .inl ?_
        rw [factsAs_of_hasRole halternative]
        exact ih c hc hnone .value rfl inner
    · refine .inl ?_
      rw [factsAs_of_not_hasRole halternative]
      rfl

theorem statedIn_value (fits : ∀ c ∈ children, Fits kind c) (complete : IsComplete kind children)
    (hkind : kind.isDeclaration = false) (hdecorated : kind ≠ .decoratedDefinition)
    (place : Place) :
    statedIn (factsOf source .value place (.node kind role extent children)) =
      children.flatMap fun c => statedIn (factsOf source .value (place.below kind) c) := by
  have hall (place : Place) : statedIn (factsOfAll source .value place children) =
      children.flatMap fun c => statedIn (factsOf source .value place c) := by
    rw [factsOfAll_eq_flatMap, statedIn_flatMap]
  have hinert (hinert : ∀ c ∈ children, c.IsInert) {facts : List Fact} (h : statedIn facts = [])
      (place : Place) : statedIn facts =
        children.flatMap fun c => statedIn (factsOf source .value place c) := by
    rw [h, eq_comm, List.flatMap_eq_nil_iff]
    exact fun c hc => ih c hc (hinert c hc).hasNoDeclaration .value rfl place
  -- Where not all children are read, those that are not read declare nothing.
  by_cases htransparent : isTransparent kind
  · rw [factsOf_value_of_isTransparent htransparent]
    exact hall _
  cases kind
  case comment | globalStatement | nonlocalStatement | identifier => exact hinert fits rfl place
  case call | returnStatement =>
    exact (statedIn_silent_append (statedIn_toList_map (fun _ => rfl) _)).trans (hall place)
  case memberAccess | keywordArgument =>
    exact statedIn_evaluated ih (fun c hc => (fits c hc).2.imp_right (·.hasNoDeclaration)) place
  case namedExpression =>
    refine (statedIn_silent_append (statedIn_toList_map (fun _ => rfl) _)).trans ?_
    exact statedIn_evaluated ih (fun c hc => (fits c hc).2.imp_right (·.hasNoDeclaration)) place
  case lambda =>
    refine statedIn_evaluated ih (fun c hc => ?_) place
    rcases fits c hc with ⟨-, hpart⟩ | ⟨-, -, hnone⟩
    · exact hpart.imp_right (·.hasNoDeclaration)
    · exact .inr hnone
  case asPattern =>
    change statedIn (aliasFacts source place children) = _
    rw [aliasFacts_eq_flatMap, statedIn_flatMap]
    refine List.flatMap_congr fun c _ => ?_
    split
    · exact statedIn_bound c place
    · rfl
  case forStatement =>
    exact statedIn_loop ih (.inl rfl) fits (complete.imp fun h => .inl h) place
  case forInClause =>
    refine statedIn_loop ih (.inr rfl) fits ?_ place
    exact List.pairwise_of_forall_mem_list fun c hc _ _ => .inr (fits c hc).2.1
  case decoratedDefinition => exact absurd rfl hdecorated
  case functionDefinition | classDefinition | assignment | augmentedAssignment | importStatement
      | importFromStatement | futureImportStatement => cases hkind
  all_goals exact absurd rfl htransparent

theorem statesNothing_node (fits : ∀ c ∈ children, Fits kind c)
    (complete : IsComplete kind children) :
    StatesNothing source (.node kind role extent children) := by
  intro hnone reading hreading place
  obtain ⟨hkind, hchildren⟩ := avoids_node.1 hnone
  have hall {reading : Reading} (hreading : reading.isPlain) (place : Place) :
      statedIn (factsOfAll source reading place children) = [] :=
    statedIn_all_eq_nil fun c hc => ih c hc (hchildren c hc) reading hreading place
  have hpart {reading : Reading} (hreading : reading.isPlain) (part : Role) :
      statedIn (factsInRole source reading place part children) = [] :=
    statedIn_inRole_eq_nil fun c hc _ => ih c hc (hchildren c hc) reading hreading place
  have hvalue : statedIn (factsOf source .value place (.node kind role extent children)) = [] := by
    by_cases hdecorated : kind = .decoratedDefinition
    · subst hdecorated
      refine (statedIn_silent_append (hall rfl place)).trans (statedIn_inRole_eq_nil ?_)
      -- What would be defined here is a definition, but there is none.
      intro c hc hrole
      have hnot : c.isDefinition = false :=
        (HasNoDeclaration.hasNoDefinition (hchildren c hc)) c (self_mem_preorder c)
      rw [isDefinition_of_fits (fits c hc) hrole] at hnot
      cases hnot
    · rw [statedIn_value ih fits complete hkind hdecorated, List.flatMap_eq_nil_iff]
      exact fun c hc => ih c hc (hchildren c hc) .value rfl _
  cases reading
  case value => exact hvalue
  case bound => exact (statedIn_bound _ place).trans hvalue
  case rightSide =>
    by_cases hassignment : kind = .assignment
    · subst hassignment
      cases hkind
    · have hother : (node kind role extent children).isKind .assignment = false := by
        rwa [isKind_node, beq_eq_false_iff_ne]
      rw [factsOf_rightSide hother hnone.hasNoDefinition, hvalue]
  case decorator =>
    change statedIn (if kind = .decorator then firstFacts source place children else []) = []
    split
    · rw [firstFacts_eq]
      cases hfirst : (withoutComments children).head? with
      | none => rfl
      | some c =>
        have hc : c ∈ children := (List.mem_filter.1 (List.mem_of_head? hfirst)).1
        exact ih c hc (hchildren c hc) .value rfl place
    · rfl
  case defaults =>
    cases kind
    case parameters => exact hall rfl place
    case defaultParameter | typedDefaultParameter => exact hpart rfl .value
    all_goals rfl
  case body => exact hall rfl place
  all_goals cases hreading

end Nodes

theorem statesNothing (h : Shaped t) : StatesNothing source t := by
  induction h with
  | node fits complete _ ih => exact statesNothing_node ih fits complete

/-! ### Whole trees -/

section Shaped

variable {kind : Kind} {role : Option Role} {extent : Extent} {children : List Tree}
  (h : Shaped (.node kind role extent children))
include h

theorem Shaped.of_mem (hc : c ∈ children) : Shaped c := by
  cases h with
  | node _ _ shaped => exact shaped c hc

theorem Shaped.fits (hc : c ∈ children) : Fits kind c := by
  cases h with
  | node fits => exact fits c hc

/-- A node that is no statement of its own tells what its children tell. -/
theorem statedIn_node (hkind : kind.isDeclaration = false) (hdecorated : kind ≠ .decoratedDefinition)
    (place : Place) :
    statedIn (factsOf source .value place (.node kind role extent children)) =
      children.flatMap fun c => statedIn (factsOf source .value (place.below kind) c) := by
  cases h with
  | node fits complete shaped =>
    exact statedIn_value (fun c hc => statesNothing (shaped c hc)) fits complete hkind hdecorated place

/-- The body of a definition is evaluated like any block. -/
theorem factsInRole_body (hkind : kind.isDefinition) (place : Place) :
    factsInRole source .body place .body children =
      (children.filter (·.hasRole .body)).flatMap (factsOf source .value place) := by
  have hparts : ∀ c ∈ children, Fits .functionDefinition c := fun c hc => by
    have hfits := Shaped.fits h hc
    cases kind <;> first | exact hfits | cases hkind
  rw [factsInRole_eq_flatMap, flatMap_eq_of_filter (p := (·.hasRole .body))]
  · refine List.flatMap_congr fun c hc => ?_
    obtain ⟨hmem, hbody⟩ := List.mem_filter.1 hc
    have hblock := isKind_block_of_fits rfl (hparts c hmem) hbody
    rw [if_pos hbody]
    cases c with
    | node kind' role' extent' children' =>
      rw [isKind_node, beq_iff_eq] at hblock
      subst hblock
      rfl
    | error => rfl
    | missing => rfl
  · exact fun c _ hbody => if_neg (Bool.eq_false_iff.1 hbody)

/-- What is evaluated before a definition tells nothing. -/
theorem statedIn_definition (hkind : kind.isDefinition) (place : Place) (decorators : List String) :
    statedIn (factsOf source (.definition decorators) place (.node kind role extent children)) =
      (headerOf? source place.owner decorators (.node kind role extent children)).toList.map
        fun header => .defined header
          ((children.filter (·.hasRole .body)).flatMap
            (factsOf source .value (place.inside (some header)))) := by
  let t : Tree := .node kind role extent children
  have hparts : ∀ c ∈ children, Fits .functionDefinition c := fun c hc => by
    have hfits := Shaped.fits h hc
    cases kind <;> first | exact hfits | cases hkind
  have hdefaults : statedIn (factsOfAll source .defaults place children) = [] := by
    refine statedIn_all_eq_nil fun c hc => ?_
    by_cases hbody : c.hasRole .body
    · rw [factsOf_defaults_eq_nil_of_isKind (isKind_block_of_fits rfl (hparts c hc) hbody)
        (by decide)]
      rfl
    · exact statesNothing (Shaped.of_mem h hc) (hasNoDeclaration_of_fits (hparts c hc) hbody)
        .defaults rfl place
  have hbases : statedIn (factsInRole source .value place .superclasses children) = [] := by
    refine statedIn_inRole_eq_nil fun c hc hrole => ?_
    exact statesNothing (Shaped.of_mem h hc)
      (hasNoDeclaration_of_superclasses (hparts c hc) hrole) .value rfl place
  change statedIn (definitionFacts (headerOf? source place.owner decorators t)
    (factsOfAll source .defaults place children ++
      factsInRole source .value place .superclasses children)
    (factsInRole source .body (place.inside (headerOf? source place.owner decorators t)) .body
      children)) = _
  rw [factsInRole_body h hkind]
  cases headerOf? source place.owner decorators t with
  | none => rfl
  | some header =>
    rw [definitionFacts, statedIn_append, statedIn_append, hdefaults, hbases]
    rfl

/-- Decorators tell nothing. -/
theorem statedIn_decoratedDefinition (hkind : kind = .decoratedDefinition) (place : Place) :
    statedIn (factsOf source .value place (.node kind role extent children)) =
      (children.filter (·.hasRole .definition)).flatMap fun c =>
        statedIn (factsOf source
          (.definition (decoratorsOf source (.node kind role extent children))) place c) := by
  subst hkind
  have hdecorators : statedIn (factsOfAll source .decorator place children) = [] := by
    refine statedIn_all_eq_nil fun c hc => ?_
    rcases Shaped.fits h hc with ⟨hordinary, -⟩ | ⟨-, -, hnone⟩
    · rw [factsOf_decorator_eq_nil ((IsReadable.of_isOrdinary hordinary).isKind_eq_false rfl
        (by decide))]
      rfl
    · exact statesNothing (Shaped.of_mem h hc) hnone .decorator rfl place
  refine (statedIn_silent_append hdecorators).trans ?_
  rw [factsInRole_eq_flatMap, statedIn_flatMap, flatMap_eq_of_filter (p := (·.hasRole .definition))]
  · refine List.flatMap_congr fun c hc => ?_
    rw [if_pos (List.mem_filter.1 hc).2]
  · intro c _ hrole
    rw [hrole]
    rfl

end Shaped

end SourceCorpus.Extraction
