import SourceCorpus.Proofs.Extraction.Accounts
import SourceCorpus.Proofs.Extraction.Readings

/-!
The walk over a syntax tree accounts for its calls and definitions: a case for each way in which a
node is read, and from these by induction the whole of any tree in shape.
-/

namespace SourceCorpus.Extraction

open Syntax Tree

variable {source : List Char}

def IsReadable (t : Tree) : Prop := t.kind?.any Kind.isConfined = false ∨ t.isKind .typeParameter

abbrev AccountsFor (source : List Char) (t : Tree) (facts : List Fact) : Prop :=
  Accounts source facts (callsVia isRecorded t) t.definitions

abbrev AccountsForPart (source : List Char) (parent c : Tree) (facts : List Fact) : Prop :=
  Accounts source facts (partCalls isRecorded parent c) c.definitions

/-- The facts account for the tree in whichever way it is read, as far as it can be. -/
structure Walked (source : List Char) (t : Tree) : Prop where
  value : IsReadable t → ∀ place, AccountsFor source t (factsOf source .value place t)
  bound : t.isOrdinary → ∀ place, AccountsFor source t (factsOf source .bound place t)
  rightSide : t.isOrdinary → t.HasNoDefinition → ∀ place b target,
    AccountsFor source t
      (factsOf source .rightSide place t ++ factsOf source (.chain b target) place t)
  assigned : t.isOrdinary → t.HasNoDefinition → ∀ place b target,
    AccountsFor source t (factsOf source (.assigned b target) place t)
  decorator : t.isKind .decorator → t.HasNoDefinition → ∀ place,
    AccountsFor source t (factsOf source .decorator place t)
  definition : t.isDefinition → ∀ place decorators,
    AccountsFor source t (factsOf source (.definition decorators) place t)
  defaults : t.isKind .parameters ∨ t.hasDefault → t.HasNoDefinition → ∀ place,
    AccountsFor source t (factsOf source .defaults place t)
  body : t.isKind .block → ∀ place, AccountsFor source t (factsOf source .body place t)

theorem isConfined_eq_false_of_isOrdinary {t : Tree} (h : t.isOrdinary) :
    t.kind?.any Kind.isConfined = false := by
  simp only [Tree.isOrdinary, Bool.not_eq_true', Bool.or_eq_false_iff] at h
  exact h.2

theorem IsReadable.of_isOrdinary {t : Tree} (h : t.isOrdinary) : IsReadable t :=
  .inl (isConfined_eq_false_of_isOrdinary h)

theorem AccountsForPart.of_recorded {parent c : Tree} {facts : List Fact}
    (hpass : isRecorded parent c) (h : AccountsFor source c facts) :
    AccountsForPart source parent c facts := by
  rwa [AccountsForPart, partCalls, if_pos hpass]

/-- A child that is left out, and not to be recorded. -/
theorem AccountsForPart.of_not_recorded {parent c : Tree} {facts : List Fact}
    (hpass : isRecorded parent c = false) (hnone : c.HasNoDefinition) (h : IsSilent facts) :
    AccountsForPart source parent c facts := by
  rw [AccountsForPart, partCalls, hpass, if_neg Bool.false_ne_true,
    HasNoDefinition.definitions_eq_nil hnone]
  exact h.accounts

/-- A child that is left out, as nothing in it could be recorded. -/
theorem AccountsForPart.of_isInert {parent c : Tree} {facts : List Fact} (hc : c.IsInert)
    (h : IsSilent facts) : AccountsForPart source parent c facts := by
  rw [AccountsForPart, partCalls, IsInert.callsVia_eq_nil hc, ite_self,
    HasNoDefinition.definitions_eq_nil (IsInert.hasNoDefinition hc)]
  exact h.accounts

/-- A tree without definitions gives no facts that state one. -/
theorem AccountsFor.entries_eq_nil {t : Tree} {facts : List Fact} (h : AccountsFor source t facts)
    (hnone : t.HasNoDefinition) : entriesOfAll facts = [] := by
  rw [AccountsFor, HasNoDefinition.definitions_eq_nil hnone] at h
  exact h.entries_eq_nil

theorem AccountsForPart.entries_eq_nil {parent c : Tree} {facts facts' : List Fact}
    (h : AccountsForPart source parent c (facts ++ facts')) (hnone : c.HasNoDefinition) :
    entriesOfAll facts = [] ∧ entriesOfAll facts' = [] := by
  rw [AccountsForPart, HasNoDefinition.definitions_eq_nil hnone] at h
  exact entriesOfAll_of_accounts_append h

theorem IsReadable.isKind_eq_false {t : Tree} (h : IsReadable t) {kind : Kind}
    (hkind : kind.isConfined) (hne : kind ≠ .typeParameter) : t.isKind kind = false := by
  rcases h with h | h
  · exact isKind_eq_false_of_not_isConfined h hkind
  · rw [isKind, beq_iff_eq] at h
    simpa [isKind, h] using hne.symm

theorem isRecorded_of_isEvaluated {parent c : Tree} (hdecorator : parent.isKind .decorator = false)
    (hbody : entersBody parent c = false) (hc : isEvaluated parent c) : isRecorded parent c := by
  simp [isRecorded, isJoined, hdecorator, hbody, hc]

theorem isRecorded_of_isOrdinary {parent c : Tree} (hparent : IsReadable parent)
    (hdefinition : parent.isDefinition = false) (hc : c.isOrdinary) : isRecorded parent c := by
  have hdefault : parent.hasDefault = false := by
    rw [hasDefault, hparent.isKind_eq_false rfl (by decide),
      hparent.isKind_eq_false rfl (by decide), Bool.or_false]
  refine isRecorded_of_isEvaluated (hparent.isKind_eq_false rfl (by decide)) ?_ ?_
  · rw [entersBody, hdefinition, Bool.false_and]
  · refine isEvaluated_of_isOrdinary (hparent.isKind_eq_false rfl (by decide)) (fun h => ?_) hc
    rw [hdefault] at h
    cases h

/-! ### Nodes -/

section Nodes

variable {kind : Kind} {role : Option Role} {extent : Extent} {children : List Tree}
  {facts : List Fact} {place : Place}

theorem accountsFor_node (hdefinition : kind.isDefinition = false) (hcall : kind ≠ .call)
    (h : Accounts source facts
      (children.flatMap (partCalls isRecorded (.node kind role extent children)))
      (children.flatMap definitions)) :
    AccountsFor source (.node kind role extent children) facts := by
  rw [AccountsFor, callsVia_node, definitions_node, if_neg hcall, hdefinition]
  exact h

/-- All children are read in one way. -/
theorem accountsFor_all (hdefinition : kind.isDefinition = false) (hcall : kind ≠ .call)
    {reading : Reading} (h : ∀ c ∈ children, AccountsForPart source (.node kind role extent children)
      c (factsOf source reading place c)) :
    AccountsFor source (.node kind role extent children)
      (factsOfAll source reading place children) := by
  refine accountsFor_node hdefinition hcall ?_
  rw [factsOfAll_eq_flatMap]
  exact .flatMap h

/-- Only the children in one role are read. -/
theorem accountsFor_inRole (hdefinition : kind.isDefinition = false) (hcall : kind ≠ .call)
    {reading : Reading} {part : Role}
    (h : ∀ c ∈ children, AccountsForPart source (.node kind role extent children) c
      (if c.hasRole part then factsOf source reading place c else [])) :
    AccountsFor source (.node kind role extent children)
      (factsInRole source reading place part children) := by
  refine accountsFor_node hdefinition hcall ?_
  rw [factsInRole_eq_flatMap]
  exact .flatMap h

theorem isOrdinary_or_of_isTransparent (hkind : isTransparent kind)
    (hreadable : kind.isConfined = false ∨ kind = .typeParameter) {c : Tree} (hc : Fits kind c) :
    c.isOrdinary ∨ (kind = .genericType ∧ c.isKind .typeParameter) := by
  cases kind <;> first
    | exact .inl hc
    | exact hc.imp id fun h => ⟨rfl, h.2.1⟩
    | exact absurd hreadable (by decide)
    | cases hkind

variable (ih : ∀ c ∈ children, Walked source c)
include ih

/-- A child is evaluated where it stands. -/
theorem accountsForPart_value (hreadable : IsReadable (.node kind role extent children))
    (hdefinition : kind.isDefinition = false) {c : Tree} (hc : c ∈ children)
    (hordinary : c.isOrdinary) (place : Place) :
    AccountsForPart source (.node kind role extent children) c (factsOf source .value place c) :=
  .of_recorded (isRecorded_of_isOrdinary hreadable hdefinition hordinary)
    ((ih c hc).value (.of_isOrdinary hordinary) place)

theorem accountsFor_transparent (fits : ∀ c ∈ children, Fits kind c) (hkind : isTransparent kind)
    (hreadable : IsReadable (.node kind role extent children)) (place : Place) :
    AccountsFor source (.node kind role extent children)
      (factsOf source .value place (.node kind role extent children)) := by
  have hdefinition : kind.isDefinition = false := by cases kind <;> first | rfl | cases hkind
  have hcall : kind ≠ .call := by
    rintro rfl
    cases hkind
  have hconfined : kind.isConfined = false ∨ kind = .typeParameter := by
    simpa [IsReadable, isKind, kind?] using hreadable
  rw [factsOf_value_of_isTransparent hkind]
  refine accountsFor_all hdefinition hcall fun c hc => ?_
  rcases isOrdinary_or_of_isTransparent hkind hconfined (fits c hc) with hordinary | ⟨rfl, hbrackets⟩
  · exact accountsForPart_value ih hreadable hdefinition hc hordinary _
  · refine .of_recorded ?_ ((ih c hc).value (.inr hbrackets) _)
    have hargument : isTypeArgument (.node .genericType role extent children) c := hbrackets
    rw [isRecorded, hargument, Bool.or_true]
    rfl

/-- Only the children in one role are evaluated. -/
theorem accountsFor_value_inRole (hreadable : kind.isConfined = false)
    (hdefinition : kind.isDefinition = false) (hcall : kind ≠ .call) {part : Role}
    (fits : ∀ c ∈ children, (c.isOrdinary ∧ (c.hasRole part ∨ c.IsInert)) ∨
      (c.hasRole part = false ∧ c.isKind .lambdaParameters ∧ c.HasNoDefinition)) (place : Place) :
    AccountsFor source (.node kind role extent children)
      (factsInRole source .value place part children) := by
  refine accountsFor_inRole hdefinition hcall fun c hc => ?_
  by_cases hpart : c.hasRole part
  · rw [if_pos hpart]
    have hordinary : c.isOrdinary := by
      rcases fits c hc with h | h
      · exact h.1
      · rw [hpart] at h
        cases h.1
    exact accountsForPart_value ih (.inl hreadable) hdefinition hc hordinary place
  · rw [if_neg hpart]
    rcases fits c hc with h | h
    · exact .of_isInert (h.2.resolve_left hpart) .nil
    · refine .of_not_recorded ?_ h.2.2 .nil
      have hargument : isTypeArgument (.node kind role extent children) c = false := by
        rw [isKind, beq_iff_eq] at h
        simp [isTypeArgument, isKind, h.2.1]
      rw [isRecorded, isEvaluated, hargument, h.2.1]
      simp

theorem accountsFor_call (fits : ∀ c ∈ children, c.isOrdinary)
    (complete : ∃ c ∈ children, c.hasRole .function) (place : Place) :
    AccountsFor source (.node .call role extent children)
      (factsOf source .value place (.node .call role extent children)) := by
  let t : Tree := .node .call role extent children
  have hparts : Accounts source (factsOfAll source .value place children)
      (children.flatMap (partCalls isRecorded t)) (children.flatMap definitions) := by
    rw [factsOfAll_eq_flatMap]
    exact .flatMap fun c hc => accountsForPart_value ih (.inl rfl) rfl hc (fits c hc) place
  obtain ⟨site, hcall⟩ : ∃ site, callSite? source t = some site := by
    obtain ⟨c, hc, hfunction⟩ := complete
    rw [← Option.isSome_iff_exists, callSite?, Option.isSome_map, child?, List.find?_isSome]
    exact ⟨c, hc, hfunction⟩
  have hsite : Accounts source ((callSite? source t).map .called).toList [t] [] := by
    rw [hcall]
    refine ⟨.of_eq ?_, .nil⟩
    change [some site] = [callSite? source t]
    rw [hcall]
  rw [AccountsFor, callsVia_node, definitions_node, if_pos rfl]
  exact hsite.append hparts

theorem accountsFor_asPattern (fits : ∀ c ∈ children, c.isOrdinary) (place : Place) :
    AccountsFor source (.node .asPattern role extent children)
      (factsOf source .value place (.node .asPattern role extent children)) := by
  refine accountsFor_node rfl (by decide) ?_
  change Accounts source (aliasFacts source place children) _ _
  rw [aliasFacts_eq_flatMap]
  refine .flatMap fun c hc => AccountsForPart.of_recorded ?_ ?_
  · exact isRecorded_of_isOrdinary (.inl rfl) rfl (fits c hc)
  · split
    · exact (ih c hc).bound (fits c hc) place
    · exact (ih c hc).value (.of_isOrdinary (fits c hc)) place

theorem accountsFor_assignment (fits : ∀ c ∈ children, Fits .assignment c) (place : Place)
    (b : Binding) (target : TargetKind) :
    AccountsFor source (.node .assignment role extent children)
      (factsInRole source .rightSide place .right children ++
        targetFacts source b target place children) := by
  have hrecorded {c : Tree} (hc : c.isOrdinary) :
      isRecorded (.node .assignment role extent children) c :=
    isRecorded_of_isOrdinary (.inl rfl) rfl hc
  refine accountsFor_node rfl (by decide) ?_
  rw [factsInRole_eq_flatMap, targetFacts_eq_flatMap]
  -- A part belongs to one side at most, so the two rounds meet it once.
  have hparts : ∀ c ∈ children, AccountsForPart source (.node .assignment role extent children) c
      ((if c.hasRole .right then factsOf source .rightSide place c else []) ++
        (if c.hasRole .left then factsOf source (.assigned b target) place c
          else if c.hasRole .right then factsOf source (.chain b target) place c else [])) := by
    intro c hc
    obtain ⟨hnone, -, hpart⟩ := fits c hc
    by_cases hleft : c.hasRole .left
    · have hright : c.hasRole .right = false := hasRole_eq_false_of_hasRole hleft (by decide)
      have htype : c.hasRole .type = false := hasRole_eq_false_of_hasRole hleft (by decide)
      have hordinary : c.isOrdinary := (hpart.resolve_left (by simp [htype])).1
      simp only [hleft, hright, if_true, Bool.false_eq_true, if_false, List.nil_append]
      exact .of_recorded (hrecorded hordinary) ((ih c hc).assigned hordinary hnone place b target)
    · by_cases hright : c.hasRole .right
      · have htype : c.hasRole .type = false := hasRole_eq_false_of_hasRole hright (by decide)
        have hordinary : c.isOrdinary := (hpart.resolve_left (by simp [htype])).1
        simp only [hleft, hright, if_true, Bool.false_eq_true, if_false]
        exact .of_recorded (hrecorded hordinary) ((ih c hc).rightSide hordinary hnone place b target)
      · simp only [hleft, hright, Bool.false_eq_true, if_false, List.append_nil]
        rcases hpart with htype | ⟨-, hpart⟩
        · refine .of_not_recorded ?_ hnone .nil
          simp [isRecorded, isEvaluated, htype, isTypeArgument, isKind, kind?]
        · exact .of_isInert ((hpart.resolve_left hleft).resolve_left hright) .nil
  refine Gathers.accounts (.round (.first ..) ?_) hparts
  refine List.pairwise_of_forall_mem_list fun c hc _ _ => .inl ?_
  exact (AccountsForPart.entries_eq_nil (hparts c hc) (fits c hc).1).2

theorem accountsFor_augmentedAssignment (fits : ∀ c ∈ children, Fits .augmentedAssignment c)
    (place : Place) :
    AccountsFor source (.node .augmentedAssignment role extent children)
      (factsOf source .value place (.node .augmentedAssignment role extent children)) := by
  let t : Tree := .node .augmentedAssignment role extent children
  let b := augmentedBindingOf source t
  let reads := (children.filter fun c => c.hasRole .left && c.isKind .identifier).map fun c =>
    read (c.text source)
  have hreads : IsSilent reads := .map (fun _ => ⟨rfl, rfl⟩) _
  have hrecorded {c : Tree} (hc : c.isOrdinary) : isRecorded t c :=
    isRecorded_of_isOrdinary (.inl rfl) rfl hc
  have hparts : ∀ c ∈ children, AccountsForPart source t c
      ((if c.hasRole .right then factsOf source .value place c else []) ++
        (if c.hasRole .left then factsOf source (.assigned b .augmented) place c else [])) := by
    intro c hc
    obtain ⟨hnone, -, hordinary, hpart⟩ := fits c hc
    by_cases hleft : c.hasRole .left
    · have hright : c.hasRole .right = false := hasRole_eq_false_of_hasRole hleft (by decide)
      simp only [hleft, hright, if_true, Bool.false_eq_true, if_false, List.nil_append]
      exact .of_recorded (hrecorded hordinary) ((ih c hc).assigned hordinary hnone place b _)
    · by_cases hright : c.hasRole .right
      · simp only [hleft, hright, if_true, Bool.false_eq_true, if_false, List.append_nil]
        exact .of_recorded (hrecorded hordinary) ((ih c hc).value (.of_isOrdinary hordinary) place)
      · simp only [hleft, hright, Bool.false_eq_true, if_false, List.append_nil]
        exact .of_isInert ((hpart.resolve_left hleft).resolve_left hright) .nil
  refine accountsFor_node rfl (by decide) ?_
  change Accounts source (factsInRole source .value place .right children ++ reads ++
    factsInRole source (.assigned b .augmented) place .left children) _ _
  rw [factsInRole_eq_flatMap, factsInRole_eq_flatMap]
  refine Gathers.accounts (.round (.silent (.first ..) hreads) ?_) hparts
  refine List.pairwise_of_forall_mem_list fun c hc _ _ => .inl ?_
  exact (AccountsForPart.entries_eq_nil (hparts c hc) (fits c hc).1).2

structure IsLoopPart (c : Tree) : Prop where
  isOrdinary : c.isOrdinary = true
  hasNoDeclaration : c.hasRole .left ∨ c.hasRole .right → c.HasNoDeclaration
  isInert : ¬c.hasRole .left → ¬c.hasRole .right → ¬c.hasRole .body → ¬c.hasRole .alternative →
    c.IsInert

omit ih in
/-- Declarations stand in the body and the alternative of a loop only. -/
theorem IsLoopPart.hasNoDeclaration_of_header {c : Tree} (h : IsLoopPart c)
    (hbody : ¬c.hasRole .body) (halternative : ¬c.hasRole .alternative) : c.HasNoDeclaration := by
  by_cases hleft : c.hasRole .left
  · exact h.hasNoDeclaration (.inl hleft)
  by_cases hright : c.hasRole .right
  · exact h.hasNoDeclaration (.inr hright)
  exact (h.isInert hleft hright hbody halternative).hasNoDeclaration

omit ih in
theorem isLoopPart_of_fits (hkind : kind = .forStatement ∨ kind = .forInClause) {c : Tree}
    (hc : Fits kind c) : IsLoopPart c := by
  rcases hkind with rfl | rfl
  · obtain ⟨hordinary, hpart⟩ := hc
    refine ⟨hordinary, fun hheader => ?_, fun hleft hright hbody halternative => ?_⟩
    · rcases hpart with ⟨-, hnone⟩ | hbody | halternative | hinert
      · exact hnone
      · rcases hheader with h | h <;> simp [hasRole_eq_false_of_hasRole h] at hbody
      · rcases hheader with h | h <;> simp [hasRole_eq_false_of_hasRole h] at halternative
      · exact hinert.hasNoDeclaration
    · simpa [hleft, hright, hbody, halternative] using hpart
  · obtain ⟨hordinary, hnone, hpart⟩ := hc
    refine ⟨hordinary, fun _ => hnone, fun hleft hright _ _ => ?_⟩
    exact (hpart.resolve_left hleft).resolve_left hright

section Loops

omit ih

variable {c : Tree} {reading : Reading} {as as' : Role}

/-- A child of a loop is read once, in its role. -/
theorem IsLoopPart.accounts (h : IsLoopPart c) (hwalked : Walked source c)
    (hrecorded : isRecorded (.node kind role extent children) c) (place : Place) :
    AccountsForPart source (.node kind role extent children) c
      (factsAs source .bound place .left c ++ factsAs source .value place .right c ++
        factsAs source .value place .body c ++ factsAs source .value place .alternative c) := by
  have hvalue := hwalked.value (.of_isOrdinary h.isOrdinary) place
  by_cases hleft : c.hasRole .left
  · rw [factsAs_of_hasRole hleft, factsAs_of_hasRole_ne hleft (by decide),
      factsAs_of_hasRole_ne hleft (by decide), factsAs_of_hasRole_ne hleft (by decide)]
    simp only [List.append_nil]
    exact .of_recorded hrecorded (hwalked.bound h.isOrdinary place)
  rw [factsAs_of_not_hasRole hleft, List.nil_append]
  by_cases hright : c.hasRole .right
  · rw [factsAs_of_hasRole hright, factsAs_of_hasRole_ne hright (by decide),
      factsAs_of_hasRole_ne hright (by decide), List.append_nil, List.append_nil]
    exact .of_recorded hrecorded hvalue
  rw [factsAs_of_not_hasRole hright, List.nil_append]
  by_cases hbody : c.hasRole .body
  · rw [factsAs_of_hasRole hbody, factsAs_of_hasRole_ne hbody (by decide), List.append_nil]
    exact .of_recorded hrecorded hvalue
  rw [factsAs_of_not_hasRole hbody, List.nil_append]
  by_cases halternative : c.hasRole .alternative
  · rw [factsAs_of_hasRole halternative]
    exact .of_recorded hrecorded hvalue
  rw [factsAs_of_not_hasRole halternative]
  exact .of_isInert (h.isInert hleft hright hbody halternative) .nil

/-- The header of a loop states no definitions. -/
theorem IsLoopPart.entries_eq_nil (h : IsLoopPart c) (hwalked : Walked source c) (place : Place) :
    entriesOfAll (factsAs source .bound place .left c ++ factsAs source .value place .right c) =
      [] := by
  rw [entriesOfAll_append, List.append_eq_nil_iff]
  refine ⟨?_, ?_⟩
  · by_cases hleft : c.hasRole .left
    · rw [factsAs_of_hasRole hleft]
      exact AccountsFor.entries_eq_nil (hwalked.bound h.isOrdinary place)
        (h.hasNoDeclaration (.inl hleft)).hasNoDefinition
    · rw [factsAs_of_not_hasRole hleft]
      rfl
  · by_cases hright : c.hasRole .right
    · rw [factsAs_of_hasRole hright]
      exact AccountsFor.entries_eq_nil (hwalked.value (.of_isOrdinary h.isOrdinary) place)
        (h.hasNoDeclaration (.inr hright)).hasNoDefinition
    · rw [factsAs_of_not_hasRole hright]
      rfl

end Loops

theorem accountsFor_loop (hkind : kind = .forStatement ∨ kind = .forInClause)
    (fits : ∀ c ∈ children, Fits kind c)
    (hordered : children.Pairwise fun c later =>
      ¬(c.hasRole .alternative ∧ later.hasRole .body) ∨ c.HasNoDefinition) (place : Place) :
    AccountsFor source (.node kind role extent children)
      (factsOf source .value place (.node kind role extent children)) := by
  let inner := if kind = .forStatement then place.branch else place
  have hkinds : kind.isConfined = false ∧ kind.isDefinition = false ∧ kind ≠ .call := by
    rcases hkind with rfl | rfl <;> decide
  have hchild {c : Tree} (hc : c ∈ children) : IsLoopPart c := isLoopPart_of_fits hkind (fits c hc)
  have hheader {c : Tree} (hc : c ∈ children) := (hchild hc).entries_eq_nil (ih c hc) inner
  have hparts : ∀ c ∈ children, AccountsForPart source (.node kind role extent children) c
      (factsAs source .bound inner .left c ++ factsAs source .value inner .right c ++
        factsAs source .value inner .body c ++ factsAs source .value inner .alternative c) := by
    intro c hc
    refine (hchild hc).accounts (ih c hc) ?_ inner
    exact isRecorded_of_isOrdinary (.inl hkinds.1) hkinds.2.1 (hchild hc).isOrdinary
  refine accountsFor_node hkinds.2.1 hkinds.2.2 ?_
  rw [factsOf_value_of_isLoop hkind rfl]
  simp only [factsInRole_eq_flatMap]
  -- The four rounds over the children may be taken as one, child by child: definitions are met only
  -- in bodies and alternatives, and these stand in the order in which they are read.
  refine Gathers.accounts (.round (.round (.round (.first ..) ?_) ?_) ?_) hparts
  · refine List.pairwise_of_forall_mem_list fun c hc _ _ => .inl ?_
    have hentries := hheader hc
    rw [entriesOfAll_append] at hentries
    exact (List.append_eq_nil_iff.1 hentries).2
  · exact List.pairwise_of_forall_mem_list fun _ _ later hlater => .inr (hheader hlater)
  · refine hordered.imp_of_mem fun {c later} hc hlater h => ?_
    by_cases halternative : c.hasRole .alternative
    · rcases h with h | hnone
      · have hbody : ¬later.hasRole .body := fun hbody => h ⟨halternative, hbody⟩
        refine .inr ?_
        change entriesOfAll (_ ++ factsAs source .value inner .body later) = []
        rw [factsAs_of_not_hasRole hbody, List.append_nil]
        exact hheader hlater
      · refine .inl ?_
        change entriesOfAll (factsAs source .value inner .alternative c) = []
        rw [factsAs_of_hasRole halternative]
        exact AccountsFor.entries_eq_nil
          ((ih c hc).value (.of_isOrdinary (hchild hc).isOrdinary) inner) hnone
    · refine .inl ?_
      change entriesOfAll (factsAs source .value inner .alternative c) = []
      rw [factsAs_of_not_hasRole halternative]
      rfl

/-! ### Decorators -/

omit ih in
theorem isRecorded_of_isKind_decorator {c : Tree} (hrole : c.role? = none)
    (hkind : c.isKind .decorator) :
    isRecorded (.node .decoratedDefinition role extent children) c := by
  have hkind' : c.kind? = some .decorator := by simpa [isKind] using hkind
  have hbrackets : c.isKind .typeParameter = false := by simp [isKind, hkind']
  have hlambda : c.isKind .lambdaParameters = false := by simp [isKind, hkind']
  simp [isRecorded, isEvaluated, entersBody, isJoined, hasRole, hrole, hbrackets, hlambda,
    hasDefault, Kind.isDefinition]

theorem accountsFor_decoratedDefinition (fits : ∀ c ∈ children, Fits .decoratedDefinition c)
    (place : Place) :
    AccountsFor source (.node .decoratedDefinition role extent children)
      (factsOf source .value place (.node .decoratedDefinition role extent children)) := by
  let t : Tree := .node .decoratedDefinition role extent children
  let decorators := decoratorsOf source t
  have hnotDecorator {c : Tree} (hc : c.isOrdinary) : c.isKind .decorator = false :=
    (IsReadable.of_isOrdinary hc).isKind_eq_false rfl (by decide)
  have hparts : ∀ c ∈ children, AccountsForPart source t c (factsOf source .decorator place c ++
      if c.hasRole .definition then factsOf source (.definition decorators) place c else []) := by
    intro c hc
    rcases fits c hc with ⟨hordinary, ⟨hrole, hdefinition⟩ | ⟨hrole, hinert⟩⟩ | ⟨hrole, hkind, hnone⟩
    · rw [factsOf_decorator_eq_nil (hnotDecorator hordinary), List.nil_append, if_pos hrole]
      exact .of_recorded (isRecorded_of_isOrdinary (.inl rfl) rfl hordinary)
        ((ih c hc).definition hdefinition place decorators)
    · rw [factsOf_decorator_eq_nil (hnotDecorator hordinary), List.nil_append, hrole,
        if_neg Bool.false_ne_true]
      exact .of_isInert hinert .nil
    · have hno : c.hasRole .definition = false := by simp [hasRole, hrole]
      rw [hno, if_neg Bool.false_ne_true, List.append_nil]
      exact .of_recorded (isRecorded_of_isKind_decorator hrole hkind)
        ((ih c hc).decorator hkind hnone.hasNoDefinition place)
  refine accountsFor_node rfl (by decide) ?_
  change Accounts source (factsOfAll source .decorator place children ++
    factsInRole source (.definition decorators) place .definition children) _ _
  rw [factsOfAll_eq_flatMap, factsInRole_eq_flatMap]
  refine Gathers.accounts (.round (.first ..) ?_) hparts
  -- Only the decorators come in the first round, and there are no definitions in them.
  refine List.pairwise_of_forall_mem_list fun _ _ later hlater => .inr ?_
  rcases fits later hlater with ⟨hordinary, -⟩ | ⟨-, hkind, hnone⟩
  · rw [factsOf_decorator_eq_nil (hnotDecorator hordinary)]
    rfl
  · exact AccountsFor.entries_eq_nil
      ((ih later hlater).decorator hkind hnone.hasNoDefinition place) hnone.hasNoDefinition

omit ih in
theorem isTrivia_of_isKind_comment {t : Tree} (h : t.isKind .comment) : t.isTrivia := by
  rw [isKind, beq_iff_eq] at h
  rw [isTrivia, h]
  rfl

omit ih in
theorem isTrivia_of_isKind_lineContinuation {t : Tree} (h : t.isKind .lineContinuation) :
    t.isTrivia := by
  rw [isKind, beq_iff_eq] at h
  rw [isTrivia, h]
  rfl

omit ih in
theorem isTrivia_eq_false {t : Tree} (hcomment : t.isKind .comment = false)
    (hjoined : t.isKind .lineContinuation = false) : t.isTrivia = false := by
  cases t with
  | node kind role extent children =>
    rw [isKind_node, beq_eq_false_iff_ne] at hcomment hjoined
    cases kind <;> first | rfl | contradiction
  | error => rfl
  | missing => rfl

omit ih in
theorem filter_isTrivia_eq_nil {ts : List Tree} (h : (withoutComments ts).head? = none) :
    ts.filter (!·.isTrivia) = [] := by
  refine List.filter_eq_nil_iff.2 fun c hc => ?_
  have hcomment := List.filter_eq_nil_iff.1 (List.head?_eq_none_iff.1 h) c hc
  rw [isTrivia_of_isKind_comment (by simpa using hcomment)]
  exact Bool.false_ne_true

omit ih in
/-- What is neither a comment nor a joined line is all that a decorator has. -/
theorem filter_isTrivia_eq_singleton (complete : IsComplete .decorator children) {x : Tree}
    (hx : x ∈ children) (hcomment : x.isKind .comment = false)
    (hjoined : x.isKind .lineContinuation = false) : children.filter (!·.isTrivia) = [x] := by
  have hmem : x ∈ children.filter (!·.isTrivia) := by
    refine List.mem_filter.2 ⟨hx, ?_⟩
    rw [isTrivia_eq_false hcomment hjoined]
    rfl
  have hlength : (children.filter (!·.isTrivia)).length ≤ 1 := complete
  obtain ⟨y, hy⟩ := List.length_eq_one_iff.1
    (Nat.le_antisymm hlength (List.length_pos_of_mem hmem))
  rw [hy, List.mem_singleton] at hmem
  rw [hy, hmem]

omit ih in
theorem callsVia_decorator (fits : ∀ c ∈ children, Fits .decorator c) :
    callsVia isRecorded (.node .decorator role extent children) =
      (children.filter (!·.isTrivia)).flatMap
        (partCalls isRecorded (.node .decorator role extent children)) := by
  rw [callsVia_node, if_neg (by decide), List.nil_append]
  refine flatMap_eq_of_filter fun c hc htrivia => ?_
  rw [partCalls, IsInert.callsVia_eq_nil ((fits c hc).2 (by simpa using htrivia)), ite_self]

omit ih in
theorem isJoined_of_first {x : Tree} (hfirst : (withoutComments children).head? = some x)
    (c : Tree) :
    isJoined (.node .decorator role extent children) c = x.isKind .lineContinuation := by
  change (withoutComments children).head?.any (·.isKind .lineContinuation) = _
  rw [hfirst, Option.any_some]

omit ih in
theorem isRecorded_of_first {x : Tree} (hfirst : (withoutComments children).head? = some x)
    (hjoined : ¬x.isKind .lineContinuation) (hordinary : x.isOrdinary) :
    isRecorded (.node .decorator role extent children) x := by
  have hevaluated : isEvaluated (.node .decorator role extent children) x :=
    isEvaluated_of_isOrdinary rfl (fun h => by cases h) hordinary
  simp [isRecorded, isJoined_of_first hfirst, hjoined, entersBody, Kind.isDefinition, hevaluated]

/-- A decorator has one expression, and that is read unless a joined line comes before it. -/
theorem accountsFor_decorator (fits : ∀ c ∈ children, Fits .decorator c)
    (complete : IsComplete .decorator children)
    (hnone : (Syntax.Tree.node .decorator role extent children).HasNoDefinition) (place : Place) :
    AccountsFor source (.node .decorator role extent children)
      (factsOf source .decorator place (.node .decorator role extent children)) := by
  let t : Tree := .node .decorator role extent children
  rw [AccountsFor, hnone.definitions_eq_nil, callsVia_decorator fits]
  change Accounts source (firstFacts source place children) _ _
  rw [firstFacts_eq]
  cases hfirst : (withoutComments children).head? with
  | none =>
    rw [filter_isTrivia_eq_nil hfirst]
    exact IsSilent.nil.accounts
  | some x =>
    obtain ⟨hx, hcomment⟩ := List.mem_filter.1 (List.mem_of_head? hfirst)
    have hxnone : x.HasNoDefinition := (avoids_node.1 hnone).2 x hx
    have hxvalue := (ih x hx).value (.of_isOrdinary (fits x hx).1) place
    rw [AccountsFor, hxnone.definitions_eq_nil] at hxvalue
    change Accounts source (factsOf source .value place x) _ _
    by_cases hjoined : x.isKind .lineContinuation
    · -- A joined line has no calls, and the expression behind it is not read.
      have hinert : x.IsInert := (fits x hx).2 (isTrivia_of_isKind_lineContinuation hjoined)
      have hnothing : (children.filter (!·.isTrivia)).flatMap (partCalls isRecorded t) = [] := by
        refine List.flatMap_eq_nil_iff.2 fun c _ => if_neg ?_
        simp [t, isRecorded, isJoined_of_first hfirst, hjoined]
      rw [IsInert.callsVia_eq_nil hinert] at hxvalue
      rw [hnothing]
      exact hxvalue
    · have hrecorded : isRecorded t x := isRecorded_of_first hfirst hjoined (fits x hx).1
      rw [filter_isTrivia_eq_singleton complete hx (by simpa using hcomment) (by simpa using hjoined),
        List.flatMap_singleton, partCalls, if_pos hrecorded]
      exact hxvalue

/-! ### Definitions -/

omit ih in
theorem definitionKind_ne_module (owner : ObjectKind) (t : Tree) :
    definitionKind owner t ≠ .module := by
  rw [definitionKind]
  split
  · decide
  · split <;> decide

omit ih in
theorem definitionKind_eq_class_iff {owner : ObjectKind} {t : Tree} :
    definitionKind owner t = .class ↔ t.isKind .classDefinition := by
  rw [definitionKind]
  split
  next hclass => exact iff_of_true rfl hclass
  next hclass =>
    refine iff_of_false ?_ hclass
    split <;> decide

omit ih in
theorem exists_headerOf {t : Tree} (h : ∃ c ∈ t.children, c.hasRole .name) (owner : ObjectKind)
    (decorators : List String) : ∃ header, headerOf? source owner decorators t = some header ∧
      (t.child? .name).map (·.text source) = some header.name ∧ header.span = spanOf t ∧
      header.kind = definitionKind owner t ∧ header.bases = classArguments source false t := by
  obtain ⟨c, hc, hname⟩ := h
  obtain ⟨n, hn⟩ : ∃ n, t.child? .name = some n := by
    rw [← Option.isSome_iff_exists, child?, List.find?_isSome]
    exact ⟨c, hc, hname⟩
  rw [headerOf?, hn]
  exact ⟨_, rfl, rfl, rfl, rfl, rfl⟩

omit ih in
theorem isRecorded_of_definition (hkind : kind.isDefinition) {c : Tree}
    (hbody : c.hasRole .body = false) (htype : c.hasRole .type = false)
    (hreturn : c.hasRole .returnType = false) (hbrackets : c.isKind .typeParameter = false)
    (hlambda : c.isKind .lambdaParameters = false) :
    isRecorded (.node kind role extent children) c := by
  have hkinds : kind ≠ .parameters ∧ kind ≠ .defaultParameter ∧ kind ≠ .typedDefaultParameter ∧
      kind ≠ .decorator := by
    cases kind <;> first | decide | cases hkind
  simp [isRecorded, isEvaluated, entersBody, isJoined, hasDefault, hbody, htype, hreturn, hbrackets,
    hlambda, hkinds]

omit ih in
theorem not_isRecorded_of_definition (hkind : kind.isDefinition) {c : Tree}
    (h : c.hasRole .body ∨ c.hasRole .returnType ∨ c.isKind .typeParameter) :
    isRecorded (.node kind role extent children) c = false := by
  have hkind' : kind ≠ .genericType := by
    rintro rfl
    cases hkind
  rcases h with h | h | h <;>
    simp [isRecorded, isEvaluated, isTypeArgument, entersBody, h, hkind, hkind']

omit ih in
theorem accounts_of_not_isRecorded {parent c : Tree} (h : isRecorded parent c = false) :
    Accounts source [] (partCalls isRecorded parent c) [] := by
  rw [partCalls, h, if_neg Bool.false_ne_true]
  exact IsSilent.nil.accounts

omit ih in
theorem AccountsForPart.accounts {parent c : Tree} (hnone : c.HasNoDefinition)
    (h : AccountsForPart source parent c facts) :
    Accounts source facts (partCalls isRecorded parent c) [] := by
  rwa [AccountsForPart, HasNoDefinition.definitions_eq_nil hnone] at h

omit ih in
/-- The parameters and the base classes of a definition are recorded where it stands. -/
theorem isRecorded_of_hasRole (hkind : kind.isDefinition) {c : Tree} {as : Role} {kind' : Kind}
    (hrole : c.hasRole as) (hc : c.isKind kind') (h : as ≠ .body ∧ as ≠ .type ∧ as ≠ .returnType)
    (h' : kind' ≠ .typeParameter ∧ kind' ≠ .lambdaParameters) :
    isRecorded (.node kind role extent children) c := by
  rw [isKind, beq_iff_eq] at hc
  refine isRecorded_of_definition hkind (hasRole_eq_false_of_hasRole hrole h.1)
    (hasRole_eq_false_of_hasRole hrole h.2.1) (hasRole_eq_false_of_hasRole hrole h.2.2) ?_ ?_ <;>
    simp [isKind, hc, h']

omit ih in
/-- A child of a definition is read for what is evaluated where the definition stands. -/
theorem accounts_before_part (hkind : kind.isDefinition) {c : Tree}
    (hc : Fits .functionDefinition c) (hwalked : Walked source c) (place : Place) :
    Accounts source (factsOf source .defaults place c ++
        if c.hasRole .superclasses then factsOf source .value place c else [])
      (partCalls isRecorded (.node kind role extent children) c) [] := by
  rcases hc with ⟨hbody, hblock⟩ | ⟨hordinary, hinert, -⟩ | ⟨hnone, hpart⟩
  · rw [factsOf_defaults_eq_nil_of_isKind hblock (by decide),
      hasRole_eq_false_of_hasRole hbody (by decide)]
    exact accounts_of_not_isRecorded (not_isRecorded_of_definition hkind (.inl hbody))
  · have hreadable : IsReadable c := .of_isOrdinary hordinary
    have hdefaults : factsOf source .defaults place c = [] := by
      refine factsOf_defaults_eq_nil (hreadable.isKind_eq_false rfl (by decide)) ?_
      rw [hasDefault, hreadable.isKind_eq_false rfl (by decide),
        hreadable.isKind_eq_false rfl (by decide), Bool.or_false]
    rw [hdefaults, List.nil_append, partCalls, hinert.callsVia_eq_nil, ite_self]
    have hvalue := hwalked.value hreadable place
    rw [AccountsFor, hinert.callsVia_eq_nil, hinert.hasNoDefinition.definitions_eq_nil] at hvalue
    by_cases hrole : c.hasRole .superclasses
    · rwa [if_pos hrole]
    · rw [if_neg hrole]
      exact IsSilent.nil.accounts
  -- What is left are the parameters, the base classes, the return type and the type parameters.
  rcases hpart with ⟨hrole, hlist⟩ | ⟨hrole, hlist⟩ | ⟨hrole, htype⟩ | ⟨hrole, hbrackets⟩
  · rw [hasRole_eq_false_of_hasRole hrole (by decide), if_neg Bool.false_ne_true, List.append_nil]
    refine AccountsForPart.accounts hnone.hasNoDefinition (.of_recorded ?_
      (hwalked.defaults (.inl hlist) hnone.hasNoDefinition place))
    exact isRecorded_of_hasRole hkind hrole hlist (by decide) (by decide)
  · rw [factsOf_defaults_eq_nil_of_isKind hlist (by decide), if_pos hrole, List.nil_append]
    have hreadable : IsReadable c := by
      refine .inl ?_
      rw [isKind, beq_iff_eq] at hlist
      rw [hlist]
      rfl
    refine AccountsForPart.accounts hnone.hasNoDefinition
      (.of_recorded ?_ (hwalked.value hreadable place))
    exact isRecorded_of_hasRole hkind hrole hlist (by decide) (by decide)
  · rw [factsOf_defaults_eq_nil_of_isKind htype (by decide),
      hasRole_eq_false_of_hasRole hrole (by decide)]
    exact accounts_of_not_isRecorded (not_isRecorded_of_definition hkind (.inr (.inl hrole)))
  · have hno : c.hasRole .superclasses = false := by simp [hasRole, hrole]
    rw [factsOf_defaults_eq_nil_of_isKind hbrackets (by decide), hno]
    exact accounts_of_not_isRecorded (not_isRecorded_of_definition hkind (.inr (.inr hbrackets)))

/-- What a definition has outside its body is read for what is evaluated where it stands. -/
theorem accounts_before_definition (hkind : kind.isDefinition)
    (fits : ∀ c ∈ children, Fits .functionDefinition c) (place : Place) :
    Accounts source (factsOfAll source .defaults place children ++
        factsInRole source .value place .superclasses children)
      (children.flatMap (partCalls isRecorded (.node kind role extent children))) [] := by
  have hparts : ∀ c ∈ children, Accounts source (factsOf source .defaults place c ++
      if c.hasRole .superclasses then factsOf source .value place c else [])
        (partCalls isRecorded (.node kind role extent children) c) [] := fun c hc =>
    accounts_before_part hkind (fits c hc) (ih c hc) place
  rw [factsOfAll_eq_flatMap, factsInRole_eq_flatMap]
  have hnil : ([] : List Tree) = children.flatMap fun _ => [] := by simp
  rw [hnil]
  refine Gathers.accounts (.round (.first ..) ?_) hparts
  exact List.pairwise_of_forall_mem_list fun c hc _ _ =>
    .inl (entriesOfAll_of_accounts_append (hparts c hc)).2

theorem accounts_body (fits : ∀ c ∈ children, Fits .functionDefinition c) (place : Place) :
    Accounts source (factsInRole source .body place .body children)
      (bodyCalls isRecorded (.node kind role extent children)) (children.flatMap definitions) := by
  rw [bodyCalls_node, factsInRole_eq_flatMap]
  refine .flatMap fun c hc => ?_
  by_cases hrole : c.hasRole .body
  · rw [if_pos hrole, if_pos hrole]
    have hdefinition : Kind.isDefinition .functionDefinition := rfl
    exact (ih c hc).body (isKind_block_of_fits hdefinition (fits c hc) hrole) place
  · rw [if_neg hrole, if_neg hrole]
    have hnone : c.HasNoDefinition := by
      rcases fits c hc with h | h | h
      · exact absurd h.1 hrole
      · exact h.2.1.hasNoDefinition
      · exact h.1.hasNoDefinition
    rw [HasNoDefinition.definitions_eq_nil hnone]
    exact IsSilent.nil.accounts

theorem accountsFor_definition (hkind : kind.isDefinition)
    (fits : ∀ c ∈ children, Fits .functionDefinition c)
    (complete : ∃ c ∈ children, c.hasRole .name) (place : Place) (decorators : List String) :
    AccountsFor source (.node kind role extent children)
      (factsOf source (.definition decorators) place (.node kind role extent children)) := by
  let t : Tree := .node kind role extent children
  obtain ⟨header, hheader, hname, hspan, hdefined, hbases⟩ : ∃ header,
      headerOf? source place.owner decorators t = some header ∧
        (t.child? .name).map (·.text source) = some header.name ∧ header.span = spanOf t ∧
        header.kind = definitionKind place.owner t ∧
        header.bases = classArguments source false t :=
    exists_headerOf (t := t) complete place.owner decorators
  let before := factsOfAll source .defaults place children ++
    factsInRole source .value place .superclasses children
  let body := factsInRole source .body (place.inside (some header)) .body children
  have hfacts : factsOf source (.definition decorators) place t =
      before ++ [.defined header body] := factsOf_definition hheader
  have hbefore : Accounts source before (children.flatMap (partCalls isRecorded t)) [] :=
    accounts_before_definition ih hkind fits place
  have hbody : Accounts source body (bodyCalls isRecorded t) (children.flatMap definitions) :=
    accounts_body ih fits _
  have hcall : kind ≠ .call := by
    rintro rfl
    cases hkind
  rw [AccountsFor, callsVia_node, definitions_node, if_neg hcall, if_pos hkind, hfacts]
  refine ⟨?_, ?_⟩
  · rw [callsIn_append]
    change ((callsIn before ++ []).map some).Perm _
    rw [List.append_nil]
    exact hbefore.calls
  · rw [entriesOfAll_append, hbefore.entries_eq_nil]
    change List.Forall₂ _ ((header, body) :: (entriesOfAll body ++ [])) _
    rw [List.append_nil]
    refine .cons ⟨hkind, hname, hspan, ?_, ?_, hbases, hbody.calls, place, decorators, hheader, rfl⟩
      hbody.definitions
    · rw [hdefined]
      exact definitionKind_ne_module place.owner t
    · rw [hdefined]
      exact definitionKind_eq_class_iff

omit ih in
theorem isRecorded_of_hasDefault {c : Tree} (hdefault : c.hasDefault)
    (htype : c.hasRole .type = false) (hreturn : c.hasRole .returnType = false) :
    isRecorded (.node .parameters role extent children) c := by
  have hkinds : c.isKind .typeParameter = false ∧ c.isKind .lambdaParameters = false := by
    rw [hasDefault, Bool.or_eq_true, isKind, isKind, beq_iff_eq, beq_iff_eq] at hdefault
    rcases hdefault with h | h <;> simp [isKind, h]
  refine isRecorded_of_isEvaluated rfl rfl ?_
  simp only [isEvaluated, htype, hreturn, hkinds, hdefault]
  rfl

omit ih in
theorem isRecorded_of_hasRole_value
    (hkind : kind = .defaultParameter ∨ kind = .typedDefaultParameter) {c : Tree}
    (hvalue : c.hasRole .value) (hordinary : c.isOrdinary) :
    isRecorded (.node kind role extent children) c := by
  have hkinds : kind.isDefinition = false ∧ kind ≠ .parameters ∧ kind ≠ .decorator := by
    rcases hkind with rfl | rfl <;> decide
  refine isRecorded_of_isEvaluated ?_ ?_ (isEvaluated_of_isOrdinary ?_ (fun _ => hvalue) hordinary)
  · simp [hkinds]
  · simp [entersBody, hkinds]
  · simp [hkinds]

/-- The parameters of a definition are read for their default values. -/
theorem accountsFor_parameters (fits : ∀ c ∈ children, Fits .parameters c) (place : Place) :
    AccountsFor source (.node .parameters role extent children)
      (factsOf source .defaults place (.node .parameters role extent children)) := by
  change AccountsFor source _ (factsOfAll source .defaults place children)
  refine accountsFor_all rfl (by decide) fun c hc => ?_
  obtain ⟨hnone, hlist, htype, hreturn, -⟩ := fits c hc
  cases hdefault : c.hasDefault with
  | true =>
    exact .of_recorded (isRecorded_of_hasDefault hdefault htype hreturn)
      ((ih c hc).defaults (.inr hdefault) hnone.hasNoDefinition place)
  | false =>
    rw [factsOf_defaults_eq_nil hlist hdefault]
    refine .of_not_recorded ?_ hnone.hasNoDefinition .nil
    simp [isRecorded, isEvaluated, isTypeArgument, hdefault]

theorem accountsFor_defaultParameter
    (hkind : kind = .defaultParameter ∨ kind = .typedDefaultParameter)
    (fits : ∀ c ∈ children, Fits kind c) (place : Place) :
    AccountsFor source (.node kind role extent children)
      (factsOf source .defaults place (.node kind role extent children)) := by
  have hfacts : factsOf source .defaults place (.node kind role extent children) =
      factsInRole source .value place .value children := by
    rcases hkind with rfl | rfl <;> rfl
  have hkinds : kind.isDefinition = false ∧ kind ≠ .call ∧ kind ≠ .genericType := by
    rcases hkind with rfl | rfl <;> decide
  have hdefault : (Syntax.Tree.node kind role extent children).hasDefault := by
    rcases hkind with rfl | rfl <;> rfl
  rw [hfacts]
  refine accountsFor_inRole hkinds.1 hkinds.2.1 fun c hc => ?_
  have hpart : c.HasNoDeclaration ∧ (c.hasRole .value → c.isOrdinary) := by
    rcases hkind with rfl | rfl <;> exact fits c hc
  by_cases hvalue : c.hasRole .value
  · rw [if_pos hvalue]
    have hordinary : c.isOrdinary := hpart.2 hvalue
    exact .of_recorded (isRecorded_of_hasRole_value hkind hvalue hordinary)
      ((ih c hc).value (.of_isOrdinary hordinary) place)
  · rw [if_neg hvalue]
    refine .of_not_recorded ?_ hpart.1.hasNoDefinition .nil
    simp [isRecorded, isEvaluated, isTypeArgument, hkinds, hdefault, hvalue]

/-! ### Targets -/

omit ih in
/-- Nothing is recorded of a node whose children are inert. -/
theorem accountsFor_silent (hdefinition : kind.isDefinition = false) (hcall : kind ≠ .call)
    (hinert : ∀ c ∈ children, c.IsInert) (h : IsSilent facts) :
    AccountsFor source (.node kind role extent children) facts := by
  have hcalls : (Syntax.Tree.node kind role extent children).HasNoCall :=
    avoids_node.2 ⟨by simpa using hcall, fun c hc => (hinert c hc).hasNoCall⟩
  have hdefinitions : (Syntax.Tree.node kind role extent children).HasNoDefinition :=
    avoids_node.2 ⟨hdefinition, fun c hc => (hinert c hc).hasNoDefinition⟩
  rw [AccountsFor, hcalls.callsVia_eq_nil, hdefinitions.definitions_eq_nil]
  exact h.accounts

omit ih in
theorem isRecorded_of_isPlain (hkind : kind.isPlain) {c : Tree} (hc : c.isOrdinary) :
    isRecorded (.node kind role extent children) c := by
  refine isRecorded_of_isOrdinary (.inl ?_) (Kind.isDefinition_of_isPlain hkind) hc
  exact Kind.isConfined_of_isPlain hkind

omit ih in
theorem accountsFor_sequence (hkind : kind.isPlain) (fits : ∀ c ∈ children, Fits kind c)
    {reading : Reading}
    (h : ∀ c ∈ children, c.isOrdinary → AccountsFor source c (factsOf source reading place c)) :
    AccountsFor source (.node kind role extent children)
      (factsOfAll source reading place children) := by
  refine accountsFor_all (Kind.isDefinition_of_isPlain hkind) (Kind.ne_call_of_isPlain hkind) ?_
  intro c hc
  have hordinary : c.isOrdinary := isOrdinary_of_fits hkind (fits c hc)
  exact .of_recorded (isRecorded_of_isPlain hkind hordinary) (h c hc hordinary)

omit ih in
theorem isPlain_of_isSequence (h : isSequence kind) : kind.isPlain := by
  cases kind <;> first | rfl | cases h

theorem accountsFor_bound (fits : ∀ c ∈ children, Fits kind c)
    (hvalue : AccountsFor source (.node kind role extent children)
      (factsOf source .value place (.node kind role extent children))) :
    AccountsFor source (.node kind role extent children)
      (factsOf source .bound place (.node kind role extent children)) := by
  have hall (hkind : kind.isPlain) : AccountsFor source (.node kind role extent children)
      (factsOfAll source .bound place children) :=
    accountsFor_sequence hkind fits fun c hc hordinary => (ih c hc).bound hordinary place
  by_cases hsequence : isSequence kind
  · rw [factsOf_bound_of_isSequence hsequence]
    exact hall (isPlain_of_isSequence hsequence)
  by_cases htarget : kind = .asPatternTarget
  · subst htarget
    cases children with
    | nil => exact accountsFor_silent rfl (by decide) (List.forall_mem_nil _) ⟨rfl, rfl⟩
    | cons c cs => exact hall rfl
  by_cases hname : kind = .identifier
  · subst hname
    exact accountsFor_silent rfl (by decide) fits ⟨rfl, rfl⟩
  rwa [factsOf_bound_eq_value hsequence htarget hname]

theorem accountsFor_rightSide (fits : ∀ c ∈ children, Fits kind c)
    (hnone : (Syntax.Tree.node kind role extent children).HasNoDefinition) (b : Binding)
    (target : TargetKind)
    (hvalue : AccountsFor source (.node kind role extent children)
      (factsOf source .value place (.node kind role extent children))) :
    AccountsFor source (.node kind role extent children)
      (factsOf source .rightSide place (.node kind role extent children) ++
        factsOf source (.chain b target) place (.node kind role extent children)) := by
  by_cases hkind : kind = .assignment
  · subst hkind
    exact accountsFor_assignment ih fits place b target
  · have hother : (Syntax.Tree.node kind role extent children).isKind .assignment = false := by
      rwa [isKind_node, beq_eq_false_iff_ne]
    rwa [factsOf_rightSide hother hnone, factsOf_chain hother, List.append_nil]

theorem accountsFor_assigned (fits : ∀ c ∈ children, Fits kind c)
    (hnone : (Syntax.Tree.node kind role extent children).HasNoDefinition) (b : Binding)
    (target : TargetKind)
    (hvalue : AccountsFor source (.node kind role extent children)
      (factsOf source .value place (.node kind role extent children))) :
    AccountsFor source (.node kind role extent children)
      (factsOf source (.assigned b target) place (.node kind role extent children)) := by
  obtain ⟨hdefinition, hparts⟩ := avoids_node.1 hnone
  have hall (hkind : kind.isPlain) (target' : TargetKind) :
      AccountsFor source (.node kind role extent children)
        (factsOfAll source (.assigned b target') place children) :=
    accountsFor_sequence hkind fits fun c hc hordinary =>
      (ih c hc).assigned hordinary (hparts c hc) place b target'
  by_cases hsequence : isSequence kind
  · obtain ⟨target', hfacts⟩ := exists_factsOf_assigned hsequence b target
    rw [hfacts]
    exact hall (isPlain_of_isSequence hsequence) target'
  by_cases hsplat : kind = .listSplat
  · subst hsplat
    exact hall rfl .starred
  by_cases hname : kind = .identifier
  · subst hname
    exact accountsFor_silent rfl (by decide) fits ⟨rfl, rfl⟩
  by_cases hmember : kind = .memberAccess
  · subst hmember
    exact .silent_append (.toList_map (fun _ => ⟨rfl, rfl⟩) _)
      (accountsFor_value_inRole ih rfl rfl (by decide) (fun c hc => .inl (fits c hc)) place)
  rwa [factsOf_assigned_eq_value hdefinition hsequence hsplat hname hmember]

/-! ### Whole trees -/

theorem accountsFor_value (fits : ∀ c ∈ children, Fits kind c) (complete : IsComplete kind children)
    (hreadable : IsReadable (.node kind role extent children)) (place : Place) :
    AccountsFor source (.node kind role extent children)
      (factsOf source .value place (.node kind role extent children)) := by
  by_cases htransparent : isTransparent kind
  · exact accountsFor_transparent ih fits htransparent hreadable place
  cases kind
  case comment | globalStatement | nonlocalStatement =>
    exact accountsFor_silent rfl (by decide) fits .nil
  case identifier => exact accountsFor_silent rfl (by decide) fits ⟨rfl, rfl⟩
  case importStatement | importFromStatement | futureImportStatement =>
    exact accountsFor_silent rfl (by decide) (fun c hc => (fits c hc).1)
      (.map (fun _ => ⟨rfl, rfl⟩) _)
  case decoratedDefinition => exact accountsFor_decoratedDefinition ih fits place
  case functionDefinition | classDefinition =>
    exact accountsFor_definition ih rfl fits complete place []
  case call => exact accountsFor_call ih fits complete place
  case memberAccess | keywordArgument =>
    exact accountsFor_value_inRole ih rfl rfl (by decide) (fun c hc => .inl (fits c hc)) place
  case namedExpression =>
    exact .silent_append (.toList_map (fun _ => ⟨rfl, rfl⟩) _)
      (accountsFor_value_inRole ih rfl rfl (by decide) (fun c hc => .inl (fits c hc)) place)
  case lambda =>
    refine accountsFor_value_inRole ih rfl rfl (by decide) (fun c hc => ?_) place
    exact (fits c hc).imp id fun h =>
      ⟨hasRole_eq_false_of_hasRole h.2.1 (by decide), h.1, h.2.2.hasNoDefinition⟩
  case asPattern => exact accountsFor_asPattern ih fits place
  case assignment => exact accountsFor_assignment ih fits place _ _
  case augmentedAssignment => exact accountsFor_augmentedAssignment ih fits place
  case returnStatement =>
    refine .silent_append (.toList_map (fun _ => ⟨rfl, rfl⟩) _) (accountsFor_sequence rfl fits ?_)
    exact fun c hc hordinary => (ih c hc).value (.of_isOrdinary hordinary) place
  case forStatement =>
    exact accountsFor_loop ih (.inl rfl) fits (complete.imp fun h => .inl h) place
  case forInClause =>
    refine accountsFor_loop ih (.inr rfl) fits ?_ place
    exact List.pairwise_of_forall_mem_list fun c hc _ _ => .inr (fits c hc).2.1.hasNoDefinition
  all_goals exact absurd rfl htransparent

theorem walked_node (fits : ∀ c ∈ children, Fits kind c) (complete : IsComplete kind children) :
    Walked source (.node kind role extent children) := by
  have hvalue (hreadable : IsReadable (.node kind role extent children)) (place : Place) :=
    accountsFor_value ih fits complete hreadable place
  refine ⟨hvalue, fun hordinary place => ?_, fun hordinary hnone place b target => ?_,
    fun hordinary hnone place b target => ?_, fun hkind hnone place => ?_,
    fun hdefinition place decorators => ?_, fun hkind hnone place => ?_, fun hkind place => ?_⟩
  · exact accountsFor_bound ih fits (hvalue (.of_isOrdinary hordinary) place)
  · exact accountsFor_rightSide ih fits hnone b target (hvalue (.of_isOrdinary hordinary) place)
  · exact accountsFor_assigned ih fits hnone b target (hvalue (.of_isOrdinary hordinary) place)
  · rw [isKind_node, beq_iff_eq] at hkind
    subst hkind
    exact accountsFor_decorator ih fits complete hnone place
  · rw [isDefinition_node] at hdefinition
    cases kind
    case functionDefinition | classDefinition =>
      exact accountsFor_definition ih rfl fits complete place decorators
    all_goals cases hdefinition
  · rw [hasDefault, isKind_node, isKind_node, isKind_node] at hkind
    cases kind
    case parameters => exact accountsFor_parameters ih fits place
    case defaultParameter => exact accountsFor_defaultParameter ih (.inl rfl) fits place
    case typedDefaultParameter => exact accountsFor_defaultParameter ih (.inr rfl) fits place
    all_goals exact absurd hkind (by decide)
  · rw [isKind_node, beq_iff_eq] at hkind
    subst hkind
    exact hvalue (.inl rfl) place

end Nodes

theorem Walked.of_shaped {t : Tree} (h : Shaped t) : Walked source t := by
  induction h with
  | node fits complete _ ih => exact walked_node ih fits complete

/-- The facts of a tree in shape state the calls that are recorded at its root, and the definitions
in it with the calls that are recorded for them. -/
theorem accountsFor_of_shaped {t : Tree} (h : Shaped t) (hordinary : t.isOrdinary)
    (place : Place) : AccountsFor source t (factsOf source .value place t) :=
  (Walked.of_shaped h).value (.of_isOrdinary hordinary) place

end SourceCorpus.Extraction
