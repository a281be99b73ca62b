import SourceCorpus.Proofs.Extraction.Accounts

/-!
To whom the calls of a tree belong. Main statement: the calls that are evaluated are shared out among
the module and the definitions, each call to the innermost whose body it is in.
-/

namespace SourceCorpus.Extraction

open Syntax Tree

def owners (tree : Tree) : List Tree := tree :: tree.definitions

/-- What an owner runs: the body of a definition, and the whole of a module. -/
def regionOf (owner : Tree) : List Tree :=
  if owner.isDefinition then owner.children.filter (·.hasRole .body) else [owner]

def ownCalls (pass : Pass) (owner : Tree) : List Tree := (regionOf owner).flatMap (callsVia pass)

variable {source : List Char} {kind : Kind} {role : Option Role} {extent : Extent}
  {children : List Tree} {t : Tree}

theorem mem_preorder_of_mem_owners {owner : Tree} (h : owner ∈ owners t) : owner ∈ t.preorder := by
  rcases List.mem_cons.1 h with rfl | h
  · exact self_mem_preorder _
  · exact (List.mem_filter.1 h).1

theorem ownCalls_of_isDefinition {pass : Pass} {d : Tree} (h : d.isDefinition) :
    ownCalls pass d = bodyCalls pass d := by
  rw [ownCalls, regionOf, if_pos h, bodyCalls]

theorem ownCalls_of_not_isDefinition {pass : Pass} (h : t.isDefinition = false) :
    ownCalls pass t = callsVia pass t := by
  rw [ownCalls, regionOf, h, if_neg Bool.false_ne_true, List.flatMap_singleton]

/-- The calls of an owner, sorted by whether a special step leads to them. -/
theorem ownCalls_perm (pass special : Pass) (owner : Tree) :
    (ownCalls pass owner).Perm
      (ownCalls (fun parent part => pass parent part && !special parent part) owner ++
        (regionOf owner).flatMap (callsBehind pass special)) :=
  (List.Perm.flatMap_left _ fun t _ => callsVia_perm pass special t).trans
    (List.flatMap_append_perm ..).symm

/-- Where nothing is evaluated, nothing is defined. -/
theorem hasNoDefinition_of_not_isEvaluated {c : Tree} (hc : Fits kind c)
    (h : isEvaluated (.node kind role extent children) c = false) : c.HasNoDefinition := by
  have hparts : c.HasNoDefinition ∨ (c.isOrdinary ∧ kind ≠ .parameters ∧
      kind ≠ .defaultParameter ∧ kind ≠ .typedDefaultParameter) := by
    -- The kinds in the first cases have parts without definitions; the parts of all others are
    -- evaluated.
    cases kind
    case identifier | comment | globalStatement | nonlocalStatement =>
      exact .inl hc.hasNoDefinition
    case importStatement | importFromStatement | futureImportStatement =>
      exact .inl hc.1.hasNoDefinition
    case assignment | augmentedAssignment => exact .inl hc.1
    case parameters | typedParameter | defaultParameter | typedDefaultParameter =>
      exact .inl hc.1.hasNoDefinition
    case lambdaParameters => exact .inl hc.hasNoDefinition
    case memberAccess | keywordArgument | namedExpression | forInClause | forStatement
        | decorator => exact .inr ⟨hc.1, by decide⟩
    case lambda => exact hc.symm.imp (·.2.2.hasNoDefinition) fun h => ⟨h.1, by decide⟩
    case genericType => exact hc.symm.imp (·.2.2.hasNoDefinition) fun h => ⟨h, by decide⟩
    case decoratedDefinition => exact hc.symm.imp (·.2.2.hasNoDefinition) fun h => ⟨h.1, by decide⟩
    case functionDefinition | classDefinition =>
      rcases hc with hbody | hordinary | hnone
      · exact .inr ⟨isOrdinary_of_isKind_block hbody.1 hbody.2, by decide⟩
      · exact .inr ⟨hordinary.1, by decide⟩
      · exact .inl hnone.1.hasNoDefinition
    all_goals exact .inr ⟨hc, by decide⟩
  rcases hparts with hnone | ⟨hordinary, hkinds⟩
  · exact hnone
  · rw [isEvaluated_of_isOrdinary ?_ ?_ hordinary] at h
    · cases h
    · simp [hkinds]
    · simp [hasDefault, hkinds]

theorem isEvaluated_of_entersBody {c : Tree} (hc : Fits kind c)
    (h : entersBody (.node kind role extent children) c) :
    isEvaluated (.node kind role extent children) c := by
  rw [entersBody, isDefinition_node, Bool.and_eq_true] at h
  have hblock : c.isKind .block := isKind_block_of_fits h.1 hc h.2
  have hkinds : kind ≠ .parameters ∧ kind ≠ .defaultParameter ∧ kind ≠ .typedDefaultParameter := by
    have hkind := h.1
    cases kind <;> first | decide | cases hkind
  refine isEvaluated_of_isOrdinary ?_ ?_ (isOrdinary_of_isKind_block h.2 hblock)
  · simp [hkinds]
  · simp [hasDefault, hkinds]

/-- The calls behind the bodies of definitions are the own calls of these. -/
theorem callsBehind_entersBody_perm (h : Shaped t) :
    (callsBehind isEvaluated entersBody t).Perm (t.definitions.flatMap (ownCalls isOwned)) := by
  induction h with
  | @node kind role extent children fits complete shaped ih =>
    let t : Tree := .node kind role extent children
    -- A child is a body, or its calls lie behind bodies further inside, or it is not evaluated at all.
    have hpart : ∀ c ∈ children, (if isEvaluated t c then
        if entersBody t c then callsVia isEvaluated c else callsBehind isEvaluated entersBody c
        else []).Perm ((if entersBody t c then callsVia isOwned c else []) ++
          c.definitions.flatMap (ownCalls isOwned)) := by
      intro c hc
      by_cases hevaluated : isEvaluated t c
      · rw [if_pos hevaluated]
        by_cases hbody : entersBody t c
        · rw [if_pos hbody, if_pos hbody]
          exact (callsVia_perm isEvaluated entersBody c).trans ((ih c hc).append_left _)
        · rw [if_neg hbody, if_neg hbody]
          exact ih c hc
      · have hbody : entersBody t c = false := by
          rw [Bool.eq_false_iff]
          exact fun h => hevaluated (isEvaluated_of_entersBody (fits c hc) h)
        have hnone : c.HasNoDefinition :=
          hasNoDefinition_of_not_isEvaluated (fits c hc) (Bool.eq_false_iff.2 hevaluated)
        rw [if_neg hevaluated, hbody, hnone.definitions_eq_nil]
        exact .refl _
    rw [callsBehind, callsBehindOf_eq_flatMap, definitions_node, List.flatMap_append,
      List.flatMap_assoc]
    refine (List.Perm.flatMap_left _ hpart).trans
      ((List.flatMap_append_perm ..).symm.trans (.append_right _ (.of_eq ?_)))
    by_cases hkind : kind.isDefinition
    · rw [if_pos hkind, List.flatMap_singleton, ownCalls_of_isDefinition (d := t) hkind, bodyCalls_node]
      simp only [entersBody, t, isDefinition_node, hkind, Bool.true_and]
    · rw [if_neg hkind, List.flatMap_nil, List.flatMap_eq_nil_iff]
      intro c _
      simp only [entersBody, t, isDefinition_node, hkind, Bool.false_and, Bool.false_eq_true, if_false]

theorem callsVia_isEvaluated_perm (h : Shaped t) (hdefinition : t.isDefinition = false) :
    (callsVia isEvaluated t).Perm ((owners t).flatMap (ownCalls isOwned)) := by
  rw [owners, List.flatMap_cons, ownCalls_of_not_isDefinition hdefinition]
  exact (callsVia_perm isEvaluated entersBody t).trans ((callsBehind_entersBody_perm h).append_left _)

end SourceCorpus.Extraction
