import SourceCorpus.Proofs.Syntax.Reading
import SourceCorpus.Syntax.Expression

/-!
Expressions are read as plain trees. Main statement: so is every operand with the operators applied
to it, if the constructs nested in it are read as they should.
-/

namespace SourceCorpus.Syntax

open SourceCorpus.Syntax.Tree

structure IsBlock (t : Tree) : Prop where
  shaped : Shaped t
  isOrdinary : t.isOrdinary = true
  isBlock : t.isKind .block

structure IsParameter (t : Tree) : Prop where
  shaped : Shaped t
  fits : Fits .parameters t

structure IsParameterList (kind : Kind) (t : Tree) : Prop where
  shaped : Shaped t
  hasNoDeclaration : t.HasNoDeclaration
  isList : t.isKind kind

structure IsNamePart (t : Tree) : Prop where
  plain : Plain t
  isName : IsParameterName t

structure IsTypePart (t : Tree) : Prop where
  part : Part .typedParameter t
  isType : t.isKind .type
  inRole : t.hasRole .type

structure IsUntypedPart (t : Tree) : Prop where
  part : Part .typedParameter t
  untyped : t.hasRole .type = false

/-- What stands in parentheses. If it is a target, that is a tuple. -/
structure IsBracket (t : Tree) : Prop where
  plain : Plain t
  target : ∀ target, t.asTarget? = some target → target.isKind .tuplePattern

theorem Plain.isParameter {t : Tree} (h : Plain t) (hform : IsParameterForm t) : IsParameter t := by
  refine ⟨h.shaped, h.hasNoDeclaration, ?_⟩
  have hordinary := h.isOrdinary
  cases hparameters : t.isKind .parameters with
  | false => simp_all [Tree.isOrdinary]
  | true =>
    have hkind : t.kind? = some .parameters := by simpa [isKind] using hparameters
    simp [Tree.isOrdinary, hkind, Kind.isConfined] at hordinary

/-- A plain node that becomes the name of a parameter. -/
theorem Plain.isUntypedPart_name {t : Tree} (h : Plain t) : IsUntypedPart (t.withRole .name) := by
  refine ⟨(h.withRole rfl).part ⟨h.hasNoDeclaration.withRole _, fun _ => ?_⟩, ?_⟩
  · exact (h.withRole rfl).isOrdinary
  · rw [h.shaped.hasRole_withRole]
    rfl

/-- What may stand on the right of an assignment: an expression or an assignment. -/
structure IsAssignable (t : Tree) : Prop where
  shaped : Shaped t
  hasNoDefinition : t.HasNoDefinition
  isOrdinary : t.isOrdinary = true
  declares : t.isAssignment ∨ t.HasNoDeclaration

/-- What nodes a construct is read as. -/
def Rule.Yields : Rule → List Tree → Prop
  | .expression .. | .interpolation _ => One Plain
  | .suite => One IsBlock
  | .rightSide => One IsAssignable
  | .casePattern | .simpleCasePattern => All Plain

namespace Parse

variable {self : Rule → Parse Unit} {older : List Tree} {T : Tree → Prop}

/-- Plain nodes in an ordinary role. -/
theorem adds_inRole_plain {role : Role} {body : Parse Unit} (hrole : role.isOrdinary)
    (h : Adds body (All Plain)) : Adds (inRole role body) (All Plain) :=
  adds_inRole h fun _ hts => hts.map fun _ ht => ht.withRole hrole

/-- Plain nodes that have their place in a node of the kind by their role. -/
theorem adds_inRole_part {role : Role} {kind : Kind} {body : Parse Unit} (hrole : role.isOrdinary)
    (hfits : ∀ t, Plain t → t.hasRole role → Fits kind t) (h : Adds body (All Plain)) : Adds (inRole role body) (All (Part kind)) :=
  adds_inRole h fun _ hts => hts.map fun _ ht =>
    (ht.withRole hrole).part (hfits _ (ht.withRole hrole) (ht.hasRole_withRole role))

/-- Names have their place without regard to their role. -/
theorem adds_inRole_name {role : Role} {kind : Kind} {body : Parse Unit} (hrole : role.isOrdinary)
    (hfits : ∀ t, IsName t → Fits kind t) (h : Adds body (One IsName)) :
    Adds (inRole role body) (All (Part kind)) :=
  adds_inRole h fun _ hts => hts.all.map fun _ ht =>
    (ht.withRole hrole).plain.part (hfits _ (ht.withRole hrole))

theorem adds_leaf_plain {kind : Kind} (hkind : kind.isPlain) (l : Lookahead) :
    Adds (leaf kind l) (One Plain) :=
  (adds_leaf (Kind.isTrivia_of_isPlain hkind) l).imp fun _ hts =>
    hts.imp fun _ ht => (ht.isName hkind).plain

/-- Nodes are replaced by their targets only if all of them have one. -/
theorem runs_retarget_of {count : Nat} (hcount : count = older.length) {L L' : List Tree → Prop}
    (h : ∀ ts, L ts → (∀ t ∈ ts, t.asTarget?.isSome) → L' (ts.map fun t => t.asTarget?.getD t)) :
    Runs (Holds older L) (retarget count) (Holds older L') := by
  -- First all nodes are looked at, and only then are they replaced, so that each replacement
  -- succeeds.
  have hchecked : Runs (Holds older L) (since count >>= fun ts => forIn ts PUnit.unit fun t _ => do
      if t.asTarget?.isNone then fail t.start
      pure (ForInStep.yield PUnit.unit))
      (Holds older fun ts => L ts ∧ ∀ t ∈ ts, t.asTarget?.isSome) := by
    intro s a s' hs hp
    obtain ⟨hlength, recent, hfinished, hgaps, hL⟩ := hs
    have hrecent : s.finished.take (s.count - count) = recent := by
      rw [hlength, hcount, hfinished, length_sub_length, List.take_left]
    have hloop := forIn_checks (c := fun t => t.asTarget?.isSome) ?_ _ hp
    rotate_left
    · intro t u s step s' hstep
      cases htarget : t.asTarget? with
      | none =>
        rw [htarget] at hstep
        cases hstep
      | some target =>
        rw [htarget] at hstep
        cases hstep
        exact ⟨rfl, ⟨_, rfl⟩, rfl⟩
    obtain ⟨rfl, htargets⟩ := hloop
    rw [hrecent] at htargets
    exact ⟨hlength, recent, hfinished, hgaps, hL, fun t ht => htargets t (List.mem_reverse.2 ht)⟩
  have hreplaced : Runs (Holds older fun ts => L ts ∧ ∀ t ∈ ts, t.asTarget?.isSome)
      (mapSince count fun t => t.asTarget?.getD t) (Holds older L') := by
    refine runs_mapSince hcount (fun t ht => ?_) fun ts hts => h ts hts.1 hts.2
    cases htarget : t.asTarget? with
    | none => exact ht
    | some target => exact (isTrivia_asTarget? htarget).trans ht
  have hboth := hchecked.bind fun _ => hreplaced
  rwa [bind_assoc] at hboth

theorem runs_retarget {count : Nat} (hcount : count = older.length) :
    Runs (Holds older (All Plain)) (retarget count) (Holds older (All Plain)) :=
  runs_retarget_of hcount fun _ hts _ => hts.map fun t ht => by
    cases htarget : t.asTarget? with
    | none => exact ht
    | some target => exact ht.asTarget? htarget

theorem runs_restarLone {count : Nat} (hcount : count = older.length) :
    Runs (Holds older (All Plain)) (mapSince count Tree.restarLone) (Holds older (All Plain)) :=
  runs_mapSince hcount (fun _ => isTrivia_restarLone) fun _ hts =>
    hts.map fun _ => Plain.restarLone

theorem runs_withRole_plain {count : Nat} (hcount : count = older.length) {role : Role}
    (hrole : role.isOrdinary) :
    Runs (Holds older (All Plain)) (mapSince count (·.withRole role)) (Holds older (All Plain)) :=
  runs_withRole hcount fun _ hts => hts.map fun _ ht => ht.withRole hrole

theorem adds_moreItems {item : Parse Unit} (h : Adds item (All T)) (closer : Sign) :
    Adds (moreItems item closer) (All T) := by
  refine .of_keeps fun older => .peek_bind fun l => .ite (fun _ => ?_) fun _ => ?_
  · exact .take_bind fun _ => .done _
  · refine .bind (.repeated ?_) fun _ => .done _
    refine .peek_bind fun l => .ite (fun _ => ?_) fun _ => .ite (fun _ => ?_) fun _ => ?_
    · exact .take_bind fun _ => .done _
    · refine .take_bind fun _ => .peek_bind fun next => .ite (fun _ => ?_) fun _ => ?_
      · exact .take_bind fun _ => .done _
      · exact h.keeps.bind fun _ => .done _
    · exact runs_fail _

section

variable (hself : ∀ rule, Adds (self rule) rule.Yields)
include hself

theorem adds_expression_one (level : Nat) (opened : Bool) (follow : Expected) :
    Adds (self (.expression level opened follow)) (One Plain) := hself _

theorem adds_expression_all (level : Nat) (opened : Bool) (follow : Expected) :
    Adds (self (.expression level opened follow)) (All Plain) :=
  (adds_expression_one hself level opened follow).all

theorem adds_expressionIn (follow : Expected) : Adds (expressionIn self follow) (All Plain) :=
  adds_expression_all hself 0 false follow

theorem adds_expressionList (follow : Expected) :
    Adds (expressionList self follow) (One Plain) := by
  refine .peek_bind fun l => .mark l fun older m hm => ?_
  refine (adds_expression_one hself 0 false follow older).bind fun _ => ?_
  refine .peek_bind fun l => .ite (fun _ => .of_one ?_) fun _ => .done _
  refine .bind (.repeated ?_) fun _ => runs_close_plain hm rfl
  refine .peek_bind fun l => .ite (fun _ => ?_) fun _ => .done _
  refine .take_bind fun _ => .peek_bind fun next => .ite (fun _ => ?_) fun _ => .done _
  exact (adds_expressionIn hself follow).keeps.bind fun _ => .done _

theorem adds_yieldExpression (l : Lookahead) (follow : Expected) :
    Adds (yieldExpression self l follow) (One Plain) := by
  refine .node Plain l fun older m hm => .take_bind fun _ => .peek_bind fun next => ?_
  have hclose : Runs (Holds older (All Plain)) (close m .yield) (Holds older (One Plain)) :=
    runs_close_plain hm rfl
  refine .ite (fun _ => ?_) fun _ => .ite (fun _ => ?_) fun _ => hclose
  · exact .take_bind fun _ => (adds_expressionIn hself follow).keeps.bind fun _ => hclose
  · exact (adds_expressionList hself follow).all.keeps.bind fun _ => hclose

theorem adds_splat {kind : Kind} (hkind : kind.isPlain) (l : Lookahead) :
    Adds (splat self kind l) (One Plain) := by
  refine .node Plain l fun older m hm => .take_bind fun _ => .peek_bind fun next => ?_
  have hrest : Runs (Holds older (All Plain))
      (do expressionIn self .bracketed; close m kind) (Holds older (One Plain)) :=
    (adds_expressionIn hself _).keeps.bind fun _ => runs_close_plain hm hkind
  exact .ite (fun _ => .bind (runs_fail _) fun _ => hrest) fun _ => hrest

/-! ### Comprehensions -/

theorem adds_loopTargets : Adds (loopTargets self) (All Plain) := by
  have hoperand := adds_expression_all hself Level.postfix_ false {}
  refine .peek_bind fun l => .node Plain l fun older m hm => ?_
  refine hoperand.keeps.bind fun _ => .peek_bind fun l => .ite (fun _ => ?_) fun _ => ?_
  · refine .bind (.repeated ?_) fun _ => .bind (runs_retarget hm) fun _ => ?_
    · refine .peek_bind fun l => .ite (fun _ => ?_) fun _ => .done _
      refine .take_bind fun _ => .peek_bind fun next => .ite (fun _ => ?_) fun _ => .done _
      exact hoperand.keeps.bind fun _ => .done _
    · exact runs_close_all_plain hm rfl
  · exact runs_retarget hm

theorem adds_forInClause (l : Lookahead) : Adds (forInClause self l) (One Plain) := by
  have hleft : Adds (inRole .left (loopTargets self)) (All (Part .forInClause)) :=
    adds_inRole_part rfl (fun t ht hrole => ⟨ht.isOrdinary, ht.hasNoDeclaration, .inl hrole⟩)
      (adds_loopTargets hself)
  have hright : Adds (inRole .right (self (.expression Level.aliased false .bracketed)))
      (All (Part .forInClause)) :=
    adds_inRole_part rfl (fun t ht hrole => ⟨ht.isOrdinary, ht.hasNoDeclaration, .inr (.inl hrole)⟩)
      (adds_expression_all hself _ _ _)
  refine .node (Part .forInClause) l fun older m hm => ?_
  have hrest : Runs (Holds older (All (Part .forInClause))) (do
      keyword .for
      inRole .left (loopTargets self)
      keyword .in
      repeated do
        inRole .right (self (.expression Level.aliased false .bracketed))
        let l ← peek .bracketed
        if l.isSign .comma then
          take l
          let next ← peek (.operand true)
          return next.beginsExpression && !next.beginsFor && !next.isWord .if
        else return false
      close m .forInClause) (Holds older (One Plain)) := by
    refine .quiet_bind (quiet_keyword _ _) fun _ => hleft.keeps.bind fun _ => ?_
    refine .quiet_bind (quiet_keyword _ _) fun _ => .bind (.repeated ?_) fun _ => ?_
    · refine hright.keeps.bind fun _ => .peek_bind fun l => .ite (fun _ => ?_) fun _ => .done _
      exact .take_bind fun _ => .peek_bind fun _ => .done _
    · exact runs_close_parts hm rfl rfl rfl fun _ => trivial
  exact .ite (fun _ => .take_bind fun _ => hrest) fun _ => hrest

theorem adds_comprehensionClauses : Adds (comprehensionClauses self) (All Plain) := by
  refine .of_keeps fun older => .repeated (.peek_bind fun l => .ite (fun _ => ?_) fun _ => ?_)
  · exact (adds_forInClause hself l).all.keeps.bind fun _ => .done _
  · refine .ite (fun _ => ?_) fun _ => .done _
    refine .mark l fun inner m hm hback => .of_all (T := Plain) (.take_bind fun _ => ?_)
    refine (adds_expression_all hself _ _ _).keeps.bind fun _ => ?_
    exact (runs_close_plain hm rfl).bind fun _ => .of_one (.back hback (.done _))

/-! ### Brackets -/

theorem adds_element : Adds (element self) (One Plain) :=
  .peek_bind fun l => .ite (fun _ => adds_yieldExpression hself l _) fun _ =>
    .ite (fun _ => adds_splat hself rfl l) fun _ => adds_expression_one hself _ _ _

theorem adds_body_element : Adds (inRole .body (element self)) (All Plain) :=
  adds_inRole_plain rfl (adds_element hself).all

omit hself in
theorem runs_close_bracket {m : Mark} (hm : m.count = older.length) {kind : Kind}
    (hkind : kind = .tuple ∨ kind = .parenthesizedExpression ∨ kind = .generatorExpression) :
    Runs (Holds older (All Plain)) (close m kind) (Holds older (One IsBracket)) := by
  have hplain : kind.isPlain := by rcases hkind with rfl | rfl | rfl <;> rfl
  refine runs_close_all hm (Kind.isTrivia_of_isPlain hplain) fun extent children h => ?_
  refine ⟨.node hplain rfl fun c hc => (h c hc).elim IsGap.plain id, fun target htarget => ?_⟩
  rcases hkind with rfl | rfl | rfl
  · obtain ⟨targets, -, rfl⟩ := Option.map_eq_some_iff.1 htarget
    rfl
  · obtain ⟨targets, -, rfl⟩ := Option.map_eq_some_iff.1 htarget
    rfl
  · cases htarget

theorem adds_bracket (l : Lookahead) : Adds (parenthesized self l) (One IsBracket) := by
  refine .node Plain l fun older m hm => .take_bind fun _ => .peek_bind fun first => ?_
  have htuple := runs_close_bracket hm (.inl rfl)
  refine .ite (fun _ => .take_bind fun _ => htuple) fun _ => ?_
  refine (adds_body_element hself).keeps.bind fun _ => .peek_bind fun next => ?_
  refine .ite (fun _ => ?_) fun _ => ?_
  · refine (adds_comprehensionClauses hself).keeps.bind fun _ => ?_
    exact .quiet_bind (quiet_sign _ _) fun _ => runs_close_bracket hm (.inr (.inr rfl))
  · refine (adds_moreItems (adds_element hself).all _).keeps.bind fun _ => ?_
    refine .ite (fun _ => htuple) fun _ => ?_
    exact (runs_restarLone hm).bind fun _ => runs_close_bracket hm (.inr (.inl rfl))

theorem adds_parenthesized (l : Lookahead) : Adds (parenthesized self l) (One Plain) :=
  (adds_bracket hself l).imp fun _ hts => hts.imp fun _ ht => ht.plain

theorem adds_listDisplay (l : Lookahead) : Adds (listDisplay self l) (One Plain) := by
  refine .node Plain l fun older m hm => .take_bind fun _ => .peek_bind fun first => ?_
  refine .ite (fun _ => .take_bind fun _ => runs_close_plain hm rfl) fun _ => ?_
  refine (adds_body_element hself).keeps.bind fun _ => .peek_bind fun next => ?_
  refine .ite (fun _ => ?_) fun _ => ?_
  · refine (adds_comprehensionClauses hself).keeps.bind fun _ => ?_
    exact .quiet_bind (quiet_sign _ _) fun _ => runs_close_plain hm rfl
  · refine (adds_moreItems (adds_element hself).all _).keeps.bind fun _ => .ite (fun _ => ?_) fun _ => ?_
    · exact (runs_restarLone hm).bind fun _ => runs_close_plain hm rfl
    · exact runs_close_plain hm rfl

theorem runs_pairRest {m : Mark} (hm : m.count = older.length) :
    Runs (Holds older (All Plain)) (pairRest self m) (Holds older (One Plain)) := by
  have hvalue : Adds (inRole .value (expressionIn self .bracketed)) (All Plain) :=
    adds_inRole_plain rfl (adds_expressionIn hself _)
  refine .quiet_bind (quiet_sign _ _) fun _ => hvalue.keeps.bind fun _ => ?_
  exact runs_close_plain hm rfl

theorem adds_dictionaryItem : Adds (dictionaryItem self) (One Plain) := by
  refine .peek_bind fun l => .ite (fun _ => adds_splat hself rfl l) fun _ => ?_
  refine .node Plain l fun older m hm => ?_
  exact (adds_expression_all hself _ _ _).keeps.bind fun _ => runs_pairRest hself hm

theorem adds_dictionaryOrSet (l : Lookahead) : Adds (dictionaryOrSet self l) (One Plain) := by
  have hitems := (adds_moreItems (adds_dictionaryItem hself).all .closeBrace)
  refine .node Plain l fun older m hm => .take_bind fun _ => .peek_bind fun first => ?_
  have hcomprehension {kind : Kind} (hkind : kind.isPlain) : Runs (Holds older (All Plain)) (do
      comprehensionClauses self
      sign .closeBrace .bracketed
      close m kind) (Holds older (One Plain)) :=
    (adds_comprehensionClauses hself).keeps.bind fun _ =>
      .quiet_bind (quiet_sign _ _) fun _ => runs_close_plain hm hkind
  refine .ite (fun _ => .take_bind fun _ => runs_close_plain hm rfl) fun _ => ?_
  refine .ite (fun _ => .take_bind fun _ => ?_) fun _ => .ite (fun _ => ?_) fun _ => ?_
  · exact .quiet_bind (quiet_sign _ _) fun _ => runs_close_plain hm rfl
  · refine (adds_dictionaryItem hself).all.keeps.bind fun _ => ?_
    exact hitems.keeps.bind fun _ => runs_close_plain hm rfl
  · refine .mark first fun inner e he hback => .of_all (T := Plain) ?_
    refine (adds_body_element hself).keeps.bind fun _ => .peek_bind fun next => ?_
    refine .ite (fun _ => ?_) fun _ => ?_
    · refine (runs_pairRest hself he).bind fun _ => .of_one (.back hback (.peek_bind fun next => ?_))
      refine .ite (fun _ => hcomprehension rfl) fun _ => ?_
      exact hitems.keeps.bind fun _ => runs_close_plain hm rfl
    · refine .back hback (.ite (fun _ => hcomprehension rfl) fun _ => ?_)
      refine (adds_moreItems (adds_element hself).all _).keeps.bind fun _ => .ite (fun _ => ?_) fun _ => ?_
      · exact (runs_restarLone hm).bind fun _ => runs_close_plain hm rfl
      · exact runs_close_plain hm rfl

/-! ### Arguments and subscripts -/

theorem adds_argument : Adds (argument self) (All Plain) := by
  have hother : Adds (do
      self (.expression 0 true .bracketed)
      return true) (All Plain) := .of_keeps fun _ =>
    (adds_expression_all hself _ _ _).keeps.bind fun _ => .done _
  refine .peek_bind fun l => ?_
  split
  · exact .of_keeps fun _ => (adds_splat hself rfl l).all.keeps.bind fun _ => .done _
  · exact .of_keeps fun _ => (adds_splat hself rfl l).all.keeps.bind fun _ => .done _
  · refine .of_keeps fun older => .get fun before hbefore => .take_bind fun _ => ?_
    refine .peek_bind fun next => .bind (.set hbefore) fun _ => .ite (fun _ => ?_) fun _ => ?_
    · have hname : Adds (inRole .name (leaf .identifier l)) (All (Part .keywordArgument)) :=
        adds_inRole_name rfl (fun t ht => ⟨ht.plain.isOrdinary, .inr ht.isInert⟩)
          (adds_identifier_leaf l)
      have hvalue : Adds (inRole .value (expressionIn self .bracketed))
          (All (Part .keywordArgument)) :=
        adds_inRole_part rfl (fun t ht hrole => ⟨ht.isOrdinary, .inl hrole⟩)
          (adds_expressionIn hself _)
      refine .mark l fun inner m hm hback => .of_all (T := Part .keywordArgument) ?_
      refine hname.keeps.bind fun _ => .quiet_bind (quiet_sign _ _) fun _ => ?_
      refine hvalue.keeps.bind fun _ => ?_
      refine .bind (runs_close_parts hm rfl rfl rfl fun _ => trivial) fun _ => ?_
      exact .of_one (.back hback (.done _))
    · exact hother.keeps
  · exact hother

theorem adds_argumentList (generator : Bool) (l : Lookahead) :
    Adds (argumentList self generator l)
      (One fun t => Plain t ∧ (generator = true ∨ t.isKind .argumentList)) := by
  refine .node Plain l fun older m hm => .take_bind fun _ => .peek_bind fun first => ?_
  have hclose : Runs (Holds older (All Plain)) (close m .argumentList)
      (Holds older (One fun t => Plain t ∧ (generator = true ∨ t.isKind .argumentList))) :=
    runs_close_all hm rfl fun _ _ h =>
      ⟨.node rfl rfl fun c hc => (h c hc).elim IsGap.plain id, .inr rfl⟩
  refine .ite (fun _ => .take_bind fun _ => hclose) fun _ => .ite (fun _ => ?_) fun _ => ?_
  · exact .take_bind fun _ => .quiet_bind (quiet_sign _ _) fun _ => hclose
  · have hitem : Adds (do let _ ← argument self) (All Plain) :=
      .of_keeps fun _ => (adds_argument hself).keeps.bind fun _ => .done _
    refine (adds_argument hself).keeps.bind fun plain => .peek_bind fun next => ?_
    refine .ite (fun hfor => ?_) fun _ => ?_
    · have hgenerator : generator = true := by
        rw [Bool.and_eq_true, Bool.and_eq_true] at hfor
        exact hfor.1.1
      refine (runs_withRole_plain hm rfl).bind fun _ => ?_
      refine (adds_comprehensionClauses hself).keeps.bind fun _ => ?_
      refine .quiet_bind (quiet_sign _ _) fun _ => (runs_close_plain hm rfl).imp fun _ hs => ?_
      exact hs.imp fun _ hts => hts.imp fun _ ht => ⟨ht, .inl hgenerator⟩
    · exact (adds_moreItems hitem _).keeps.bind fun _ => hclose

theorem adds_subscriptItem : Adds (subscriptItem self) (All Plain) := by
  have hpart := adds_expression_all hself 0 true .bracketed
  refine .peek_bind fun l => .node Plain l fun older m hm => ?_
  have hclose : Runs (Holds older (All Plain)) (close m .slice) (Holds older (All Plain)) :=
    runs_close_all_plain hm rfl
  refine .optional hpart.keeps (.peek_bind fun colon => .ite (fun _ => ?_) fun _ => .done _)
  refine .take_bind fun _ => .peek_bind fun _ => .optional hpart.keeps ?_
  refine .peek_bind fun colon => .ite (fun _ => ?_) fun _ => hclose
  exact .take_bind fun _ => .peek_bind fun _ => .optional hpart.keeps hclose

theorem adds_subscriptItems : Adds (do
    subscriptItem self
    let _ ← moreItems (subscriptItem self) .closeBracket) (All Plain) :=
  .of_keeps fun _ => (adds_subscriptItem hself).keeps.bind fun _ =>
    (adds_moreItems (adds_subscriptItem hself) _).keeps.bind fun _ => .done _

theorem runs_postfixStep (follow : Expected) {m : Mark} (hm : m.count = older.length) :
    Runs (Holds older (One Plain)) (postfixStep self follow m) (Holds older (One Plain)) := by
  refine .peek_bind fun l => ?_
  split
  · have hmember : Adds (inRole .member identifier) (All (Part .memberAccess)) :=
      adds_inRole_name rfl (fun t ht => ⟨ht.plain.isOrdinary, .inr ht.isInert⟩) adds_identifier
    have hobject : Runs (Holds older (One Plain)) (mapSince m.count (·.withRole .object))
        (Holds older (All (Part .memberAccess))) :=
      runs_withRole hm fun _ hts => hts.all.map fun t ht => (ht.withRole rfl).part
        ⟨(ht.withRole rfl).isOrdinary, .inl (ht.hasRole_withRole _)⟩
    refine hobject.bind fun _ => .take_bind fun _ => hmember.keeps.bind fun _ => ?_
    exact .bind (runs_close_parts hm rfl rfl rfl fun _ => trivial) fun _ => .done _
  · have hfunction : Runs (Holds older (One Plain)) (mapSince m.count (·.withRole .function))
        (Holds older (Has (·.hasRole .function) Plain)) :=
      runs_withRole hm fun _ hts => by
        obtain ⟨t, rfl, ht⟩ := hts
        exact ⟨List.forall_mem_singleton.2 (ht.withRole rfl), t.withRole .function,
          List.mem_singleton_self _, ht.hasRole_withRole _⟩
    have harguments : Adds (inRole .arguments (argumentList self true l)) (All Plain) :=
      adds_inRole_plain rfl ((adds_argumentList hself true l).imp fun _ hts =>
        (hts.imp fun _ ht => ht.1).all)
    refine hfunction.bind fun _ => harguments.keeps_has.bind fun _ => ?_
    refine .bind (runs_close_has hm rfl fun extent children h hcallee => ?_) fun _ => .done _
    refine .of_parts rfl rfl rfl hcallee fun c hc => (h c hc).elim (fun hgap => hgap.part _) ?_
    exact fun hplain => hplain.part hplain.isOrdinary
  · refine .of_one ((runs_withRole_plain hm rfl).bind fun _ => .take_bind fun _ => ?_)
    refine (adds_inRole_plain rfl (adds_subscriptItems hself)).keeps.bind fun _ => ?_
    exact (runs_close_plain hm rfl).bind fun _ => .done _
  · exact .done _

/-! ### Strings -/

omit hself in
theorem adds_typeConversion : Adds typeConversion (All Plain) := by
  refine .peek_bind fun l => ?_
  split
  · exact .ite (fun _ => (adds_leaf_plain rfl _).all) fun _ => .of_keeps fun _ => .done _
  · exact .of_keeps fun _ => .done _

theorem adds_formatSpecifier : Adds (formatSpecifier self) (All Plain) := by
  have hhole : Adds (self (.interpolation true)) (One Plain) := hself (.interpolation true)
  refine .peek_bind fun l => .ite (fun _ => ?_) fun _ => .of_keeps fun _ => .done _
  refine .all (.node Plain l fun older m hm => .take_bind fun _ => .bind (.repeated ?_) fun _ => ?_)
  · refine .get fun s hs => ?_
    split
    · exact .get fun _ _ => runs_fail _
    · refine .ite (fun _ => ?_) fun _ => .ite (fun _ => .done _) fun _ => ?_
      · exact hhole.all.keeps.bind fun _ => .done _
      · exact .quiet_bind (quiet_skipChars 1) fun _ => .done _
  · exact runs_close_plain hm rfl

theorem adds_interpolation (nested : Bool) : Adds (interpolation self nested) (One Plain) := by
  have hexpression (first : Lookahead) : Adds (inRole .expression (
      if first.isWord .yield then yieldExpression self first .bracketed
      else expressionList self .bracketed)) (All Plain) :=
    adds_inRole_plain rfl (.ite (fun _ => (adds_yieldExpression hself first _).all) fun _ =>
      (adds_expressionList hself _).all)
  refine .inner fun before hbefore => .get fun here _ => .of_all (T := Plain) ?_
  refine .quiet_bind (quiet_skipChars 1) fun _ => .peek_bind fun first => ?_
  refine (hexpression first).keeps.bind fun _ => .peek_bind fun l => ?_
  refine .optional (quiet_take l _ _) (adds_typeConversion.keeps.bind fun _ => ?_)
  refine (adds_formatSpecifier hself).keeps.bind fun _ => .quiet_bind (quiet_sign _ _) fun _ => ?_
  refine runs_close_plain hbefore ?_
  cases nested <;> rfl

theorem adds_stringLiteral (l : Lookahead) (d : Delimiter) :
    Adds (stringLiteral self l d) (One Plain) := by
  refine .node Plain l fun older m hm => .take_bind fun _ => ?_
  refine .quiet_bind (.modify fun _ => ⟨rfl, rfl⟩) fun _ => .bind (.repeated ?_) fun _ => ?_
  · refine .get fun s hs => ?_
    split
    · exact .quiet_bind (quiet_skipChars _) fun _ => .done _
    · refine .quiet_bind (quiet_skipChars _) fun _ => ?_
      exact .quiet_bind (.modify fun _ => ⟨rfl, rfl⟩) fun _ => .done _
    · have hhole : Adds (self (.interpolation false)) (One Plain) := hself (.interpolation false)
      exact hhole.all.keeps.bind fun _ => .done _
    · exact runs_fail _
  · exact runs_close_plain hm rfl

theorem adds_strings (l : Lookahead) (d : Delimiter) (follow : Expected) :
    Adds (strings self l d follow) (One Plain) := by
  refine .mark l fun older m hm => (adds_stringLiteral hself l d older).bind fun _ => ?_
  refine .peek_bind fun next => ?_
  split
  · refine .of_one (.bind (.repeated (.peek_bind fun l => ?_)) fun _ => runs_close_plain hm rfl)
    split
    · exact (adds_stringLiteral hself _ _).all.keeps.bind fun _ => .done _
    · exact .done _
  · exact .done _

/-! ### Operands -/

theorem adds_atom (level : Nat) (follow : Expected) (l : Lookahead) :
    Adds (atom self level follow l) (One Plain) := by
  have hbracket {p : Parse Unit} (h : Adds p (One Plain)) :
      Adds (do p; return true) (One Plain) := fun older => (h older).bind fun _ => .done _
  have hliteral {kind : Kind} (hkind : kind.isPlain) :
      Adds (do leaf kind l; return true) (One Plain) := hbracket (adds_leaf_plain hkind l)
  unfold atom
  split
  case h_1 | h_2 | h_3 | h_5 | h_6 | h_7 => exact hliteral rfl
  case h_4 =>
    refine .mark l fun older m hm => (adds_identifier_leaf l older).bind fun _ => ?_
    refine .peek_bind fun next => .ite (fun _ => ?_) fun _ => ?_
    · have hvalue : Adds (inRole .value (self (.expression Level.or false follow)))
          (All (Part .namedExpression)) :=
        adds_inRole_part rfl (fun t ht hrole => ⟨ht.isOrdinary, .inl hrole⟩)
          (adds_expression_all hself _ _ _)
      have hname : Runs (Holds older (One IsName)) (mapSince m.count (·.withRole .name))
          (Holds older (All (Part .namedExpression))) :=
        runs_withRole hm fun _ hts => hts.all.map fun t ht =>
          have hname := ht.withRole rfl
          hname.plain.part ⟨hname.plain.isOrdinary, .inr hname.isInert⟩
      refine hname.bind fun _ => .take_bind fun _ => hvalue.keeps.bind fun _ => ?_
      exact .bind (runs_close_parts hm rfl rfl rfl fun _ => trivial) fun _ => .done _
    · exact .of_imp (fun _ hs => hs.imp fun _ hts => hts.imp fun _ ht => ht.plain) (.done _)
  case h_8 => exact hbracket (adds_parenthesized hself l)
  case h_9 => exact hbracket (adds_listDisplay hself l)
  case h_10 => exact hbracket (adds_dictionaryOrSet hself l)
  case h_11 => exact hbracket (adds_strings hself l _ follow)
  case h_12 => exact fun _ => runs_fail _

theorem adds_primary (level : Nat) (follow : Expected) (l : Lookahead) :
    Adds (primary self level follow l) (One Plain) := by
  refine .mark l fun older m hm => (adds_atom hself level follow l older).bind fun _ => ?_
  exact .ite (fun _ => .repeated (runs_postfixStep hself follow hm)) fun _ => .done _

theorem adds_starredOperand (follow : Expected) (l : Lookahead) :
    Adds (starredOperand self follow l) (One Plain) := by
  refine .inner fun before hbefore => .take_bind fun _ => .peek_bind fun next => ?_
  refine (adds_primary hself _ follow next _).bind fun _ => .quiet_bind (quiet_since _) fun ts => ?_
  refine .quiet_bind (.forIn (fun t _ => ?_) _ _) fun _ => ?_
  · split
    · exact Quiet.bind (quiet_fail _) fun _ => .pure _
    · exact Quiet.bind (.pure _) fun _ => .pure _
  · refine runs_mapSince hbefore (fun t ht => ?_) fun ts hts => hts.map fun t ht => ?_
    · cases hstar : t.starLeading? l.place with
      | none => exact ht
      | some t' => exact isTrivia_starLeading? hstar
    · cases hstar : t.starLeading? l.place with
      | none => exact ht
      | some t' => exact (ht.isStarred hstar).plain

/-! ### Parameters -/

theorem adds_typeBounds (follow : Expected) : Adds (typeBounds self follow) (All Plain) := by
  refine .of_keeps fun older => .repeated (.peek_bind fun l => .ite (fun _ => ?_) fun _ => .done _)
  exact .take_bind fun _ => (adds_expressionIn hself follow).keeps.bind fun _ => .done _

theorem adds_typeHint_type (bounded : Bool) (follow : Expected) :
    Adds (typeHint self bounded follow) (One fun t => Plain t ∧ t.isKind .type) := by
  refine .peek_bind fun l => .node Plain l fun older m hm => ?_
  refine (adds_expressionIn hself follow).keeps.bind fun _ => ?_
  refine .optional (adds_typeBounds hself follow).keeps (runs_close_all hm rfl fun _ _ h => ?_)
  exact ⟨.node rfl rfl fun c hc => (h c hc).elim IsGap.plain id, rfl⟩

theorem adds_typeHint (bounded : Bool) (follow : Expected) :
    Adds (typeHint self bounded follow) (One Plain) :=
  (adds_typeHint_type hself bounded follow).imp fun _ hts => hts.imp fun _ ht => ht.1

/-- A parameter's annotation. -/
theorem adds_parameterType (follow : Expected) :
    Adds (inRole .type (typeHint self true follow)) (All IsTypePart) := by
  refine adds_inRole (adds_typeHint_type hself true follow).all fun _ hts => hts.map fun t ht => ?_
  obtain ⟨hplain, hkind⟩ := ht
  have hnone : (t.withRole .type).HasNoDeclaration := hplain.hasNoDeclaration.withRole .type
  refine ⟨⟨⟨hnone, fun hvalue => ?_⟩, hplain.shaped.withRole .type, hnone⟩, ?_,
    hplain.hasRole_withRole .type⟩
  · rw [hplain.shaped.hasRole_withRole] at hvalue
    cases hvalue
  · rw [isKind_withRole, hkind]

/-- A parameter's default value. -/
theorem adds_parameterValue (follow : Expected) :
    Adds (inRole .value (expressionIn self follow)) (All IsUntypedPart) :=
  adds_inRole (adds_expressionIn hself follow) fun _ hts => hts.map fun t ht => by
    refine ⟨(ht.withRole rfl).part ⟨ht.hasNoDeclaration.withRole _, fun _ => ?_⟩, ?_⟩
    · exact (ht.withRole rfl).isOrdinary
    · rw [ht.shaped.hasRole_withRole]
      rfl

omit hself in
theorem isParameter_of_parts {kind : Kind} {extent : Extent} {children : List Tree}
    (hkind : kind = .typedParameter ∨ kind = .typedDefaultParameter ∨ kind = .defaultParameter)
    (h : ∀ c ∈ children, Part .typedParameter c)
    (hform : IsParameterForm (.node kind none extent children)) :
    IsParameter (.node kind none extent children) := by
  have hnot : kind.isDeclaration = false ∧ kind ≠ .parameters := by
    rcases hkind with rfl | rfl | rfl <;> decide
  refine ⟨.node (fun c hc => ?_) ?_ fun c hc => (h c hc).shaped, ?_, ?_, rfl, rfl, hform⟩
  · rcases hkind with rfl | rfl | rfl <;> exact (h c hc).fits
  · rcases hkind with rfl | rfl | rfl <;> trivial
  · exact avoids_node.2 ⟨hnot.1, fun c hc => (h c hc).hasNoDeclaration⟩
  · simpa [isKind, kind?] using hnot.2

omit hself in
/-- A name with an annotation. -/
theorem runs_close_typed {m : Mark} (hm : m.count = older.length) :
    Runs (HoldsFirst older IsNamePart (All IsTypePart)) (close m .typedParameter)
      (Holds older (All IsParameter)) := by
  refine .all (runs_close_first hm rfl fun extent first rest hfirst hgaps hrest => ?_)
  have hparts := isGap_or_of_content hgaps hrest
  refine isParameter_of_parts (.inl rfl) (List.forall_mem_cons.2 ⟨?_, fun c hc => ?_⟩)
    (.typed hfirst.isName fun c hc => ?_)
  · exact hfirst.plain.part ⟨hfirst.plain.hasNoDeclaration, fun _ => hfirst.plain.isOrdinary⟩
  · exact (hparts c hc).elim (fun hgap => hgap.part _) fun htype => htype.part
  · exact (hparts c hc).elim (fun hgap => .inr ⟨hgap.isTrivia, hgap.role?_eq_none⟩)
      fun htype => .inl ⟨htype.isType, htype.inRole⟩

omit hself in
theorem runs_close_default {m : Mark} (hm : m.count = older.length) :
    Runs (Holds older (Has (·.hasRole .name) IsUntypedPart)) (close m .defaultParameter)
      (Holds older (All IsParameter)) := by
  refine .all (runs_close_has hm rfl fun extent children h hname => ?_)
  refine isParameter_of_parts (.inr (.inr rfl)) (fun c hc => ?_) (.default hname fun c hc => ?_)
  · exact (h c hc).elim (fun hgap => hgap.part _) fun hpart => hpart.part
  · exact (h c hc).elim (fun hgap => hgap.hasRole_eq_false _) fun hpart => hpart.untyped

omit hself in
theorem runs_close_typedDefault {m : Mark} (hm : m.count = older.length) :
    Runs (Holds older (Has (·.hasRole .name) (Part .typedParameter)))
      (close m .typedDefaultParameter) (Holds older (All IsParameter)) := by
  refine .all (runs_close_has hm rfl fun extent children h hname => ?_)
  exact isParameter_of_parts (.inr (.inl rfl))
    (fun c hc => (h c hc).elim (fun hgap => hgap.part _) id) (.typedDefault hname)

omit hself in
/-- What has no role in the parameter yet is its name. -/
theorem runs_nameParameter {count : Nat} (hcount : count = older.length) :
    Runs (HoldsFirst older IsNamePart (All IsTypePart))
      (mapSince count fun t => if t.role?.isNone then t.withRole .name else t)
      (Holds older (Has (·.hasRole .name) (Part .typedParameter))) := by
  refine .of_imp (fun _ => HoldsFirst.holds) (runs_mapSince hcount (fun t ht => ?_) ?_)
  · split
    · exact (isTrivia_withRole _ t).trans ht
    · exact ht
  · rintro _ ⟨types, _, rfl, htypes, name, rfl, hname⟩
    have hrole : (if name.role?.isNone then name.withRole .name else name) = name.withRole .name :=
      if_pos (by rw [hname.isName.role]; rfl)
    rw [List.map_append, List.map_singleton, hrole]
    refine ⟨List.forall_mem_append.2 ⟨fun t ht => ?_, ?_⟩, name.withRole .name, ?_, ?_⟩
    · obtain ⟨u, hu, rfl⟩ := List.mem_map.1 ht
      have htype := (htypes u hu).inRole
      rw [hasRole, beq_iff_eq] at htype
      rw [if_neg (by rw [htype]; exact Bool.false_ne_true)]
      exact (htypes u hu).part
    · exact List.forall_mem_singleton.2 hname.plain.isUntypedPart_name.part
    · exact List.mem_append_right _ (List.mem_singleton_self _)
    · exact hname.plain.hasRole_withRole .name

/-- A name with a default value. -/
theorem runs_defaultRest {m : Mark} (hm : m.count = older.length) (l : Lookahead)
    (follow : Expected) :
    Runs (Holds older (One Plain)) (do
      mapSince m.count (·.withRole .name)
      take l
      inRole .value (expressionIn self follow)
      close m .defaultParameter) (Holds older (All IsParameter)) := by
  have hname : Runs (Holds older (One Plain)) (mapSince m.count (·.withRole .name))
      (Holds older (Has (·.hasRole .name) IsUntypedPart)) := by
    refine runs_withRole hm ?_
    rintro _ ⟨t, rfl, ht⟩
    exact ⟨List.forall_mem_singleton.2 ht.isUntypedPart_name, _, List.mem_singleton_self _,
      ht.hasRole_withRole .name⟩
  refine hname.bind fun _ => .take_bind fun _ => ?_
  exact (adds_parameterValue hself follow).keeps_has.bind fun _ => runs_close_default hm

theorem runs_parameterRest {m : Mark} (hm : m.count = older.length)
    (isLambda mayType mayDefault : Bool) :
    Runs (HoldsFirst older IsNamePart Nothing) (parameterRest self m isLambda mayType mayDefault)
      (Holds older (All IsParameter)) := by
  refine .first fun first hfirst hname => .peek_bind fun l => ?_
  have hone (s : Progress) (hs : Holds (first :: older) Nothing s) : Holds older (One IsNamePart) s :=
    HoldsFirst.one ⟨first, hfirst, hname, hs⟩
  refine .ite (fun _ => ?_) fun _ => .ite (fun _ => ?_) fun _ => ?_
  · have hbehind (s : Progress) (hs : Holds (first :: older) (All IsTypePart) s) :
        HoldsFirst older IsNamePart (All IsTypePart) s := ⟨first, hfirst, hname, hs⟩
    refine .take_bind fun _ => (adds_parameterType hself _ _).bind fun _ => .peek_bind fun l => ?_
    refine .of_imp hbehind (.ite (fun _ => ?_) fun _ => runs_close_typed hm)
    refine (runs_nameParameter hm).bind fun _ => .take_bind fun _ => ?_
    refine Runs.bind (Adds.keeps_has ?_) fun _ => runs_close_typedDefault hm
    exact (adds_parameterValue hself _).imp fun _ hts => hts.imp fun _ ht => ht.part
  · refine .of_imp (fun s hs => (hone s hs).imp fun _ hts => ?_) (runs_defaultRest hself hm l _)
    exact hts.imp fun _ ht => ht.plain
  · refine .of_imp (fun s hs => (hone s hs).imp fun _ hts => hts.all.imp fun _ ht => ?_) (.done _)
    exact ht.plain.isParameter (.name ht.isName)

/-- A tuple has no annotation. -/
theorem runs_tupleRest {m : Mark} (hm : m.count = older.length) (isLambda mayDefault : Bool) :
    Runs (Holds older (One fun t => Plain t ∧ t.isKind .tuplePattern))
      (parameterRest self m isLambda false mayDefault) (Holds older (All IsParameter)) := by
  refine .peek_bind fun l => .ite (fun htype => ?_) fun _ => .ite (fun _ => ?_) fun _ => ?_
  · rw [Bool.and_false] at htype
    cases htype
  · refine .of_imp (fun s hs => hs.imp fun _ hts => ?_) (runs_defaultRest hself hm l _)
    exact hts.imp fun _ ht => ht.1
  · refine .of_imp (fun s hs => hs.imp fun _ hts => hts.all.imp fun _ ht => ?_) (.done _)
    exact ht.1.isParameter (.tuple ht.2)

omit hself in
/-- A name behind stars. -/
theorem runs_close_stars {m : Mark} (hm : m.count = older.length) {kind : Kind}
    (hkind : kind = .listSplatPattern ∨ kind = .dictionarySplatPattern) :
    Runs (Holds older (One (IsLeaf .identifier))) (close m kind)
      (HoldsFirst older IsNamePart Nothing) := by
  have hplain : kind.isPlain := by rcases hkind with rfl | rfl <;> rfl
  refine runs_close_new hm (Kind.isTrivia_of_isPlain hplain) fun extent children hgaps hname => ?_
  have hparts := isGap_or_of_content hgaps hname.all
  obtain ⟨name, hcontent, -⟩ := hname
  refine ⟨.node hplain rfl fun c hc => ?_, rfl, ?_, fun c hc => ?_, fun _ hnone => ?_⟩
  · exact (hparts c hc).elim IsGap.plain fun hleaf => hleaf.isName_identifier.plain
  · rcases hkind with rfl | rfl
    · exact .inr (.inl rfl)
    · exact .inr (.inr rfl)
  · rcases hparts c hc with hgap | ⟨extent, rfl⟩
    · exact hgap.role?_eq_none
    · rfl
  · obtain rfl : children = [] := hnone
    cases hcontent

omit hself in
theorem runs_leaf_name (l : Lookahead) :
    Runs (Begins older) (leaf .identifier l) (HoldsFirst older IsNamePart Nothing) := by
  refine (runs_leaf_first rfl l).imp fun _ hs => hs.imp (fun t ht => ?_) fun _ => id
  refine ⟨ht.isName_identifier.plain, ?_⟩
  obtain ⟨extent, rfl⟩ := ht
  exact ⟨rfl, .inl rfl, List.forall_mem_nil _, fun hkind => nomatch hkind⟩

theorem adds_parameter (isLambda : Bool) : Adds (parameter self isLambda) (All IsParameter) := by
  have hseparator {older : List Tree} {kind : Kind}
      (hkind : kind = .keywordSeparator ∨ kind = .positionalSeparator) (l : Lookahead) :
      Runs (Begins older) (leaf kind l) (Holds older (All IsParameter)) := by
    have hplain : kind.isPlain := by rcases hkind with rfl | rfl <;> rfl
    refine .of_imp (fun _ => Holds.of_begins) ?_
    refine (adds_leaf (Kind.isTrivia_of_isPlain hplain) l older).imp fun _ hs => hs.imp fun _ hts =>
      hts.all.imp fun t ht => (ht.isName hplain).plain.isParameter (.separator ?_)
    obtain ⟨extent, rfl⟩ := ht
    simpa [isKind, kind?] using hkind
  refine .peek_bind fun l => .begin l fun older m hm => ?_
  have hbegins (s : Progress) (hs : Begins older s) : Holds older Nothing s := .of_begins hs
  split
  · refine .get fun before hbefore => ?_
    refine .of_imp hbegins (.take_bind fun _ => .peek_bind fun next => ?_)
    split
    · refine (adds_leaf rfl next older).bind fun _ => (runs_close_stars hm (.inl rfl)).bind fun _ => ?_
      exact runs_parameterRest hself hm _ _ _
    · exact .bind (.set hbefore) fun _ => hseparator (.inl rfl) l
  · refine .of_imp hbegins (.take_bind fun _ => (adds_identifier_one older).bind fun _ => ?_)
    exact (runs_close_stars hm (.inr rfl)).bind fun _ => runs_parameterRest hself hm _ _ _
  · exact hseparator (.inr rfl) l
  · refine .of_imp hbegins ((adds_bracket hself l older).bind fun _ => .bind ?_ fun _ =>
      runs_tupleRest hself hm _ _)
    refine runs_retarget_of hm ?_
    rintro _ ⟨t, rfl, ht⟩ htargets
    obtain ⟨target, htarget⟩ := Option.isSome_iff_exists.1 (htargets t (List.mem_singleton_self t))
    rw [List.map_singleton, htarget, Option.getD_some]
    exact ⟨target, rfl, ht.plain.asTarget? htarget, ht.target target htarget⟩
  · exact (runs_leaf_name l).bind fun _ => runs_parameterRest hself hm _ _ _
  · exact runs_fail _

omit hself in
theorem runs_close_parameterList {m : Mark} (hm : m.count = older.length) {kind : Kind}
    (hkind : kind = .parameters ∨ kind = .lambdaParameters) :
    Runs (Holds older (All IsParameter)) (close m kind)
      (Holds older (One (IsParameterList kind))) := by
  have hnot : kind.isTrivia = false ∧ kind.isDeclaration = false := by
    rcases hkind with rfl | rfl <;> decide
  refine runs_close_all hm hnot.1 fun extent children h => ?_
  have hchildren : ∀ c ∈ children, IsParameter c := fun c hc =>
    (h c hc).elim (fun hgap => hgap.plain.isParameter (.trivia hgap.isTrivia)) id
  refine ⟨.node (fun c hc => ?_) ?_ fun c hc => (hchildren c hc).shaped, ?_, ?_⟩
  · rcases hkind with rfl | rfl
    · exact (hchildren c hc).fits
    · exact (hchildren c hc).fits.1
  · rcases hkind with rfl | rfl <;> trivial
  · exact avoids_node.2 ⟨hnot.2, fun c hc => (hchildren c hc).fits.1⟩
  · exact beq_self_eq_true _

theorem adds_parameters : Adds (parameters self) (One (IsParameterList .parameters)) := by
  refine .peek_bind fun l older => .optional (runs_fail _) ?_
  refine Adds.node IsParameter l (fun older m hm => .take_bind fun _ => ?_) older
  refine .bind (.repeated (.peek_bind fun l => ?_)) fun _ => runs_close_parameterList hm (.inl rfl)
  refine .ite (fun _ => .take_bind fun _ => .done _) fun _ => .ite (fun _ => ?_) fun _ => ?_
  · exact .get fun _ _ => .throw_bind _ _
  · refine (adds_parameter hself false).keeps.bind fun _ => .peek_bind fun l => ?_
    refine .ite (fun _ => .take_bind fun _ => .done _) fun _ => ?_
    refine .ite (fun _ => .take_bind fun _ => .done _) fun _ => .ite (fun _ => ?_) fun _ => runs_fail _
    exact .get fun _ _ => .throw _

theorem adds_lambdaParameters :
    Adds (lambdaParameters self) (One (IsParameterList .lambdaParameters)) := by
  refine .peek_bind fun l => .node IsParameter l fun older m hm => .bind (.repeated ?_) fun _ => ?_
  · refine (adds_parameter hself true).keeps.bind fun _ => .peek_bind fun l => ?_
    exact .ite (fun _ => .take_bind fun _ => .peek_bind fun _ => .done _) fun _ => .done _
  · exact runs_close_parameterList hm (.inr rfl)

theorem adds_lambdaExpression (level : Nat) (follow : Expected) (l : Lookahead) :
    Adds (lambdaExpression self level follow l) (One Plain) := by
  have hparameters : Adds (inRole .parameters (lambdaParameters self)) (All (Part .lambda)) :=
    adds_inRole (adds_lambdaParameters hself) fun _ hts => hts.all.map fun t ht => by
      have hnone : (t.withRole .parameters).HasNoDeclaration := ht.hasNoDeclaration.withRole _
      refine ⟨.inr ⟨?_, ?_, hnone⟩, ht.shaped.withRole _, hnone⟩
      · rw [isKind_withRole, ht.isList]
      · rw [ht.shaped.hasRole_withRole, beq_self_eq_true]
  have hbody (level' : Nat) : Adds (inRole .body (self (.expression level' false follow)))
      (All (Part .lambda)) :=
    adds_inRole_part rfl (fun _ ht hrole => .inl ⟨ht.isOrdinary, .inl hrole⟩)
      (adds_expression_all hself _ _ _)
  refine .node (Part .lambda) l fun older m hm => .take_bind fun _ => .peek_bind fun next => ?_
  refine .optional hparameters.keeps (.quiet_bind (quiet_sign _ _) fun _ => ?_)
  exact (hbody _).keeps.bind fun _ => runs_close_parts hm rfl rfl rfl fun _ => trivial

theorem adds_awaitExpression (level : Nat) (follow : Expected) (l : Lookahead) :
    Adds (awaitExpression self level follow l) (One Plain) := by
  refine .mark l fun older m hm => .get fun before hbefore => .take_bind fun _ => ?_
  refine .peek_bind fun next => .ite (fun _ => ?_) fun _ => ?_
  · refine .of_all ((adds_expression_all hself _ _ _).keeps.bind fun _ => ?_)
    exact runs_close_plain hm rfl
  · exact .bind (.set hbefore) fun _ => adds_primary hself level follow l older

theorem adds_prefixed (level : Nat) (follow : Expected) (l : Lookahead) :
    Adds (prefixed self level follow l) (One Plain) := by
  have hprimary := adds_primary hself level follow l
  refine .mark l fun older m hm => ?_
  have hunary {kind : Kind} (hkind : kind.isPlain) (level' : Nat) :
      Runs (Holds older Nothing) (do
        take l
        self (.expression level' false follow)
        close m kind) (Holds older (One Plain)) :=
    .take_bind fun _ => .of_all ((adds_expression_all hself _ _ _).keeps.bind fun _ =>
      runs_close_plain hm hkind)
  split
  · exact .ite (fun _ => hunary rfl _) fun _ => hprimary older
  · exact .ite (fun _ => adds_lambdaExpression hself level follow l older) fun _ => hprimary older
  · exact adds_awaitExpression hself level follow l older
  · exact hunary rfl _
  · exact hunary rfl _
  · exact hunary rfl _
  · exact adds_starredOperand hself follow l older
  · exact hprimary older

/-! ### Operators -/

omit hself in
theorem quiet_comparisonOperator (l : Lookahead) : Quiet (comparisonOperator l) := by
  refine (quiet_take l).bind fun _ => ?_
  split
  · refine (quiet_peek _).bind fun next => ?_
    split
    · exact quiet_take next
    · exact Quiet.get.bind fun _ => .throw _
  · split
    · refine (quiet_peek _).bind fun next => ?_
      split
      · exact quiet_take next
      · exact .pure _
    · exact .pure _

theorem runs_infixStep (level : Nat) (follow : Expected) {m : Mark} (hm : m.count = older.length) :
    Runs (Holds older (One Plain)) (infixStep self level follow m) (Holds older (One Plain)) := by
  have hexpression (level' : Nat) (follow' : Expected) :=
    adds_expression_all hself level' false follow'
  have hclose {kind : Kind} (hkind : kind.isPlain) : Runs (Holds older (All Plain))
      (do close m kind; return true) (Holds older (One Plain)) :=
    (runs_close_plain hm hkind).bind fun _ => .done _
  refine .peek_bind fun l => .ite (fun _ => .ite (fun _ => ?_) fun _ => .done _) fun _ => ?_
  · refine .of_one (.bind (.repeated (.peek_bind fun l => ?_)) fun _ => hclose rfl)
    refine .ite (fun _ => .quiet_bind (quiet_comparisonOperator l) fun _ => ?_) fun _ => .done _
    exact (hexpression _ _).keeps.bind fun _ => .done _
  · split
    · split
      · refine .ite (fun _ => .of_one (.take_bind fun _ => ?_)) fun _ => .done _
        exact (hexpression _ _).keeps.bind fun _ => hclose rfl
      · exact .done _
    · refine .ite (fun _ => .of_one (.take_bind fun _ => ?_)) fun _ => .done _
      exact (hexpression _ _).keeps.bind fun _ => hclose rfl
    · refine .ite (fun _ => .of_one (.take_bind fun _ => ?_)) fun _ => .done _
      exact (hexpression _ _).keeps.bind fun _ => hclose rfl
    · refine .ite (fun _ => .of_one (.take_bind fun _ => ?_)) fun _ => .done _
      refine (hexpression _ _).keeps.bind fun _ => .quiet_bind (quiet_keyword _ _) fun _ => ?_
      exact (hexpression _ _).keeps.bind fun _ => hclose rfl
    · have htarget (next : Lookahead) : Adds (inRole .asName do
          let target ← markAt next
          self (.expression Level.or false follow)
          close target .asPatternTarget) (All Plain) :=
        adds_inRole_plain rfl (.all (.node Plain next fun older target htarget =>
          (hexpression _ _).keeps.bind fun _ => runs_close_plain htarget rfl))
      refine .ite (fun _ => .of_one (.take_bind fun _ => .peek_bind fun next => ?_)) fun _ => .done _
      exact .optional (runs_fail _) ((htarget next).keeps.bind fun _ => hclose rfl)
    · exact .done _

theorem adds_expression (level : Nat) (opened : Bool) (follow : Expected) :
    Adds (expression self level opened follow) (One Plain) := by
  refine .peek_bind fun l => .mark l fun older m hm => ?_
  refine (adds_prefixed hself level follow l older).bind fun _ => ?_
  exact .repeated (runs_infixStep hself level follow hm)

end

end Parse

end SourceCorpus.Syntax
