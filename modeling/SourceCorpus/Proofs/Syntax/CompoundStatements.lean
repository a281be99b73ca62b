import SourceCorpus.Proofs.Syntax.SimpleStatements

/-!
Compound statements and blocks are read as trees in shape, if the constructs nested in them are read
as they should.
-/

namespace SourceCorpus.Syntax

open SourceCorpus.Syntax.Tree

structure IsBody (t : Tree) : Prop extends IsStatement t where
  isBlock : t.isKind .block
  isBody : t.hasRole .body

structure IsDefinition (t : Tree) : Prop extends IsWhole t where
  isDefinition : t.isDefinition

structure IsLoopHeader (c : Tree) : Prop extends Member .forStatement c where
  isNoAlternative : c.hasRole .alternative = false

/-- No body is newer than an alternative. -/
def InOrder (ts : List Tree) : Prop :=
  ts.Pairwise fun later c => ¬(c.hasRole .alternative ∧ later.hasRole .body)

theorem inOrder_append {new old : List Tree} (hnew : ∀ t ∈ new, ¬t.hasRole .body)
    (hold : ∀ c ∈ old, ¬c.hasRole .alternative) : InOrder (new ++ old) := by
  refine List.pairwise_append.2 ⟨?_, ?_, fun t ht c _ hroles => hnew t ht hroles.2⟩
  · exact List.pairwise_of_forall_mem_list fun t ht _ _ hroles => hnew t ht hroles.2
  · exact List.pairwise_of_forall_mem_list fun _ _ c hc hroles => hold c hc hroles.1

theorem isDefinition_withRole (t : Tree) (role : Role) :
    (t.withRole role).isDefinition = t.isDefinition := by
  cases t <;> rfl

namespace Parse

variable {self : Rule → Parse Unit} {older : List Tree}

/-- The end of a compound statement. -/
theorem runs_close_whole {m : Mark} (hm : m.count = older.length) {kind : Kind}
    (hkind : kind.isPlain) (hbranching : kind.isBranching) :
    Runs (Holds older (All IsStatement)) (close m kind) (Holds older (All IsWhole)) := by
  refine .all (runs_close_all hm (Kind.isTrivia_of_isPlain hkind) fun extent children h => ?_)
  refine ⟨.node (Kind.isConfined_of_isPlain hkind) (isComplete_of_isPlain hkind children) ?_,
    .inr (.branch hbranching)⟩
  exact fun c hc => (h c hc).elim (fun hgap => hgap.member kind) fun ht => ht.member hkind

theorem adds_inRole_statement {role : Role} {body : Parse Unit} (hrole : role.isOrdinary)
    (h : Adds body (All IsStatement)) : Adds (inRole role body) (All IsStatement) :=
  adds_inRole h fun _ hts => hts.map fun _ ht => ht.withRole hrole

section

variable (hself : ∀ rule, Adds (self rule) rule.Yields)
include hself

theorem adds_colonSuite_one : Adds (colonSuite self) (One IsBody) := by
  have hbody : Adds (inRole .body (self .suite)) (One IsBody) :=
    adds_inRole (hself .suite) fun _ hts => hts.map fun t ht => by
      have hstatement : IsStatement t := ⟨ht.shaped, ht.isOrdinary⟩
      refine ⟨hstatement.withRole rfl, ?_, ?_⟩
      · rw [isKind_withRole, ht.isBlock]
      · rw [ht.shaped.hasRole_withRole, beq_self_eq_true]
  exact fun older => .quiet_bind (quiet_sign _ _) fun _ => hbody older

theorem adds_colonSuite : Adds (colonSuite self) (All IsStatement) :=
  (adds_colonSuite_one hself).all.imp fun _ hts => hts.imp fun _ ht => ht.toIsStatement

theorem adds_expressionIn_statement (follow : Expected) :
    Adds (expressionIn self follow) (All IsStatement) :=
  (adds_expressionIn hself follow).statements

theorem adds_clause {kind : Kind} (hkind : kind.isPlain) (l : Lookahead) {header : Parse Unit}
    (h : Adds header (All IsStatement)) : Adds (clause self kind l header) (All IsStatement) :=
  .node IsStatement l fun _ _ hm => .take_bind fun _ => h.keeps.bind fun _ =>
    (adds_colonSuite hself).keeps.bind fun _ => runs_close_statement hm hkind

theorem adds_alternative : Adds (elseClause self)
    (All fun t => IsStatement t ∧ t.hasRole .alternative ∧ t.hasRole .body = false) := by
  refine .peek_bind fun l => .ite (fun _ => ?_) fun _ => .of_keeps fun _ => .done _
  refine adds_inRole (adds_clause hself rfl l (.of_keeps fun _ => .done _)) fun _ hts => ?_
  refine hts.map fun t ht => ⟨ht.withRole rfl, ?_, ht.shaped.hasRole_withRole _ _⟩
  rw [ht.shaped.hasRole_withRole, beq_self_eq_true]

theorem adds_elseClause : Adds (elseClause self) (All IsStatement) :=
  (adds_alternative hself).imp fun _ hts => hts.imp fun _ ht => ht.1

theorem adds_ifStatement (l : Lookahead) : Adds (ifStatement self l) (All IsWhole) := by
  have hcondition := adds_expressionIn_statement hself {}
  refine .node IsStatement l fun older m hm => .take_bind fun _ => hcondition.keeps.bind fun _ => ?_
  refine (adds_colonSuite hself).keeps.bind fun _ => .bind (.repeated ?_) fun _ => ?_
  · refine .peek_bind fun l => .ite (fun _ => ?_) fun _ => .done _
    refine .bind (Adds.keeps ?_) fun _ => .done _
    exact adds_inRole_statement rfl (adds_clause hself rfl l hcondition)
  · exact (adds_elseClause hself).keeps.bind fun _ => runs_close_whole hm rfl rfl

theorem adds_whileStatement (l : Lookahead) : Adds (whileStatement self l) (All IsWhole) := by
  refine .node IsStatement l fun older m hm => .take_bind fun _ => ?_
  refine (adds_expressionIn_statement hself _).keeps.bind fun _ => ?_
  refine (adds_colonSuite hself).keeps.bind fun _ => ?_
  exact (adds_elseClause hself).keeps.bind fun _ => runs_close_whole hm rfl rfl

theorem adds_handled : Adds (handled self) (All IsStatement) := by
  have hexpression := adds_expressionIn hself {}
  refine Adds.statements (.peek_bind fun next => .ite (fun _ => ?_) fun _ => .of_keeps fun _ => .done _)
  refine .of_keeps fun older => hexpression.keeps.bind fun _ => .peek_bind fun l => ?_
  refine .ite (fun _ => .take_bind fun _ => ?_) fun _ => .done _
  exact (adds_inRole_plain rfl hexpression).keeps

theorem adds_tryStatement (l : Lookahead) : Adds (tryStatement self l) (All IsWhole) := by
  refine .node IsStatement l fun older m hm => .take_bind fun _ => ?_
  refine (adds_colonSuite hself).keeps.bind fun _ => .peek_bind fun first => ?_
  have hclose : Runs (Holds older (All IsStatement)) (close m .tryStatement)
      (Holds older (All IsWhole)) := runs_close_whole hm rfl rfl
  have hfinally (l : Lookahead) : Adds (clause self .finallyClause l (pure ())) (All IsStatement) :=
    adds_clause hself rfl l (.of_keeps fun _ => .done _)
  refine .ite (fun _ => .bind (.repeated ?_) fun _ => ?_) fun _ => .ite (fun _ => ?_) fun _ => ?_
  · refine .peek_bind fun l => .ite (fun _ => .ite (fun _ => ?_) fun _ => ?_) fun _ => .done _
    · refine .bind (Adds.keeps ?_) fun _ => .done _
      exact adds_clause hself rfl _ (adds_expressionIn_statement hself _)
    · exact (adds_clause hself rfl l (adds_handled hself)).keeps.bind fun _ => .done _
  · refine (adds_elseClause hself).keeps.bind fun _ => .peek_bind fun l => ?_
    exact .optional (hfinally l).keeps hclose
  · exact (hfinally first).keeps.bind fun _ => hclose
  · exact runs_fail_bind _ _

/-! ### Loops -/

omit hself in
theorem runs_close_forStatement {m : Mark} (hm : m.count = older.length) :
    Runs (Holds older fun ts => All (Member .forStatement) ts ∧ InOrder ts) (close m .forStatement)
      (Holds older (All IsWhole)) := by
  refine .all (runs_close hm rfl fun extent children hgaps hts =>
    ⟨.node rfl ?_ fun c hc => ?_, .inr (.branch rfl)⟩)
  · have hcontent : (content children).Pairwise fun c later =>
        ¬(c.hasRole .alternative ∧ later.hasRole .body) := List.pairwise_reverse.1 hts.2
    refine (List.pairwise_filter.1 hcontent).imp_of_mem fun {c later} hc hlater h hroles => ?_
    have hrole {t : Tree} {role : Role} (ht : t ∈ children) (hrole : t.hasRole role) :
        (!t.isTrivia) = true := by
      cases htrivia : t.isTrivia with
      | false => rfl
      | true =>
        rw [(hgaps t ht htrivia).hasRole_eq_false] at hrole
        cases hrole
    exact h (hrole hc hroles.1) (hrole hlater hroles.2) hroles
  · exact (isGap_or_of_content hgaps hts.1 c hc).elim (fun hgap => hgap.member _) id

theorem runs_forStatement {m : Mark} (hm : m.count = older.length) (l : Lookahead) :
    Runs (Holds older (All (IsLeaf .asyncMarker))) (forStatement self m l)
      (Holds older (All IsWhole)) := by
  have hpart {role : Role} (hrole : role = .left ∨ role = .right) {body : Parse Unit}
      (h : Adds body (All Plain)) : Adds (inRole role body) (All IsLoopHeader) :=
    adds_inRole h fun _ hts => hts.map fun t ht => by
      have hplain : Plain (t.withRole role) := ht.withRole (by rcases hrole with rfl | rfl <;> rfl)
      have hfits : Fits .forStatement (t.withRole role) := by
        refine ⟨hplain.isOrdinary, .inl ⟨?_, hplain.hasNoDeclaration⟩⟩
        rcases hrole with rfl | rfl
        · exact .inl (ht.hasRole_withRole _)
        · exact .inr (ht.hasRole_withRole _)
      refine ⟨⟨hfits, hplain.shaped⟩, ?_⟩
      rw [ht.shaped.hasRole_withRole]
      rcases hrole with rfl | rfl <;> rfl
  have hmarker (s : Progress) (hs : Holds older (All (IsLeaf .asyncMarker)) s) :
      Holds older (All IsLoopHeader) s := by
    refine hs.imp fun _ hts => hts.imp fun t ht => ?_
    have hname := ht.isName rfl
    refine ⟨⟨⟨hname.plain.isOrdinary, .inr (.inr (.inr hname.isInert))⟩, hname.plain.shaped⟩, ?_⟩
    obtain ⟨extent, rfl⟩ := ht
    rfl
  -- The parser goes on from here clause by clause; newer nodes stand before older ones.
  refine .of_imp hmarker (.take_bind fun _ => ?_)
  refine (hpart (.inl rfl) (adds_loopTargets hself)).keeps.bind fun _ => ?_
  refine .quiet_bind (quiet_keyword _ _) fun _ => ?_
  refine (hpart (.inr rfl) (adds_expressionList hself _).all).keeps.bind fun _ => ?_
  refine (adds_colonSuite_one hself).behind.bind fun _ => ?_
  refine (adds_alternative hself).behind.bind fun _ => ?_
  refine .of_imp (fun s hs => hs.imp fun ts hts => ?_) (runs_close_forStatement hm)
  obtain ⟨alternatives, _, rfl, halternatives, _, headers, rfl, ⟨body, rfl, hbody⟩, hheaders⟩ := hts
  refine ⟨fun t ht => ?_, ?_⟩
  · rcases List.mem_append.1 ht with ht | ht
    · exact ⟨⟨(halternatives t ht).1.isOrdinary, .inr (.inr (.inl (halternatives t ht).2.1))⟩,
        (halternatives t ht).1.shaped⟩
    · rcases List.mem_cons.1 ht with rfl | ht
      · exact ⟨⟨hbody.isOrdinary, .inr (.inl hbody.isBody)⟩, hbody.shaped⟩
      · exact (hheaders t ht).toMember
  · have hnew : ∀ t ∈ alternatives, ¬t.hasRole .body := fun t ht => by
      simp [(halternatives t ht).2.2]
    have hold : ∀ c ∈ body :: headers, ¬c.hasRole .alternative := by
      refine List.forall_mem_cons.2 ⟨?_, fun c hc => by simp [(hheaders c hc).isNoAlternative]⟩
      have hrole : body.role? = some .body := by simpa [hasRole] using hbody.isBody
      simp [hasRole, hrole]
    exact inOrder_append hnew hold

theorem runs_withStatement {m : Mark} (hm : m.count = older.length) (l : Lookahead) :
    Runs (Holds older (All (IsLeaf .asyncMarker))) (withStatement self m l)
      (Holds older (All IsWhole)) := by
  have hmarker (s : Progress) (hs : Holds older (All (IsLeaf .asyncMarker)) s) :
      Holds older (All IsStatement) s :=
    hs.imp fun _ hts => hts.imp fun _ ht => (ht.isName rfl).plain.isStatement
  have hvalue : Adds (inRole .value (expressionIn self {})) (All IsStatement) :=
    (adds_inRole_plain rfl (adds_expressionIn hself {})).statements
  refine .of_imp hmarker (.take_bind fun _ => .peek_bind fun next => ?_)
  refine .mark next fun inner c hc hback => .of_all (T := IsStatement) ?_
  refine .bind (.repeated (.peek_bind fun next => ?_)) fun _ => ?_
  · refine .mark next fun inner' item hitem hback' => .of_all (T := IsStatement) ?_
    refine hvalue.keeps.bind fun _ => (runs_close_statement hitem rfl).bind fun _ => ?_
    refine .back hback' (.peek_bind fun l => .ite (fun _ => ?_) fun _ => .done _)
    exact .take_bind fun _ => .peek_bind fun _ => .done _
  · refine (runs_close_statement hc rfl).bind fun _ => .back hback ?_
    exact (adds_colonSuite hself).keeps.bind fun _ => runs_close_whole hm rfl rfl

/-! ### Definitions -/

omit hself in
/-- What a definition has in front, and its name. -/
theorem runs_definitionName (kind : Kind) (hkind : kind.isDefinition) :
    Runs (Holds older (All (IsLeaf .asyncMarker))) (inRole .name identifier)
      (Holds older (Has (·.hasRole .name) (Member kind))) := by
  have hmember {t : Tree} (ht : IsName t) (hbody : t.hasRole .body = false)
      (hparameters : t.hasRole .parameters = false)
      (hname : t.hasRole .name → t.isKind .identifier) : Member kind t := by
    refine ⟨?_, ht.plain.shaped⟩
    have hrest := And.intro ht.isInert (And.intro hbody (And.intro hparameters hname))
    cases kind <;> first | exact .inr (.inl ⟨ht.plain.isOrdinary, hrest⟩) | cases hkind
  have hname : Adds (inRole .name identifier)
      (One fun t => Member kind t ∧ t.hasRole .name) :=
    adds_inRole adds_identifier_one fun _ hts => hts.map fun t ht => by
      have hleaf := ht.isName_identifier
      obtain ⟨extent, rfl⟩ := ht
      exact ⟨hmember (hleaf.withRole rfl) rfl rfl fun _ => rfl, hleaf.plain.hasRole_withRole _⟩
  refine hname.behind.imp fun _ hs => hs.imp ?_
  rintro _ ⟨_, markers, rfl, ⟨t, rfl, ht⟩, hmarkers⟩
  refine ⟨List.forall_mem_cons.2 ⟨ht.1, fun c hc => ?_⟩, t, List.mem_cons_self, ht.2⟩
  have hmarker := (hmarkers c hc).isName rfl
  obtain ⟨extent, rfl⟩ := hmarkers c hc
  exact hmember hmarker rfl rfl (nomatch ·)

/-- The brackets, the block and the end of a definition. -/
theorem adds_definitionParts (kind : Kind) (hkind : kind.isDefinition) :
    Adds (typeParameters self) (All (Member kind)) ∧ Adds (colonSuite self) (All (Member kind)) := by
  refine ⟨(adds_typeParameters hself).imp fun _ hts => hts.imp fun t ht => ⟨?_, ht.shaped⟩,
    (adds_colonSuite_one hself).all.imp fun _ hts => hts.imp fun t ht => ⟨?_, ht.shaped⟩⟩
  · have hbrackets := And.intro ht.hasNoRole ht.isTypeParameter
    cases kind <;> first
      | exact .inr (.inr ⟨ht.hasNoDeclaration, .inr (.inr (.inr hbrackets))⟩)
      | cases hkind
  · cases kind <;> first | exact .inl ⟨ht.isBody, ht.isBlock⟩ | cases hkind

omit hself in
theorem runs_close_definition {m : Mark} (hm : m.count = older.length) {kind : Kind}
    (hkind : kind.isDefinition) :
    Runs (Holds older (Has (·.hasRole .name) (Member kind))) (close m kind)
      (Holds older (All IsDefinition)) := by
  have hkinds : kind.isTrivia = false ∧ kind.isConfined = false ∧ kind.isBranching := by
    cases kind <;> first | decide | cases hkind
  refine .all (runs_close_has hm hkinds.1 fun extent children h hname =>
    ⟨⟨?_, .inr (.branch hkinds.2.2)⟩, hkind⟩)
  refine .node hkinds.2.1 ?_ fun c hc => (h c hc).elim (fun hgap => hgap.member kind) id
  cases kind <;> first | exact hname | cases hkind

theorem runs_functionDefinition {m : Mark} (hm : m.count = older.length) (l : Lookahead) :
    Runs (Holds older (All (IsLeaf .asyncMarker))) (functionDefinition self m l)
      (Holds older (All IsDefinition)) := by
  obtain ⟨hbrackets, hbody⟩ := adds_definitionParts hself .functionDefinition rfl
  have hparameters : Adds (inRole .parameters (parameters self))
      (All (Member .functionDefinition)) :=
    adds_inRole (adds_parameters hself) fun _ hts => hts.all.map fun t ht => by
      have hrole : (t.withRole .parameters).hasRole .parameters := by
        rw [ht.shaped.hasRole_withRole, beq_self_eq_true]
      exact ⟨.inr (.inr ⟨ht.hasNoDeclaration.withRole _,
        .inl ⟨hrole, (isKind_withRole ..).trans ht.isList⟩⟩), ht.shaped.withRole _⟩
  have hreturn : Adds (inRole .returnType (typeHint self false {}))
      (All (Member .functionDefinition)) :=
    adds_inRole (adds_typeHint_type hself _ _) fun _ hts => hts.all.map fun t ht =>
      ⟨.inr (.inr ⟨ht.1.hasNoDeclaration.withRole _, .inr (.inr (.inl ⟨ht.1.hasRole_withRole _,
        (isKind_withRole ..).trans ht.2⟩))⟩), ht.1.shaped.withRole _⟩
  refine .take_bind fun _ => (runs_definitionName .functionDefinition rfl).bind fun _ => ?_
  refine hbrackets.keeps_has.bind fun _ => hparameters.keeps_has.bind fun _ => ?_
  refine .quiet_bind (quiet_peek _) fun arrow => ?_
  have hrest : Runs (Holds older (Has (·.hasRole .name) (Member .functionDefinition))) (do
      colonSuite self
      close m .functionDefinition) (Holds older (All IsDefinition)) :=
    hbody.keeps_has.bind fun _ => runs_close_definition hm rfl
  exact .ite (fun _ => .take_bind fun _ => hreturn.keeps_has.bind fun _ => hrest) fun _ => hrest

theorem adds_classDefinition (l : Lookahead) : Adds (classDefinition self l) (All IsDefinition) := by
  obtain ⟨hbrackets, hbody⟩ := adds_definitionParts hself .classDefinition rfl
  have hsuperclasses (bases : Lookahead) : Adds (inRole .superclasses
      (argumentList self false bases)) (All (Member .classDefinition)) :=
    adds_inRole (adds_argumentList hself _ _) fun _ hts => hts.all.map fun t ht => by
      have hlist : t.isKind .argumentList := ht.2.resolve_left (by simp)
      exact ⟨.inr (.inr ⟨ht.1.hasNoDeclaration.withRole _, .inr (.inl
        ⟨ht.1.hasRole_withRole _, (isKind_withRole ..).trans hlist⟩)⟩), ht.1.shaped.withRole _⟩
  refine .node (IsLeaf .asyncMarker) l fun older m hm => .take_bind fun _ => ?_
  refine (runs_definitionName .classDefinition rfl).bind fun _ => hbrackets.keeps_has.bind fun _ => ?_
  refine .quiet_bind (quiet_peek _) fun bases => .optional (hsuperclasses bases).keeps_has ?_
  exact hbody.keeps_has.bind fun _ => runs_close_definition hm rfl

omit hself in
theorem adds_asyncMarker (l : Lookahead) :
    Adds (leaf .asyncMarker l) (All (IsLeaf .asyncMarker)) :=
  (adds_leaf rfl l).all

theorem adds_asyncStatement (l : Lookahead) : Adds (asyncStatement self l) (All IsWhole) := by
  intro older
  refine .get fun before hbefore => .of_all (T := IsWhole) ?_
  refine .mark l fun inner m hm hback => (adds_asyncMarker l inner).bind fun _ => ?_
  refine .peek_bind fun next => ?_
  split
  · exact .out hback ((runs_functionDefinition hself hm next).imp fun _ hs =>
      hs.imp fun _ hts => hts.imp fun _ ht => ht.toIsWhole)
  · exact .out hback (runs_forStatement hself hm next)
  · exact .out hback (runs_withStatement hself hm next)
  · exact .bind (.set hbefore) fun _ => adds_simpleLine hself l older

theorem runs_decorator :
    Runs (Holds older (All (Member .decoratedDefinition))) (decorator self)
      (Holds older (All (Member .decoratedDefinition))) := by
  refine .peek_bind fun l => .ite (fun _ => ?_) fun _ => .done _
  refine .mark l fun inner m hm hback => .take_bind fun _ => ?_
  refine (adds_expression_one hself 0 false .lineEnd inner).bind fun _ => .peek_bind fun lineEnd => ?_
  refine .optional (runs_fail _) (.quiet_bind (quiet_takeLayout lineEnd) fun _ => ?_)
  have hclose : Runs (Holds inner (One Plain)) (close m .decorator)
      (Holds inner (All (Member .decoratedDefinition))) := by
    refine .all (runs_close hm rfl fun extent children hgaps hts => ?_)
    have hlone : IsComplete .decorator children := by
      obtain ⟨t, ht, -⟩ := hts
      have hlength : (content children).length = 1 := by
        rw [← List.length_reverse, ht, List.length_singleton]
      exact Nat.le_of_eq hlength
    have hplain : ∀ c ∈ children, Plain c := fun c hc =>
      (isGap_or_of_content hgaps hts.all c hc).elim IsGap.plain id
    refine ⟨.inr ⟨rfl, rfl, ?_⟩, .node (fun c hc => ?_) hlone fun c hc => (hplain c hc).shaped⟩
    · exact avoids_node.2 ⟨rfl, fun c hc => (hplain c hc).hasNoDeclaration⟩
    · exact ⟨(hplain c hc).isOrdinary, fun htrivia => (hgaps c hc htrivia).isInert⟩
  exact hclose.bind fun _ => .back hback (.done _)

theorem adds_decorated (l : Lookahead) : Adds (decorated self l) (All IsDefinition) := by
  unfold decorated
  split
  · exact adds_classDefinition hself l
  · exact .mark l fun older m hm => .of_all (runs_functionDefinition hself hm l)
  · refine .mark l fun older m hm => (adds_asyncMarker l older).bind fun _ => ?_
    exact .peek_bind fun next => .ite (fun _ => runs_functionDefinition hself hm next) fun _ => runs_fail _
  · exact fun _ => runs_fail _

omit hself in
theorem runs_close_decorated {m : Mark} (hm : m.count = older.length) :
    Runs (Holds older (All (Member .decoratedDefinition))) (close m .decoratedDefinition)
      (Holds older (All IsWhole)) := by
  refine .all (runs_close_all hm rfl fun extent children h => ?_)
  have hmember : ∀ c ∈ children, Member .decoratedDefinition c := fun c hc =>
    (h c hc).elim (fun hgap => hgap.member _) id
  exact ⟨.node rfl trivial hmember, .inr (.node rfl fun c hc =>
    (hmember c hc).shaped.sheltered_of_fits (hmember c hc).fits)⟩

theorem adds_decoratedDefinition (l : Lookahead) :
    Adds (decoratedDefinition self l) (All IsWhole) := by
  have hdefinition (l : Lookahead) : Adds (inRole .definition (decorated self l))
      (All (Member .decoratedDefinition)) :=
    adds_inRole (adds_decorated hself l) fun _ hts => hts.map fun t ht => by
      have hstatement : IsStatement (t.withRole .definition) := ht.toIsStatement.withRole rfl
      have hrole : (t.withRole .definition).hasRole .definition := by
        rw [ht.shaped.hasRole_withRole, beq_self_eq_true]
      have hdefinition := (isDefinition_withRole t .definition).trans ht.isDefinition
      exact ⟨.inl ⟨hstatement.isOrdinary, .inl ⟨hrole, hdefinition⟩⟩, hstatement.shaped⟩
  refine .node (Member .decoratedDefinition) l fun older m hm => ?_
  refine .bind (.repeated (runs_decorator hself)) fun _ => .peek_bind fun l => ?_
  exact (hdefinition l).keeps.bind fun _ => runs_close_decorated hm

/-! ### Matches -/

theorem adds_caseClause (l : Lookahead) : Adds (caseClause self l) (All IsStatement) := by
  have hpattern : Adds (self .casePattern) (All IsStatement) := Adds.statements (hself .casePattern)
  have hguard (l : Lookahead) : Adds (inRole .guard do
      let g ← markAt l
      take l
      expressionIn self {}
      close g .ifClause) (All IsStatement) :=
    adds_inRole_statement rfl (.node IsStatement l fun _ _ hg => .take_bind fun _ =>
      (adds_expressionIn_statement hself _).keeps.bind fun _ => runs_close_statement hg rfl)
  refine .node IsStatement l fun older m hm => .take_bind fun _ => .bind (.repeated ?_) fun _ => ?_
  · refine hpattern.keeps.bind fun _ => .peek_bind fun l => .ite (fun _ => ?_) fun _ => .done _
    exact .take_bind fun _ => .peek_bind fun _ => .done _
  · refine .peek_bind fun l => .optional (hguard l).keeps ?_
    exact (adds_colonSuite hself).keeps.bind fun _ => runs_close_statement hm rfl

theorem adds_matchHeader (l : Lookahead) : Adds (matchHeader self l) (All IsStatement) := by
  have hsubject := adds_expressionIn_statement hself {}
  refine .of_keeps fun older => .take_bind fun _ => .bind (.repeated ?_) fun _ => ?_
  · refine hsubject.keeps.bind fun _ => .peek_bind fun l => .ite (fun _ => ?_) fun _ => .done _
    exact .take_bind fun _ => .peek_bind fun _ => .done _
  · refine .quiet_bind (quiet_sign _ _) fun _ => .peek_bind fun next => ?_
    split
    · exact .done _
    · exact .done _
    · exact runs_fail _

theorem runs_matchBody {m : Mark} (hm : m.count = older.length) (next : Lookahead) :
    Runs (Holds older (All IsStatement)) (matchBody self m next) (Holds older (All IsWhole)) := by
  refine .mark next fun inner b hb hback => .quiet_bind (quiet_takeLayout next) fun _ => ?_
  have hclose : Runs (Holds inner (All IsStatement)) (do
      close b .block
      mapSince b.count (·.withRole .body)
      close m .matchStatement) (Holds older (All IsWhole)) := by
    have hbody : Runs (Holds inner (All IsStatement)) (mapSince b.count (·.withRole .body))
        (Holds inner (All IsStatement)) :=
      runs_withRole hb fun _ hts => hts.map fun _ ht => ht.withRole rfl
    refine (runs_close_statement hb rfl).bind fun _ => hbody.bind fun _ => ?_
    exact .back hback (runs_close_whole hm rfl rfl)
  split
  · refine .of_all (.bind (.repeated (.peek_bind fun l => ?_)) fun _ => hclose)
    refine .ite (fun _ => (adds_caseClause hself l).keeps.bind fun _ => .done _) fun _ => ?_
    refine .ite (fun _ => ?_) fun _ => runs_fail _
    exact .quiet_bind (quiet_takeLayout l) fun _ => .done _
  · exact .of_all hclose

theorem adds_matchStatement (l : Lookahead) : Adds (matchStatement self l) (All IsWhole) := by
  intro older s a s' hs h
  let m : Mark := ⟨s.count, l.place⟩
  have hmark : (do let m ← markAt l; return (m, ← matchHeader self l) : Parse (Mark × Lookahead)) s =
      (matchHeader self l s).bind fun r => .ok ((m, r.1), r.2) := rfl
  rw [matchStatement, hmark] at h
  cases hr : matchHeader self l s with
  | error =>
    rw [hr] at h
    exact adds_simpleLine hself l older s a s' hs h
  | ok r =>
    rw [hr] at h
    have hheader := adds_matchHeader hself l s.finished s r.1 r.2 hs.nothing hr
    have hbody := runs_matchBody hself (m := m) hs.1 r.1 r.2 a s' hheader h
    exact (hs.behind hbody).imp fun _ => Behind.of_nothing

/-! ### Blocks -/

theorem adds_statement (l : Lookahead) : Adds (statement self l) (All IsWhole) := by
  unfold statement
  split
  · exact adds_ifStatement hself l
  · exact .mark l fun older m hm => .of_all (runs_forStatement hself hm l)
  · exact adds_whileStatement hself l
  · exact adds_tryStatement hself l
  · exact .mark l fun older m hm => .of_all (runs_withStatement hself hm l)
  · refine .mark l fun older m hm => .of_all ((runs_functionDefinition hself hm l).imp fun _ hs => ?_)
    exact hs.imp fun _ hts => hts.imp fun _ ht => ht.toIsWhole
  · exact (adds_classDefinition hself l).imp fun _ hts => hts.imp fun _ ht => ht.toIsWhole
  · exact adds_asyncStatement hself l
  · exact adds_matchStatement hself l
  · exact adds_decoratedDefinition hself l
  · exact adds_simpleLine hself l

theorem adds_suite : Adds (suite self) (One IsBlock) := by
  have hclose {older : List Tree} {m : Mark} (hm : m.count = older.length) :
      Runs (Holds older (All IsStatement)) (close m .block) (Holds older (One IsBlock)) :=
    runs_close_all hm rfl fun extent children h =>
      have hblock : IsStatement (.node .block none extent children) := .node rfl trivial fun c hc =>
        (h c hc).elim (fun hgap => hgap.member _) fun ht => ht.member rfl
      ⟨hblock.shaped, hblock.isOrdinary, rfl⟩
  refine .peek_bind fun l => ?_
  split
  · intro older
    refine .quiet_bind (quiet_takeLayout l) fun _ => .peek_bind fun first => ?_
    refine Adds.node IsStatement first (fun older m hm => ?_) older
    refine .bind (.repeated (.peek_bind fun l => ?_)) fun _ => hclose hm
    refine .ite (fun _ => .quiet_bind (quiet_takeLayout l) fun _ => .done _) fun _ => ?_
    exact (adds_statement hself l).parts.keeps.bind fun _ => .done _
  · exact .node IsStatement l fun _ _ hm => .quiet_bind (quiet_takeLayout l) fun _ => hclose hm
  · exact .node IsStatement l fun _ _ hm => (adds_simpleLine hself l).parts.keeps.bind fun _ => hclose hm

theorem adds_statements : Adds (statements self) (All IsWhole) := by
  refine .of_keeps fun older => .repeated (.peek_bind fun l => .ite (fun _ => .done _) fun _ => ?_)
  exact (adds_statement hself l).keeps.bind fun _ => .done _

end

end Parse

end SourceCorpus.Syntax
