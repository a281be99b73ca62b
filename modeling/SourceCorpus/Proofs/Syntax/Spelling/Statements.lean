import SourceCorpus.Proofs.Syntax.Spelling.Expressions
import SourceCorpus.Syntax.Grammar

/-!
Case patterns and statements keep dotted names spelled. Main statement: every dotted name in the tree
of a text that the grammar accepts has its parts where they should be.
-/

namespace SourceCorpus.Syntax

open SourceCorpus.Syntax.Tree

namespace Parse

variable {self : Rule → Parse Unit} {source : List Char} {n : Nat} {l : Lookahead} {m : Mark}
  {kind : Kind}

theorem keeps_dottedName (follow : Expected) : Keeps source n (dottedName follow) := by
  refine .peeking fun l _ => Keeps.mark fun m _ => keeps_identifier.bind fun _ => ?_
  refine .bind (.repeated (.peeking fun l hl => .ite (fun _ => ?_) fun _ => .done _)) fun _ =>
    keeps_close rfl rfl
  exact .taking hl.after fun _ => keeps_identifier.bind fun _ => .done _

/-! ### Case patterns -/

theorem keeps_casePatterns {item : Parse Unit} (h : Keeps source n item) (closer : Sign) :
    Keeps source n (casePatterns item closer) := by
  refine .peeking fun first hfirst => .ite (fun _ => keeps_take hfirst.after) fun _ => ?_
  exact h.bind fun _ => (keeps_moreItems h closer).bind fun _ => .done _

theorem keeps_splatPattern (hl : l.Fits source) : Keeps source n (splatPattern l) := by
  refine Keeps.mark fun m _ => .taking hl.after fun _ => .peeking fun next hnext => ?_
  split
  · exact .taking hnext.after fun _ => keeps_close rfl rfl
  next htoken => exact (makes_identifier hnext htoken).keeps.bind fun _ => keeps_close rfl rfl
  · exact (runs_fail _).bind fun _ => keeps_close rfl rfl

theorem keeps_number : Keeps source n number := by
  refine .peeking fun l hl => ?_
  split
  · exact (makes_leaf hl.after rfl rfl).keeps
  · exact (makes_leaf hl.after rfl rfl).keeps
  · exact runs_fail _

theorem keeps_numberPattern (hl : l.Fits source) : Keeps source n (numberPattern l) := by
  refine Keeps.mark fun m _ => .optional (keeps_take hl.after) (keeps_number.bind fun _ => ?_)
  refine .peeking fun next hnext => .ite (fun _ => ?_) fun _ => .done _
  exact .taking hnext.after fun _ => keeps_number.bind fun _ => keeps_close rfl rfl

theorem keeps_dictItem (hself : ∀ rule n, Keeps source n (self rule)) :
    Keeps source n (dictItem self) := by
  refine .peeking fun l hl => .ite (fun _ => keeps_splatPattern hl) fun _ => ?_
  exact (hself _ _).bind fun _ => (keeps_sign _ _).bind fun _ => hself _ _

section

variable (hself : ∀ rule n, Keeps source n (self rule))
include hself

theorem keeps_namePattern : Keeps source n (namePattern self l) := by
  refine Keeps.mark fun m _ => (keeps_dottedName _).bind fun _ => .peeking fun next hnext => ?_
  refine .ite (fun _ => .taking hnext.after fun _ => ?_) fun _ => .done _
  exact (keeps_casePatterns (hself _ _) _).bind fun _ => keeps_close rfl rfl

theorem keeps_closedPattern : Keeps source n (closedPattern self) := by
  refine .peeking fun l hl => Keeps.mark fun m _ => ?_
  have hpatterns {item : Parse Unit} {closer : Sign} {kind : Kind} (hitem : Keeps source m.count item)
      (hkind : kind.isTrivia = false) (hdottable : kind.isDottable = false) :
      Keeps source m.count (do
        take l
        casePatterns item closer
        close m kind) :=
    .taking hl.after fun _ => (keeps_casePatterns hitem _).bind fun _ => keeps_close hkind hdottable
  split
  · exact (makes_strings hself hl _ _).keeps
  · exact (makes_leaf hl.after rfl rfl).keeps
  · exact (makes_leaf hl.after rfl rfl).keeps
  · exact (makes_leaf hl.after rfl rfl).keeps
  · exact keeps_take hl.after
  · exact keeps_namePattern hself
  · exact keeps_numberPattern hl
  · exact keeps_numberPattern hl
  · exact keeps_numberPattern hl
  · exact keeps_splatPattern hl
  · exact keeps_splatPattern hl
  · exact hpatterns (hself _ _) rfl rfl
  · exact hpatterns (hself _ _) rfl rfl
  · exact hpatterns (keeps_dictItem hself) rfl rfl
  · exact runs_fail _

theorem keeps_simpleCasePattern : Keeps source n (simpleCasePattern self) := by
  refine .peeking fun l _ => Keeps.mark fun m _ => (keeps_closedPattern hself).bind fun _ => ?_
  refine .peeking fun l _ => .ite (fun _ => ?_) fun _ => .done _
  refine .bind (.repeated (.peeking fun l hl => .ite (fun _ => ?_) fun _ => .done _)) fun _ =>
    keeps_close rfl rfl
  exact .taking hl.after fun _ => (keeps_closedPattern hself).bind fun _ => .done _

omit hself in
/-- A keyword argument begins with a word. -/
theorem gives_beginsKeyword (hl : l.Fits source) :
    Gives (Ready source n) (beginsKeyword l) fun begins s =>
      Ready source n s ∧ (begins = true → ∃ keyword, l.token = .word keyword) := by
  unfold beginsKeyword
  split
  next keyword htoken =>
    refine fun s a s' hs hp => ⟨?_, fun _ => ⟨keyword, htoken⟩⟩
    have hkeeps : Keeps source n (do
        let before ← get
        take l
        let next ← peek .bracketed
        set before
        return next.isSign .assign) :=
      .get fun before hbefore => .taking hl.after fun _ => .peeking fun next _ =>
        .bind (.set hbefore) fun _ => .done _
    exact hkeeps s a s' hs hp
  next =>
    rintro s a s' hs hp
    cases hp
    exact ⟨hs, (nomatch ·)⟩

theorem keeps_casePattern : Keeps source n (casePattern self) := by
  refine .peeking fun l hl => Keeps.mark fun m _ => ?_
  refine (gives_beginsKeyword hl).runs_bind fun begins => ?_
  rintro s a s' ⟨hs, hword⟩ hp
  have hclose : Keeps source m.count (close m .casePattern) := keeps_close rfl rfl
  cases begins with
  | true =>
    obtain ⟨keyword, htoken⟩ := hword rfl
    have hkeyword : Keeps source m.count (do
        leaf .identifier l
        sign .assign
        self .simpleCasePattern
        close m .keywordPattern
        close m .casePattern) :=
      (makes_identifier hl htoken).keeps.bind fun _ => (keeps_sign _ _).bind fun _ =>
        (hself _ _).bind fun _ => (keeps_close rfl rfl).bind fun _ => hclose
    exact hkeyword s a s' hs hp
  | false =>
    have hpattern : Keeps source m.count (do
        self .simpleCasePattern
        repeated do
          let next ← peek .bracketed
          if next.isWord .as then
            close m .casePattern
            take next
            identifier
            close m .asPattern
            return true
          else return false
        close m .casePattern) := by
      refine (hself _ _).bind fun _ => .bind (.repeated (.peeking fun next hnext => ?_)) fun _ => hclose
      refine .ite (fun _ => hclose.bind fun _ => .taking hnext.after fun _ => ?_) fun _ => .done _
      exact keeps_identifier.bind fun _ => (keeps_close rfl rfl).bind fun _ => .done _
    exact hpattern s a s' hs hp

/-! ### Simple statements -/

omit hself in
theorem keeps_assignmentTargets (isList : Bool) :
    Keeps source m.count (assignmentTargets m isList) :=
  (keeps_retarget _).bind fun _ => .optional (keeps_close rfl rfl) (keeps_withRole _ _)

theorem keeps_assignmentOr (isList asValue : Bool) :
    Keeps source m.count (assignmentOr self m isList asValue) := by
  have hassigned {l : Lookahead} (hl : l.Fits source) {kind : Kind} (hkind : kind.isTrivia = false)
      (hdottable : kind.isDottable = false) : Keeps source m.count (do
        assignmentTargets m isList
        take l
        inRole .right (self .rightSide)
        close m kind) :=
    (keeps_assignmentTargets isList).bind fun _ => .taking hl.after fun _ =>
      (keeps_inRole (hself _ _)).bind fun _ => keeps_close hkind hdottable
  refine .peeking fun l hl => .ite (fun _ => hassigned hl rfl rfl) fun _ => ?_
  refine .ite (fun _ => hassigned hl rfl rfl) fun _ => .ite (fun _ => ?_) fun _ => ?_
  · refine (keeps_assignmentTargets isList).bind fun _ => .taking hl.after fun _ => ?_
    refine (keeps_inRole (keeps_typeHint hself _ _)).bind fun _ => .peeking fun l hl => ?_
    refine .ite (fun _ => .taking hl.after fun _ => ?_) fun _ => keeps_close rfl rfl
    exact (keeps_inRole (hself _ _)).bind fun _ => keeps_close rfl rfl
  · exact .ite (fun _ => keeps_close rfl rfl) fun _ => .done _

theorem keeps_assignable (asValue : Bool) : Keeps source n (assignable self asValue) := by
  refine .peeking fun first hfirst => Keeps.mark fun m _ => .ite (fun _ => ?_) fun _ => ?_
  · exact keeps_yieldExpression hself hfirst _
  · refine (hself _ _).bind fun _ => .peeking fun l _ => .bind (.repeated ?_) fun _ =>
      keeps_assignmentOr hself _ _
    refine .peeking fun l hl => .ite (fun _ => .taking hl.after fun _ => ?_) fun _ => .done _
    refine .peeking fun _ _ => .ite (fun _ => ?_) fun _ => .done _
    exact (hself _ _).bind fun _ => .done _

theorem keeps_expressionStatement : Keeps source n (expressionStatement self l) :=
  Keeps.mark fun _ _ => (keeps_assignable hself false).bind fun _ => keeps_close rfl rfl

omit hself in
theorem keeps_lineItems {item : Parse Unit} (h : Keeps source n item) :
    Keeps source n (lineItems item) := by
  refine .repeated (h.bind fun _ => .peeking fun l hl => .ite (fun _ => ?_) fun _ => .done _)
  exact .taking hl.after fun _ => .done _

omit hself in
theorem keeps_aliasedName (follow : Expected) : Keeps source n (aliasedName follow) := by
  refine .peeking fun l _ => Keeps.mark fun m _ => (keeps_dottedName _).bind fun _ => ?_
  refine .peeking fun next hnext => .ite (fun _ => ?_) fun _ => .done _
  refine (keeps_withRole _ _).bind fun _ => .taking hnext.after fun _ => ?_
  exact (keeps_inRole keeps_identifier).bind fun _ => keeps_close rfl rfl

omit hself in
theorem keeps_importedNames (follow : Expected) : Keeps source n (importedNames follow) := by
  refine .repeated ((keeps_inRole (keeps_aliasedName _)).bind fun _ => .peeking fun l hl => ?_)
  refine .ite (fun _ => .taking hl.after fun _ => .peeking fun next _ => ?_) fun _ => .done _
  split <;> exact .done _

omit hself in
theorem keeps_importStatement (hl : l.Fits source) : Keeps source n (importStatement l) :=
  Keeps.mark fun _ _ => .taking hl.after fun _ => (keeps_importedNames _).bind fun _ =>
    keeps_close rfl rfl

omit hself in
theorem keeps_importedFrom : Keeps source n importedFrom := by
  refine .peeking fun l hl => .ite (fun _ => ?_) fun _ => keeps_importedNames _
  exact .taking hl.after fun _ => (keeps_importedNames _).bind fun _ => keeps_sign _ _

omit hself in
theorem keeps_importDots : Keeps source n importDots := by
  refine .peeking fun l _ => Keeps.mark fun m _ => .bind (.repeated ?_) fun _ => keeps_close rfl rfl
  refine .peeking fun l hl => .ite (fun _ => ?_) fun _ => .done _
  exact .taking hl.after fun _ => .done _

omit hself in
theorem keeps_importedModule : Keeps source n (importedModule l) := by
  refine .ite (fun _ => Keeps.mark fun m _ => keeps_importDots.bind fun _ => ?_) fun _ =>
    keeps_dottedName _
  refine .peeking fun next _ => ?_
  split
  · exact .optional (keeps_dottedName _) (keeps_close rfl rfl)
  · exact keeps_close rfl rfl

omit hself in
theorem keeps_importFromStatement (hl : l.Fits source) : Keeps source n (importFromStatement l) := by
  refine Keeps.mark fun m _ => .taking hl.after fun _ => .peeking fun from_ hfrom => ?_
  refine .ite (fun _ => .taking hfrom.after fun _ => (keeps_keyword _ _).bind fun _ => ?_) fun _ => ?_
  · exact keeps_importedFrom.bind fun _ => keeps_close rfl rfl
  · refine (keeps_inRole keeps_importedModule).bind fun _ => (keeps_keyword _ _).bind fun _ => ?_
    refine .peeking fun next hnext => .ite (fun _ => ?_) fun _ => ?_
    · exact (makes_leaf hnext.after rfl rfl).keeps.bind fun _ => keeps_close rfl rfl
    · exact keeps_importedFrom.bind fun _ => keeps_close rfl rfl

theorem keeps_listStatement (hkind : kind.isTrivia = false) (hdottable : kind.isDottable = false)
    (optional : Bool) (hl : l.Fits source) : Keeps source n (listStatement self kind optional l) := by
  refine Keeps.mark fun m _ => .taking hl.after fun _ => .peeking fun _ _ => ?_
  exact .optional (keeps_expressionList hself _) (keeps_close hkind hdottable)

theorem keeps_raiseStatement (hl : l.Fits source) : Keeps source n (raiseStatement self l) := by
  refine Keeps.mark fun m _ => .taking hl.after fun _ => .peeking fun next _ => ?_
  refine .optional (keeps_expressionList hself _) (.peeking fun next hnext => ?_)
  refine .ite (fun _ => .taking hnext.after fun _ => ?_) fun _ => keeps_close rfl rfl
  exact (hself _ _).bind fun _ => keeps_close rfl rfl

theorem keeps_assertStatement (hl : l.Fits source) : Keeps source n (assertStatement self l) :=
  Keeps.mark fun _ _ => .taking hl.after fun _ => (keeps_lineItems (hself _ _)).bind fun _ =>
    keeps_close rfl rfl

omit hself in
theorem keeps_namesStatement (hkind : kind.isTrivia = false) (hdottable : kind.isDottable = false)
    (hl : l.Fits source) : Keeps source n (namesStatement kind l) :=
  Keeps.mark fun _ _ => .taking hl.after fun _ => (keeps_lineItems keeps_identifier).bind fun _ =>
    keeps_close hkind hdottable

theorem keeps_printed : Keeps source n (printed self) := by
  refine .repeated ((hself _ _).bind fun _ => .peeking fun l hl => .ite (fun _ => ?_) fun _ => .done _)
  exact .taking hl.after fun _ => .peeking fun _ _ => .done _

theorem keeps_printStatement (hl : l.Fits source) : Keeps source n (printStatement self l) := by
  refine Keeps.mark fun m _ => .taking hl.after fun _ => .peeking fun next hnext => ?_
  have hclose : Keeps source m.count (close m .printStatement) := keeps_close rfl rfl
  refine .ite (fun _ => .marking fun target _ ht => ?_) fun _ =>
    (keeps_printed hself).bind fun _ => hclose
  refine .taking hnext.after fun _ => (hself _ _).bind fun _ => (keeps_close rfl rfl).bind fun _ => ?_
  refine .outward ht (.peeking fun l hl => .ite (fun _ => ?_) fun _ => hclose)
  refine .taking hl.after fun _ => .peeking fun _ _ => .optional (keeps_printed hself) hclose

theorem keeps_executed : Keeps source n (executed self) := by
  refine .peeking fun code hcode => ?_
  split
  · exact (makes_stringLiteral hself hcode _).keeps
  next htoken => exact (makes_identifier hcode htoken).keeps
  · exact runs_fail _

theorem keeps_execStatement (hl : l.Fits source) : Keeps source n (execStatement self l) := by
  refine Keeps.mark fun m _ => .taking hl.after fun _ => (keeps_executed hself).bind fun _ => ?_
  refine .peeking fun next hnext => .ite (fun _ => .taking hnext.after fun _ => ?_) fun _ =>
    keeps_close rfl rfl
  exact (keeps_lineItems (hself _ _)).bind fun _ => keeps_close rfl rfl

theorem keeps_typeParameter : Keeps source n (typeParameter self) := by
  refine .peeking fun l hl => Keeps.mark fun m _ => .ite (fun _ => ?_) fun _ => keeps_typeHint hself _ _
  refine .taking hl.after fun _ => keeps_identifier.bind fun _ => ?_
  exact (keeps_close rfl rfl).bind fun _ => keeps_close rfl rfl

theorem keeps_typeParameters : Keeps source n (typeParameters self) := by
  refine .peeking fun l hl => .ite (fun _ => Keeps.mark fun m _ => ?_) fun _ => .done _
  refine .taking hl.after fun _ => (keeps_typeParameter hself).bind fun _ => ?_
  exact (keeps_moreItems (keeps_typeParameter hself) _).bind fun _ => keeps_close rfl rfl

/-- The first operand of a type that began at the mark. -/
theorem keeps_typeOperand (follow : Expected) : Keeps source n (typeOperand self follow) := by
  refine .peeking fun first hfirst => Keeps.mark fun m _ => .get fun before hbefore => ?_
  refine .taking hfirst.after fun _ => .peeking fun next _ => .bind (.set hbefore) fun _ => ?_
  refine .ite (fun hname => ?_) fun _ => (hself _ _).bind fun _ => .done _
  obtain ⟨keyword, htoken⟩ : ∃ keyword, first.token = .word keyword := by
    rw [Bool.and_eq_true, Lookahead.isName] at hname
    split at hname
    next htoken => exact ⟨_, htoken⟩
    next htoken => exact ⟨_, htoken⟩
    next => cases hname.1
  refine (makes_identifier hfirst htoken).keeps.bind fun _ => ?_
  refine (keeps_typeParameters hself).bind fun _ => ?_
  exact (keeps_close rfl rfl).bind fun _ => .done _

theorem keeps_typeStep (follow : Expected) : Keeps source m.count (typeStep self follow m) := by
  refine .peeking fun l hl => .ite (fun _ => ?_) fun _ => .ite (fun _ => ?_) fun _ => .done _
  · refine .taking hl.after fun _ => (keeps_typeOperand hself _).bind fun _ => ?_
    exact (keeps_close rfl rfl).bind fun _ => .done _
  · refine .taking hl.after fun _ => keeps_identifier.bind fun _ => ?_
    exact (keeps_close rfl rfl).bind fun _ => .done _

theorem keeps_aliasedType (follow : Expected) : Keeps source n (aliasedType self follow) := by
  refine .peeking fun l _ => Keeps.mark fun m _ => (keeps_typeOperand hself _).bind fun _ => ?_
  refine .optional (.repeated (keeps_typeStep hself _)) ((keeps_typeBounds hself _).bind fun _ => ?_)
  exact keeps_close rfl rfl

theorem keeps_typeAliasStatement (hl : l.Fits source) :
    Keeps source n (typeAliasStatement self l) :=
  Keeps.mark fun _ _ => .taking hl.after fun _ => (keeps_aliasedType hself _).bind fun _ =>
    (keeps_sign _ _).bind fun _ => (keeps_aliasedType hself _).bind fun _ => keeps_close rfl rfl

omit hself in
theorem keeps_preferring {first second : Parse Unit} (hfirst : Keeps source n first)
    (hsecond : Keeps source n second) : Keeps source n (preferring first second) := by
  refine .orElse (hfirst.bind fun _ => .peeking fun l _ => ?_) hsecond
  split
  · exact .done _
  · exact .done _
  · exact runs_fail _

theorem keeps_simpleStatement (hl : l.Fits source) : Keeps source n (simpleStatement self l) := by
  have hexpression : Keeps source n (expressionStatement self l) := keeps_expressionStatement hself
  unfold simpleStatement
  split
  · exact keeps_importStatement hl
  · exact keeps_importFromStatement hl
  · exact keeps_assertStatement hself hl
  · exact keeps_listStatement hself rfl rfl _ hl
  · exact keeps_listStatement hself rfl rfl _ hl
  · exact keeps_raiseStatement hself hl
  · exact (makes_leaf hl.after rfl rfl).keeps
  · exact (makes_leaf hl.after rfl rfl).keeps
  · exact (makes_leaf hl.after rfl rfl).keeps
  · exact keeps_namesStatement rfl rfl hl
  · exact keeps_namesStatement rfl rfl hl
  · refine .get fun before hbefore => .taking hl.after fun _ => .peeking fun next _ => ?_
    refine .bind (.set hbefore) fun _ => .ite (fun _ => keeps_printStatement hself hl) fun _ => ?_
    exact .ite (fun _ => keeps_preferring hexpression (keeps_printStatement hself hl)) fun _ =>
      hexpression
  · refine .get fun before hbefore => .taking hl.after fun _ => .peeking fun next _ => ?_
    refine .bind (.set hbefore) fun _ => ?_
    split
    · exact keeps_preferring hexpression (keeps_execStatement hself hl)
    · exact keeps_preferring hexpression (keeps_execStatement hself hl)
    · exact hexpression
  · refine .get fun before hbefore => .taking hl.after fun _ => .peeking fun next _ => ?_
    refine .bind (.set hbefore) fun _ => .ite (fun _ => ?_) fun _ => hexpression
    exact keeps_preferring (keeps_typeAliasStatement hself hl) hexpression
  · exact hexpression

theorem keeps_simpleLine (hl : l.Fits source) : Keeps source n (simpleLine self l) := by
  refine (keeps_simpleStatement hself hl).bind fun _ => .repeated (.peeking fun l hl => ?_)
  split
  · exact (keeps_takeLayout hl.after).bind fun _ => .done _
  · refine .taking hl.after fun _ => .peeking fun next hnext => ?_
    split
    · exact (keeps_takeLayout hnext.after).bind fun _ => .done _
    · exact runs_fail _
    · exact (keeps_simpleStatement hself hnext).bind fun _ => .done _
  · exact runs_fail _

/-! ### Compound statements -/

theorem keeps_colonSuite : Keeps source n (colonSuite self) :=
  (keeps_sign _ _).bind fun _ => keeps_inRole (hself _ _)

theorem keeps_clause (hkind : kind.isTrivia = false) (hdottable : kind.isDottable = false)
    (hafter : l.after.Of source) {header : Parse Unit} (hheader : ∀ n, Keeps source n header) :
    Keeps source n (clause self kind l header) :=
  Keeps.mark fun _ _ => .taking hafter fun _ => (hheader _).bind fun _ =>
    (keeps_colonSuite hself).bind fun _ => keeps_close hkind hdottable

theorem keeps_elseClause : Keeps source n (elseClause self) := by
  refine .peeking fun l hl => .ite (fun _ => keeps_inRole ?_) fun _ => .done _
  exact keeps_clause hself rfl rfl hl.after fun _ => .done _

theorem keeps_ifStatement (hl : l.Fits source) : Keeps source n (ifStatement self l) := by
  refine Keeps.mark fun m _ => .taking hl.after fun _ => (hself _ _).bind fun _ => ?_
  refine (keeps_colonSuite hself).bind fun _ => .bind (.repeated (.peeking fun l hl => ?_)) fun _ =>
    (keeps_elseClause hself).bind fun _ => keeps_close rfl rfl
  refine .ite (fun _ => (keeps_inRole ?_).bind fun _ => .done _) fun _ => .done _
  exact keeps_clause hself rfl rfl hl.after fun _ => hself _ _

theorem keeps_forStatement (hl : l.Fits source) : Keeps source m.count (forStatement self m l) := by
  refine .taking hl.after fun _ => (keeps_inRole (keeps_loopTargets hself)).bind fun _ => ?_
  refine (keeps_keyword _ _).bind fun _ => (keeps_inRole (keeps_expressionList hself _)).bind fun _ => ?_
  refine (keeps_colonSuite hself).bind fun _ => (keeps_elseClause hself).bind fun _ => ?_
  exact keeps_close rfl rfl

theorem keeps_whileStatement (hl : l.Fits source) : Keeps source n (whileStatement self l) := by
  refine Keeps.mark fun m _ => .taking hl.after fun _ => (hself _ _).bind fun _ => ?_
  exact (keeps_colonSuite hself).bind fun _ => (keeps_elseClause hself).bind fun _ =>
    keeps_close rfl rfl

theorem keeps_handled : Keeps source n (handled self) := by
  refine .peeking fun _ _ => .ite (fun _ => (hself _ _).bind fun _ => ?_) fun _ => .done _
  refine .peeking fun l hl => .ite (fun _ => ?_) fun _ => .done _
  exact .taking hl.after fun _ => keeps_inRole (hself _ _)

theorem keeps_tryStatement (hl : l.Fits source) : Keeps source n (tryStatement self l) := by
  refine Keeps.mark fun m _ => .taking hl.after fun _ => (keeps_colonSuite hself).bind fun _ => ?_
  have hclose : Keeps source m.count (close m .tryStatement) := keeps_close rfl rfl
  have hfinally {first : Lookahead} (hfirst : first.Fits source) :
      Keeps source m.count (clause self .finallyClause first (pure ())) :=
    keeps_clause hself rfl rfl hfirst.after fun _ => .done _
  refine .peeking fun first hfirst => .ite (fun _ => ?_) fun _ => ?_
  · refine .bind (.repeated (.peeking fun l hl => .ite (fun _ => ?_) fun _ => .done _)) fun _ => ?_
    · refine .ite (fun _ => ?_) fun _ => ?_
      · exact (keeps_clause hself rfl rfl (hl.after.drop 1) fun _ => hself _ _).bind fun _ => .done _
      · exact (keeps_clause hself rfl rfl hl.after fun _ => keeps_handled hself).bind fun _ => .done _
    · refine (keeps_elseClause hself).bind fun _ => .peeking fun l hl => ?_
      exact .optional (hfinally hl) hclose
  · exact .ite (fun _ => (hfinally hfirst).bind fun _ => hclose) fun _ =>
      (runs_fail _).bind fun _ => hclose

theorem keeps_withStatement (hl : l.Fits source) :
    Keeps source m.count (withStatement self m l) := by
  refine .taking hl.after fun _ => .peeking fun first _ => .marking fun c _ hc => ?_
  refine .bind (.repeated (.peeking fun next _ => ?_)) fun _ => (keeps_close rfl rfl).bind fun _ => ?_
  · refine .marking fun item _ hitem => (keeps_inRole (hself _ _)).bind fun _ => ?_
    refine (keeps_close rfl rfl).bind fun _ => .outward hitem (.peeking fun l hl => ?_)
    refine .ite (fun _ => .taking hl.after fun _ => ?_) fun _ => .done _
    exact .peeking fun _ _ => .done _
  · exact .outward hc ((keeps_colonSuite hself).bind fun _ => keeps_close rfl rfl)

theorem keeps_functionDefinition (hl : l.Fits source) :
    Keeps source m.count (functionDefinition self m l) := by
  refine .taking hl.after fun _ => (keeps_inRole keeps_identifier).bind fun _ => ?_
  refine (keeps_typeParameters hself).bind fun _ => (keeps_inRole (keeps_parameters hself)).bind
    fun _ => .peeking fun arrow harrow => ?_
  have hsuite : Keeps source m.count (do colonSuite self; close m .functionDefinition) :=
    (keeps_colonSuite hself).bind fun _ => keeps_close rfl rfl
  refine .ite (fun _ => .taking harrow.after fun _ => ?_) fun _ => hsuite
  exact (keeps_inRole (keeps_typeHint hself _ _)).bind fun _ => hsuite

theorem keeps_classDefinition (hl : l.Fits source) : Keeps source n (classDefinition self l) := by
  refine Keeps.mark fun m _ => .taking hl.after fun _ => (keeps_inRole keeps_identifier).bind
    fun _ => (keeps_typeParameters hself).bind fun _ => .peeking fun bases hbases => ?_
  refine .optional (keeps_inRole (keeps_argumentList hself _ hbases)) ?_
  exact (keeps_colonSuite hself).bind fun _ => keeps_close rfl rfl

theorem keeps_asyncStatement (hl : l.Fits source) : Keeps source n (asyncStatement self l) := by
  refine .get fun before hbefore => .marking fun m _ hm => ?_
  refine (makes_leaf hl.after rfl rfl).keeps.bind fun _ => .peeking fun next hnext => ?_
  split
  · exact (keeps_functionDefinition hself hnext).imp fun _ hs => hs.mono hm
  · exact (keeps_forStatement hself hnext).imp fun _ hs => hs.mono hm
  · exact (keeps_withStatement hself hnext).imp fun _ hs => hs.mono hm
  · exact .bind (.set hbefore) fun _ => keeps_simpleLine hself hl

theorem keeps_decorator : Keeps source n (decorator self) := by
  refine .peeking fun l hl => .ite (fun _ => Keeps.mark fun m _ => ?_) fun _ => .done _
  refine .taking hl.after fun _ => (hself _ _).bind fun _ => .peeking fun lineEnd hend => ?_
  refine .optional (runs_fail _) ((keeps_takeLayout hend.after).bind fun _ => ?_)
  exact (keeps_close rfl rfl).bind fun _ => .done _

theorem keeps_decorated (hl : l.Fits source) : Keeps source n (decorated self l) := by
  unfold decorated
  split
  · exact keeps_classDefinition hself hl
  · exact Keeps.mark fun m _ => keeps_functionDefinition hself hl
  · refine Keeps.mark fun m _ => (makes_leaf hl.after rfl rfl).keeps.bind fun _ => ?_
    refine .peeking fun next hnext => .ite (fun _ => ?_) fun _ => runs_fail _
    exact keeps_functionDefinition hself hnext
  · exact runs_fail _

theorem keeps_decoratedDefinition : Keeps source n (decoratedDefinition self l) := by
  refine Keeps.mark fun m _ => .bind (.repeated (keeps_decorator hself)) fun _ => ?_
  refine .peeking fun l hl => (keeps_inRole (keeps_decorated hself hl)).bind fun _ => ?_
  exact keeps_close rfl rfl

theorem keeps_caseClause (hl : l.Fits source) : Keeps source n (caseClause self l) := by
  refine Keeps.mark fun m _ => .taking hl.after fun _ => .bind (.repeated ?_) fun _ => ?_
  · refine (hself _ _).bind fun _ => .peeking fun l hl => .ite (fun _ => ?_) fun _ => .done _
    exact .taking hl.after fun _ => .peeking fun _ _ => .done _
  · refine .peeking fun l hl => .optional (keeps_inRole ?_) ?_
    · refine Keeps.mark fun g _ => .taking hl.after fun _ => (hself _ _).bind fun _ => ?_
      exact keeps_close rfl rfl
    · exact (keeps_colonSuite hself).bind fun _ => keeps_close rfl rfl

theorem gives_matchHeader (hl : l.Fits source) :
    Gives (Ready source n) (matchHeader self l) fun next s =>
      Ready source n s ∧ next.Fits source := by
  refine (keeps_take hl.after).gives_bind fun _ => Runs.gives_bind (.repeated ?_) fun _ =>
    (keeps_sign _ _).gives_bind fun _ => ?_
  · refine (hself _ _).bind fun _ => .peeking fun l hl => .ite (fun _ => ?_) fun _ => .done _
    exact .taking hl.after fun _ => .peeking fun _ _ => .done _
  -- What follows the colon fits, and is passed on if it begins a block.
  · intro s a s' hs hp
    refine (gives_peek { newline := true, indent := true } s).bind
      (R := fun next s => Ready source n s ∧ next.Fits source) (fun next => ?_) s a s' (.refl hs) hp
    split
    · rintro s a s' ⟨hpass, hfits, -⟩ hp
      cases hp
      exact ⟨hpass.ready, hfits⟩
    · rintro s a s' ⟨hpass, hfits, -⟩ hp
      cases hp
      exact ⟨hpass.ready, hfits⟩
    · rintro s a s' - hp
      cases hp

theorem keeps_matchBody {next : Lookahead} (hnext : next.Fits source) :
    Keeps source m.count (matchBody self m next) := by
  have hcases {b : Mark} (hb : m.count ≤ b.count) : Runs (Ready source b.count) (do
      close b .block
      mapSince b.count (·.withRole .body)
      close m .matchStatement) (Ready source m.count) :=
    (keeps_close rfl rfl).bind fun _ => (keeps_withRole _ _).bind fun _ =>
      .outward hb (keeps_close rfl rfl)
  refine .marking fun b _ hb => (keeps_takeLayout hnext.after).bind fun _ => ?_
  split
  · refine .bind (.repeated (.peeking fun l hl => .ite (fun _ => ?_) fun _ => ?_)) fun _ => hcases hb
    · exact (keeps_caseClause hself hl).bind fun _ => .done _
    · refine .ite (fun _ => ?_) fun _ => runs_fail _
      exact (keeps_takeLayout hl.after).bind fun _ => .done _
  · exact hcases hb

theorem keeps_matchStatement (hl : l.Fits source) : Keeps source n (matchStatement self l) := by
  intro s a s' hs hp
  unfold matchStatement at hp
  split at hp
  next m next s₁ hheader =>
    have hmark : Gives (Ready source n) (do
        let m ← markAt l
        return (m, ← matchHeader self l) : Parse (Mark × Lookahead)) fun r s =>
          Ready source r.1.count s ∧ n ≤ r.1.count ∧ r.2.Fits source := by
      intro s r s' hs hp
      refine ((gives_matchHeader hself hl (n := s.count)).bind (R := fun (r : Mark × Lookahead) s =>
        Ready source r.1.count s ∧ n ≤ r.1.count ∧ r.2.Fits source)
        (f := fun next => pure (⟨s.count, l.place⟩, next)) ?_) s r s' hs.self hp
      rintro next s' r s'' ⟨hready, hnext⟩ hp
      cases hp
      exact ⟨hready, hs.le, hnext⟩
    obtain ⟨hready, hle, hnext⟩ := hmark s (m, next) s₁ hs hheader
    exact (keeps_matchBody hself hnext s₁ a s' hready hp).mono hle
  next => exact keeps_simpleLine hself hl s a s' hs hp

/-! ### Blocks -/

theorem keeps_statement (hl : l.Fits source) : Keeps source n (statement self l) := by
  unfold statement
  split
  · exact keeps_ifStatement hself hl
  · exact Keeps.mark fun m _ => keeps_forStatement hself hl
  · exact keeps_whileStatement hself hl
  · exact keeps_tryStatement hself hl
  · exact Keeps.mark fun m _ => keeps_withStatement hself hl
  · exact Keeps.mark fun m _ => keeps_functionDefinition hself hl
  · exact keeps_classDefinition hself hl
  · exact keeps_asyncStatement hself hl
  · exact keeps_matchStatement hself hl
  · exact keeps_decoratedDefinition hself
  · exact keeps_simpleLine hself hl

theorem keeps_suite : Keeps source n (suite self) := by
  refine .peeking fun l hl => ?_
  split
  · refine (keeps_takeLayout hl.after).bind fun _ => .peeking fun first _ => Keeps.mark fun m _ => ?_
    refine .bind (.repeated (.peeking fun l hl => .ite (fun _ => ?_) fun _ => ?_)) fun _ =>
      keeps_close rfl rfl
    · exact (keeps_takeLayout hl.after).bind fun _ => .done _
    · exact (keeps_statement hself hl).bind fun _ => .done _
  · exact Keeps.mark fun m _ => (keeps_takeLayout hl.after).bind fun _ => keeps_close rfl rfl
  · exact Keeps.mark fun m _ => (keeps_simpleLine hself hl).bind fun _ => keeps_close rfl rfl

theorem keeps_statements : Keeps source n (statements self) := by
  refine .repeated (.peeking fun l hl => .ite (fun _ => .done _) fun _ => ?_)
  exact (keeps_statement hself hl).bind fun _ => .done _

end

end Parse

/-! ### The whole grammar -/

variable {source : List Char}

theorem Rule.keeps_read {self : Rule → Parse Unit}
    (hself : ∀ rule n, Keeps source n (self rule)) (rule : Rule) (n : Nat) :
    Keeps source n (Rule.read self rule) := by
  cases rule with
  | expression level opened follow => exact Parse.keeps_expression hself level opened follow
  | rightSide => exact Parse.keeps_assignable hself true
  | suite => exact Parse.keeps_suite hself
  | casePattern => exact Parse.keeps_casePattern hself
  | simpleCasePattern => exact Parse.keeps_simpleCasePattern hself
  | interpolation nested => exact Parse.keeps_interpolation hself nested

theorem Rule.keeps_readTo (depth : Nat) (rule : Rule) (n : Nat) :
    Keeps source n (Rule.readTo depth rule) := by
  induction depth generalizing rule n with
  | zero => exact .get fun _ _ => Parse.runs_fail _
  | succ depth ih => exact Rule.keeps_read ih rule n

/-- Every dotted name in a tree without problems has its parts where they should be. -/
theorem isSpelled_parse (h : (parse source).hasProblem = false) :
    IsSpelled source (parse source) := by
  unfold parse at h ⊢
  dsimp only at h ⊢
  split at h
  next s hs =>
    have hstart : Ready source 0 (.start source) :=
      ⟨Cursor.of_ofSource source, Nat.le_refl _, rfl, Nat.le_refl _, List.forall_mem_nil _⟩
    have hready : Ready source 0 s :=
      Parse.keeps_statements (Rule.keeps_readTo (depthLimit source)) _ _ _ hstart hs
    refine isSpelled_of_not_isDottable rfl fun c hc => hready.spelled c ?_
    exact List.mem_reverse.1 hc
  next => cases h
  next => cases h

end SourceCorpus.Syntax
