import SourceCorpus.Proofs.Syntax.Expressions
import SourceCorpus.Syntax.CasePattern

/-!
The patterns of a case are read as plain trees.
-/

namespace SourceCorpus.Syntax.Parse

variable {self : Rule → Parse Unit} {older : List Tree}

theorem adds_identifier_plain : Adds identifier (All Plain) :=
  adds_identifier.all.imp fun _ hts => hts.imp fun _ ht => ht.plain

theorem adds_leaf_identifier_plain (l : Lookahead) : Adds (leaf .identifier l) (All Plain) :=
  (adds_identifier_leaf l).all.imp fun _ hts => hts.imp fun _ ht => ht.plain

theorem adds_casePatterns {item : Parse Unit} (h : Adds item (All Plain)) (closer : Sign) :
    Adds (casePatterns item closer) (All Plain) := by
  refine .of_keeps fun older => .peek_bind fun first => .ite (fun _ => ?_) fun _ => ?_
  · exact quiet_take first older _
  · exact h.keeps.bind fun _ => (adds_moreItems h closer).keeps.bind fun _ => .done _

theorem adds_splatPattern (l : Lookahead) : Adds (splatPattern l) (One Plain) := by
  refine .node Plain l fun older m hm => .take_bind fun _ => .peek_bind fun next => ?_
  have hclose : Runs (Holds older (All Plain)) (close m .splatPattern) (Holds older (One Plain)) :=
    runs_close_plain hm rfl
  split
  · exact .quiet_bind (quiet_take next) fun _ => hclose
  · exact (adds_leaf_identifier_plain next).keeps.bind fun _ => hclose
  · exact runs_fail_bind _ _

theorem adds_number : Adds number (All Plain) := by
  refine .peek_bind fun l => ?_
  split
  · exact (adds_leaf_plain rfl l).all
  · exact (adds_leaf_plain rfl l).all
  · exact fun _ => runs_fail _

theorem adds_numberPattern (l : Lookahead) : Adds (numberPattern l) (All Plain) := by
  refine .node Plain l fun older m hm => .optional (quiet_take l older _) ?_
  refine adds_number.keeps.bind fun _ => .peek_bind fun next => .ite (fun _ => ?_) fun _ => .done _
  exact .take_bind fun _ => adds_number.keeps.bind fun _ => runs_close_all_plain hm rfl

section

variable (hself : ∀ rule, Adds (self rule) rule.Yields)
include hself

theorem adds_dictItem : Adds (dictItem self) (All Plain) := by
  refine .peek_bind fun l => .ite (fun _ => (adds_splatPattern l).all) fun _ => ?_
  refine .of_keeps fun older => (hself .simpleCasePattern).keeps.bind fun _ => ?_
  exact .quiet_bind (quiet_sign _ _) fun _ => (hself .casePattern).keeps

theorem adds_namePattern (l : Lookahead) : Adds (namePattern self l) (All Plain) := by
  have hname : Adds (dottedName .bracketed) (All Plain) :=
    (adds_dottedName _).all.imp fun _ hts => hts.imp fun _ ht => ht.1.plain
  refine .node Plain l fun older m hm => hname.keeps.bind fun _ => .peek_bind fun next => ?_
  refine .ite (fun _ => .take_bind fun _ => ?_) fun _ => .done _
  exact (adds_casePatterns (hself .casePattern) _).keeps.bind fun _ => runs_close_all_plain hm rfl

theorem adds_closedPattern : Adds (closedPattern self) (All Plain) := by
  have hpatterns {older : List Tree} {m : Mark} (hm : m.count = older.length) (l : Lookahead)
      {item : Parse Unit} (h : Adds item (All Plain)) (closer : Sign) {kind : Kind}
      (hkind : kind.isPlain) : Runs (Holds older (All Plain)) (do
        take l
        casePatterns item closer
        close m kind) (Holds older (All Plain)) :=
    .take_bind fun _ => (adds_casePatterns h closer).keeps.bind fun _ =>
      runs_close_all_plain hm hkind
  refine .peek_bind fun l => .node Plain l fun older m hm => ?_
  split
  · exact (adds_strings hself l _ _).all.keeps
  · exact (adds_leaf_plain rfl l).all.keeps
  · exact (adds_leaf_plain rfl l).all.keeps
  · exact (adds_leaf_plain rfl l).all.keeps
  · exact quiet_take l older _
  · exact (adds_namePattern hself l).keeps
  · exact (adds_numberPattern l).keeps
  · exact (adds_numberPattern l).keeps
  · exact (adds_numberPattern l).keeps
  · exact (adds_splatPattern l).all.keeps
  · exact (adds_splatPattern l).all.keeps
  · exact hpatterns hm l (hself .casePattern) _ rfl
  · exact hpatterns hm l (hself .casePattern) _ rfl
  · exact hpatterns hm l (adds_dictItem hself) _ rfl
  · exact runs_fail _

theorem adds_simpleCasePattern : Adds (simpleCasePattern self) (All Plain) := by
  have hclosed := adds_closedPattern hself
  refine .peek_bind fun l => .node Plain l fun older m hm => hclosed.keeps.bind fun _ => ?_
  refine .peek_bind fun next => .ite (fun _ => ?_) fun _ => .done _
  refine .bind (.repeated (.peek_bind fun l => ?_)) fun _ => runs_close_all_plain hm rfl
  exact .ite (fun _ => .take_bind fun _ => hclosed.keeps.bind fun _ => .done _) fun _ => .done _

omit hself in
theorem quiet_beginsKeyword (l : Lookahead) : Quiet (beginsKeyword l) := by
  intro older L
  unfold beginsKeyword
  split
  · refine .get fun before hbefore => .take_bind fun _ => .peek_bind fun next => ?_
    exact .bind (.set hbefore) fun _ => .done _
  · exact .done _

theorem adds_casePattern : Adds (casePattern self) (All Plain) := by
  have hpattern : Adds (self .simpleCasePattern) (All Plain) := hself .simpleCasePattern
  refine .peek_bind fun l => .node Plain l fun older m hm => ?_
  have hclose {kind : Kind} (hkind : kind.isPlain) :
      Runs (Holds older (All Plain)) (close m kind) (Holds older (All Plain)) :=
    runs_close_all_plain hm hkind
  refine .quiet_bind (quiet_beginsKeyword l) fun _ => .ite (fun _ => ?_) fun _ => ?_
  · refine (adds_leaf_identifier_plain l).keeps.bind fun _ => .quiet_bind (quiet_sign _ _) fun _ => ?_
    exact hpattern.keeps.bind fun _ => (hclose rfl).bind fun _ => hclose rfl
  · refine hpattern.keeps.bind fun _ => .bind (.repeated (.peek_bind fun next => ?_)) fun _ => hclose rfl
    refine .ite (fun _ => (hclose rfl).bind fun _ => .take_bind fun _ => ?_) fun _ => .done _
    exact adds_identifier_plain.keeps.bind fun _ => (hclose rfl).bind fun _ => .done _

end

end SourceCorpus.Syntax.Parse
