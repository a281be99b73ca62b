import SourceCorpus.Proofs.Syntax.CompoundStatements
import SourceCorpus.Syntax.Grammar

/-!
The tree of every text that the grammar accepts is in shape.
-/

namespace SourceCorpus.Syntax

open SourceCorpus.Syntax.Tree

theorem Rule.yields_read {self : Rule → Parse Unit} (hself : ∀ rule, Adds (self rule) rule.Yields)
    (rule : Rule) : Adds (Rule.read self rule) rule.Yields := by
  cases rule with
  | expression level opened follow => exact Parse.adds_expression hself level opened follow
  | rightSide => exact Parse.adds_assignable hself true
  | suite => exact Parse.adds_suite hself
  | casePattern => exact Parse.adds_casePattern hself
  | simpleCasePattern => exact Parse.adds_simpleCasePattern hself
  | interpolation nested => exact Parse.adds_interpolation hself nested

theorem Rule.yields_readTo (depth : Nat) (rule : Rule) : Adds (Rule.readTo depth rule) rule.Yields := by
  induction depth generalizing rule with
  | zero => exact fun _ => .get fun _ _ => Parse.runs_fail _
  | succ depth ih => exact Rule.yields_read ih rule

/-- A tree without problems is that of a module in shape. -/
theorem isStatement_parse {source : List Char} (h : (parse source).hasProblem = false) :
    IsStatement (parse source) ∧ (parse source).isKind .module := by
  unfold parse at h ⊢
  dsimp only at h ⊢
  split at h
  next s hs =>
    have hstart : Holds [] Nothing (.start source) := ⟨rfl, [], rfl, List.forall_mem_nil _, rfl⟩
    have hstatements := Parse.adds_statements (Rule.yields_readTo (depthLimit source))
    obtain ⟨-, recent, hfinished, hgaps, hrecent⟩ := hstatements [] _ _ _ hstart hs
    have hpart : ∀ c ∈ s.finished.reverse, IsWhole c := fun c hc => by
      have hmem : c ∈ recent := by simpa [hfinished] using hc
      by_cases htrivia : c.isTrivia
      · exact (hgaps c hmem htrivia).plain.isWhole
      · exact hrecent c (List.mem_filter.2 ⟨hmem, by simpa using htrivia⟩)
    exact ⟨.node rfl (fun c hc => (hpart c hc).exposes) fun c hc =>
      ⟨(hpart c hc).isOrdinary, (hpart c hc).shaped⟩, rfl⟩
  next => cases h
  next => cases h

end SourceCorpus.Syntax
