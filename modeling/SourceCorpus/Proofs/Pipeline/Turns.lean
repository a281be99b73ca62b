import SourceCorpus.Proofs.Pipeline.Settlement

/-!
The turns of workers. Main statements: a turn leads from a stage that fits what the store answers about
the file to another such stage, and after five turns a worker has finished.
-/

namespace SourceCorpus

open DatasetStore

/-- The stage is one that a file about which the store answers this can be in. -/
def Stage.Fits (p : Pipeline) (a : Answers) (f : SourceFile) : Stage → Prop
  | .waiting => True
  | .comparing => p.reuse ∧ a.holds ∧ p.validity = .contentHash
  | .loading => p.reusable? a f = a.records?
  | .questioning => p.reusable? a f = none
  | .saving artifact => (p.settle a f).outcome = ⟨f.id, .generated, artifact.records⟩ ∧
      (p.settle a f).artifact? = some artifact
  | .finished outcome => (p.settle a f).outcome = outcome

def Stage.spent (settlement : Settlement) : Stage → Nat
  | .saving _ | .finished _ => settlement.failures
  | _ => 0

def Stage.left : Stage → Nat
  | .waiting => 5
  | .comparing => 4
  | .loading => 3
  | .questioning => 2
  | .saving _ => 1
  | .finished _ => 0

namespace Pipeline

variable {σ : Type} [DatasetStore σ] {p : Pipeline} {s : σ} {f : SourceFile} {stage : Stage}

structure Leads (p : Pipeline) (s : σ) (f : SourceFile) (stage : Stage)
    (next : Stage × σ × Nat) : Prop where
  fits : next.1.Fits p (answers s f.id) f
  failures : next.1.spent (p.settleIn s f) = stage.spent (p.settleIn s f) + next.2.2
  /-- What is settled of the file is stored when it is finished. -/
  store : next.2.1 =
    if next.1.outcome?.isSome then saveAll s (p.settleIn s f).artifact?.toList else s

/-- A turn that only looks at the store. -/
theorem Leads.of_open {next : Stage} (hfits : next.Fits p (answers s f.id) f)
    (hspent : next.spent (p.settleIn s f) = stage.spent (p.settleIn s f))
    (hopen : next.outcome? = none) : Leads p s f stage (next, s, 0) :=
  ⟨hfits, hspent, by simp [hopen]⟩

theorem leads_waiting (number : Nat → Nat) :
    Leads p s f .waiting (p.advance f number s .waiting) := by
  rw [advance]
  split
  next hheld =>
    rw [Bool.and_eq_true] at hheld
    split
    next hv =>
      refine .of_open ?_ rfl rfl
      rw [Stage.Fits, reusable?, if_pos hheld.1, Answers.reusable?.eq_def, hv]
      exact if_pos hheld.2
    next hv => exact .of_open ⟨hheld.1, hheld.2, hv⟩ rfl rfl
  next hheld =>
    rw [Bool.and_eq_true, not_and, Bool.not_eq_true] at hheld
    refine .of_open ?_ rfl rfl
    rw [Stage.Fits, reusable?]
    split
    next hreuse =>
      have hholds : (answers s f.id).holds = false := hheld hreuse
      rw [Answers.reusable?.eq_def]
      cases p.validity <;> simp [hholds]
    next => rfl

theorem leads_comparing (number : Nat → Nat)
    (hfits : Stage.comparing.Fits p (answers s f.id) f) :
    Leads p s f .comparing (p.advance f number s .comparing) := by
  obtain ⟨hreuse, hholds, hv⟩ := hfits
  have hreusable : p.reusable? (answers s f.id) f =
      if fingerprint? s f.id == some f.fingerprint then (answers s f.id).records? else none := by
    rw [reusable?, if_pos hreuse, Answers.reusable?.eq_def, hv]
    simp only [hholds, Bool.true_and]
    rfl
  rw [advance]
  split
  next hsame => exact .of_open (hreusable.trans (if_pos hsame)) rfl rfl
  next hother => exact .of_open (hreusable.trans (if_neg hother)) rfl rfl

theorem leads_loading (number : Nat → Nat) (hfits : Stage.loading.Fits p (answers s f.id) f) :
    Leads p s f .loading (p.advance f number s .loading) := by
  have hreusable : p.reusable? (answers s f.id) f = (load s f.id).toOption := hfits
  rw [advance]
  split
  next records hload =>
    rw [hload] at hreusable
    have hsettle : p.settleIn s f = ⟨⟨f.id, .reused, records⟩, none, 0⟩ :=
      settle_of_reusable hreusable
    exact ⟨congrArg Settlement.outcome hsettle, congrArg Settlement.failures hsettle,
      by rw [hsettle]; rfl⟩
  next e hload =>
    rw [hload] at hreusable
    exact .of_open hreusable rfl rfl

theorem leads_questioning (h : p.inquiry.GoesByContext) (number : Nat → Nat)
    (hfits : Stage.questioning.Fits p (answers s f.id) f) :
    Leads p s f .questioning (p.advance f number s .questioning) := by
  rw [advance, Inquiry.renumbered_eq h]
  rcases hartifact : p.inquiry.artifact f .zero with ⟨e | artifact, t⟩
  · have hsettle : p.settleIn s f = _ := settle_of_error hfits hartifact
    exact ⟨congrArg Settlement.outcome hsettle,
      (congrArg Settlement.failures hsettle).trans (Nat.zero_add _).symm, by rw [hsettle]; rfl⟩
  · have hsettle : p.settleIn s f = _ := settle_of_ok hfits hartifact
    exact ⟨⟨congrArg Settlement.outcome hsettle, congrArg Settlement.artifact? hsettle⟩,
      (congrArg Settlement.failures hsettle).trans (Nat.zero_add _).symm, rfl⟩

theorem leads_saving (number : Nat → Nat) {artifact : Artifact}
    (hfits : (Stage.saving artifact).Fits p (answers s f.id) f) :
    Leads p s f (.saving artifact) (p.advance f number s (.saving artifact)) := by
  refine ⟨hfits.1, rfl, ?_⟩
  have hartifact : (p.settleIn s f).artifact? = some artifact := hfits.2
  rw [hartifact]
  rfl

/-- A worker that has not finished goes on to a stage that fits. -/
theorem leads_advance (h : p.inquiry.GoesByContext) (number : Nat → Nat)
    (hfits : stage.Fits p (answers s f.id) f) (hopen : stage.outcome? = none) :
    Leads p s f stage (p.advance f number s stage) := by
  cases stage with
  | waiting => exact leads_waiting number
  | comparing => exact leads_comparing number hfits
  | loading => exact leads_loading number hfits
  | questioning => exact leads_questioning h number hfits
  | saving artifact => exact leads_saving number hfits
  | finished outcome => cases hopen

/-! ### Turns -/

/-- A turn changes nothing, or is that of a worker that has not finished yet. -/
theorem takeTurn_cases (p : Pipeline) (w : Workers σ) (turn : Turn) :
    p.takeTurn w turn = w ∨ ∃ before f stage after, w.tasks = before ++ (f, stage) :: after ∧
      turn.worker = before.length ∧ stage.outcome? = none ∧
      let next := p.advance f turn.callNumber w.store stage
      p.takeTurn w turn = ⟨next.2.1, w.failures + next.2.2, before ++ (f, next.1) :: after,
        w.outcomes ++ next.1.outcome?.toList.map fun outcome => (before.length, outcome)⟩ := by
  cases htask : w.tasks[turn.worker]? with
  | none => exact .inl (by rw [takeTurn, htask])
  | some task =>
    obtain ⟨f, stage⟩ := task
    cases hopen : stage.outcome? with
    | some outcome => exact .inl (by rw [takeTurn, htask]; simp [hopen])
    | none =>
      obtain ⟨hlt, htask'⟩ := List.getElem?_eq_some_iff.1 htask
      refine .inr ⟨w.tasks.take turn.worker, f, stage, w.tasks.drop (turn.worker + 1), ?_, ?_, hopen,
        ?_⟩
      · rw [← htask', ← List.drop_eq_getElem_cons hlt, List.take_append_drop]
      · rw [List.length_take, Nat.min_eq_left (Nat.le_of_lt hlt)]
      · rw [takeTurn, htask]
        simp only [hopen, Option.isSome_none, Bool.false_eq_true, if_false, List.length_take,
          Nat.min_eq_left (Nat.le_of_lt hlt), List.set_eq_take_append_cons_drop, if_pos hlt]

/-- The files stay with their workers. -/
theorem files_takeTurn (p : Pipeline) (w : Workers σ) (turn : Turn) :
    (p.takeTurn w turn).tasks.map (·.1) = w.tasks.map (·.1) := by
  obtain hsame | ⟨before, f, stage, after, htasks, -, -, hturn⟩ := takeTurn_cases p w turn
  · rw [hsame]
  · rw [hturn, htasks, List.map_append, List.map_append, List.map_cons, List.map_cons]

theorem files_work (p : Pipeline) (s : σ) (files : List SourceFile) (turns : List Turn) :
    (p.work s files turns).tasks.map (·.1) = files := by
  have hkept : ∀ w : Workers σ,
      (turns.foldl p.takeTurn w).tasks.map (·.1) = w.tasks.map (·.1) := by
    induction turns with
    | nil => exact fun w => rfl
    | cons turn turns ih => exact fun w => (ih _).trans (files_takeTurn p w turn)
  rw [work, hkept, Workers.ready, List.map_map]
  exact List.map_id files

/-! ### Progress -/

theorem left_advance_lt (p : Pipeline) (f : SourceFile) (number : Nat → Nat) (s : σ)
    (hopen : stage.outcome? = none) : (p.advance f number s stage).1.left < stage.left := by
  cases stage with
  | waiting =>
    rw [advance]
    split
    next => cases p.validity <;> simp [Stage.left]
    next => simp [Stage.left]
  | comparing => rw [advance]; split <;> simp [Stage.left]
  | loading => rw [advance]; split <;> simp [Stage.left]
  | questioning => rw [advance]; split <;> simp [Stage.left]
  | saving artifact => simp [advance, Stage.left]
  | finished outcome => cases hopen

/-- A worker gets on with its file in its own turns, and is not set back in those of others. -/
theorem left_takeTurn (p : Pipeline) (w : Workers σ) (turn : Turn) {n : Nat}
    (htask : w.tasks[n]? = some (f, stage)) :
    ∃ stage', (p.takeTurn w turn).tasks[n]? = some (f, stage') ∧
      stage'.left ≤ stage.left - [turn].countP (·.worker == n) := by
  by_cases hn : turn.worker = n
  · subst hn
    rw [takeTurn, htask]
    cases hopen : stage.outcome? with
    | some outcome =>
      have hleft : stage.left = 0 := by cases stage with
        | finished => rfl
        | _ => cases hopen
      exact ⟨stage, by simpa [hopen] using htask, by omega⟩
    | none =>
      have hlt := left_advance_lt p f turn.callNumber w.store hopen
      obtain ⟨hbound, -⟩ := List.getElem?_eq_some_iff.1 htask
      exact ⟨(p.advance f turn.callNumber w.store stage).1, by simp [hopen, hbound], by simp; omega⟩
  · refine ⟨stage, ?_, by simp [hn]⟩
    rw [takeTurn]
    split
    next => exact htask
    next =>
      split
      · exact htask
      · exact (List.getElem?_set_ne hn).trans htask

theorem left_foldl_takeTurn (p : Pipeline) {n : Nat} (turns : List Turn) {w : Workers σ}
    (htask : w.tasks[n]? = some (f, stage)) :
    ∃ stage', (turns.foldl p.takeTurn w).tasks[n]? = some (f, stage') ∧
      stage'.left ≤ stage.left - turns.countP (·.worker == n) := by
  induction turns generalizing w stage with
  | nil => exact ⟨stage, htask, le_rfl⟩
  | cons turn turns ih =>
    obtain ⟨stage', htask', hle⟩ := left_takeTurn p w turn htask
    obtain ⟨stage'', htask'', hle'⟩ := ih htask'
    refine ⟨stage'', htask'', ?_⟩
    rw [← List.singleton_append, List.countP_append]
    omega

/-- Workers that had five turns each are done. -/
theorem isDone_work {files : List SourceFile} {turns : List Turn}
    (h : ∀ n < files.length, 5 ≤ turns.countP (·.worker == n)) (p : Pipeline) (s : σ) :
    (p.work s files turns).isDone := by
  rw [Workers.isDone, List.all_eq_true]
  intro task htask
  obtain ⟨n, hget⟩ := List.mem_iff_getElem?.1 htask
  have hlt : n < files.length := by
    rw [← files_work p s files turns, List.length_map]
    exact (List.getElem?_eq_some_iff.1 hget).1
  have hstart : (Workers.ready s files).tasks[n]? = some (files[n], .waiting) := by
    simp [Workers.ready, hlt]
  obtain ⟨stage, hstage, hleft⟩ := left_foldl_takeTurn p turns hstart
  obtain rfl : task = (files[n], stage) := Option.some.inj (hget.symm.trans hstage)
  have hzero : stage.left = 0 := by
    have hturns := h n hlt
    rw [Stage.left] at hleft
    omega
  cases stage with
  | finished => rfl
  | _ => cases hzero

end Pipeline

end SourceCorpus
