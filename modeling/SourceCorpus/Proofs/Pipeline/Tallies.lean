import SourceCorpus.Generation.Command
import SourceCorpus.Generation.Script
import SourceCorpus.Pipeline.Workers
import SourceCorpus.Proofs.Pipeline.Augmentation

/-!
Generators that go by their context alone. What is asked of such a generator does not depend on what
was asked before: a tally only gets longer, and the artifact of a file is the same after any calls.
-/

namespace SourceCorpus

/-- What the generator makes of a context does not depend on the number of calls before. -/
def Augmenter.GoesByContext (g : Augmenter) : Prop :=
  ∀ n n' context, g.generator n context = g.generator n' context

def Inquiry.GoesByContext (i : Inquiry) : Prop := ∀ g, i.augmenter? = some g → g.GoesByContext

namespace Tally

def add (t u : Tally) : Tally := ⟨t.calls ++ u.calls, t.failures + u.failures⟩

@[simp] theorem add_zero (t : Tally) : t.add .zero = t := by simp [add, zero]

@[simp] theorem zero_add (t : Tally) : zero.add t = t := by simp [add, zero]

theorem add_assoc (t u v : Tally) : (t.add u).add v = t.add (u.add v) := by
  simp [add, List.append_assoc, Nat.add_assoc]

end Tally

/-- The result does not depend on the tally, to which something is added. -/
def OnlyAdds {α : Type} (f : Tally → α × Tally) : Prop :=
  ∀ t, f t = ((f .zero).1, t.add (f .zero).2)

namespace OnlyAdds

variable {α β : Type}

theorem pure (a : α) : OnlyAdds fun t => (a, t) := fun t => by rw [Tally.add_zero]

theorem bind {f : Tally → α × Tally} {h : α → Tally → β × Tally} (hf : OnlyAdds f)
    (hh : ∀ a, OnlyAdds (h a)) : OnlyAdds fun t => h (f t).1 (f t).2 := by
  intro t
  dsimp only
  rw [hf t, hh _ (t.add _), hh _ (f .zero).2, Tally.add_assoc]

theorem map {f : Tally → α × Tally} (hf : OnlyAdds f) (h : α → β) :
    OnlyAdds fun t => (h (f t).1, (f t).2) :=
  hf.bind fun a => pure (h a)

end OnlyAdds

namespace Augmenter

variable {g : Augmenter}

theorem onlyAdds_explain (h : g.GoesByContext) (r : PurposeRequest) : OnlyAdds (g.explain r) := by
  intro t
  rw [explain, explain, request, request]
  cases buildPrompt g.settings.promptTemplate r.query r.material g.settings.contextLength with
  | error failure => simp [Tally.add, Tally.addFailure, Tally.zero]
  | ok prompt =>
    dsimp only
    rw [h t.calls.length (Tally.zero.calls.length)]
    cases (receive (g.contextOf r prompt).timeoutMilliseconds
        (g.generator Tally.zero.calls.length (g.contextOf r prompt))).bind Response.clean with
    | error failure => simp [Tally.add, Tally.addFailure, Tally.addCall, Tally.zero]
    | ok text => simp [Tally.add, Tally.addCall, Tally.zero]

theorem renumbered_eq (h : g.GoesByContext) (number : Nat → Nat) : g.renumbered number = g := by
  have hgenerator : (fun n context => g.generator (number n) context) = g.generator := by
    funext n context
    exact h _ _ context
  rw [renumbered, hgenerator]

end Augmenter

namespace Inquiry

variable {i : Inquiry} {g : Augmenter}

theorem renumbered_eq (h : i.GoesByContext) (number : Nat → Nat) : i.renumbered number = i := by
  rw [renumbered]
  cases haugmenter : i.augmenter? with
  | none => rw [Option.map_none, ← haugmenter]
  | some g => rw [Option.map_some, Augmenter.renumbered_eq (h g haugmenter), ← haugmenter]

theorem onlyAdds_explainNested (h : g.GoesByContext) (a : Analysis) (q : Question)
    (answered : String) (children : List CodeObject) :
    OnlyAdds (explainNested g a q answered children) := by
  induction children with
  | nil => exact .pure []
  | cons child children ih =>
    have hcons : explainNested g a q answered (child :: children) = fun t =>
        ((section? child (g.explain (nestedRequest a q answered child) t).1).toList ++
            (explainNested g a q answered children
              (g.explain (nestedRequest a q answered child) t).2).1,
          (explainNested g a q answered children
            (g.explain (nestedRequest a q answered child) t).2).2) := by
      funext t
      rw [explainNested]
    have hrest : ∀ result, OnlyAdds fun t => ((section? child result).toList ++
        (explainNested g a q answered children t).1,
        (explainNested g a q answered children t).2) := fun result =>
      ih.map fun sections => (section? child result).toList ++ sections
    have hall := (Augmenter.onlyAdds_explain h (nestedRequest a q answered child)).bind hrest
    rw [hcons]
    exact hall

theorem onlyAdds_explain (h : g.GoesByContext) (i : Inquiry) (a : Analysis) (q : Question)
    (id : ObjectId) (answered : String) : OnlyAdds (i.explain g a q id answered) := by
  intro t
  rw [explain, explain, Augmenter.onlyAdds_explain h (i.requestFor a q id answered) t]
  rcases g.explain (i.requestFor a q id answered) .zero with ⟨failure | text, u⟩
  · rfl
  · have hnested := onlyAdds_explainNested h a q answered (i.nestedTargets a id)
    dsimp only
    rw [hnested (t.add u), hnested u, Tally.add_assoc]

theorem onlyAdds_answer (h : i.GoesByContext) (a : Analysis) (q : Question) (id : ObjectId)
    (answered : String) : OnlyAdds (i.answer a q id answered) := by
  intro t
  rw [answer, answer]
  cases haugmenter : i.augmenter? with
  | none => rw [Tally.add_zero]
  | some g =>
    dsimp only
    split
    · rw [onlyAdds_explain (h g haugmenter) i a q id answered t]
      rcases i.explain g a q id answered .zero with ⟨_ | text, u⟩ <;> rfl
    · rw [Tally.add_zero]

/-- The assembler after one more answer, whatever was asked of the generator before. -/
theorem onlyAdds_ask (h : i.GoesByContext) (a : Analysis) (s : Assembler)
    (asked : Question × ObjectId) : OnlyAdds fun t => i.ask a (s, t) asked := by
  intro t
  dsimp only
  rw [ask, ask, onlyAdds_answer h a asked.1 asked.2 (codeQa s.quotedRecords) t]

theorem onlyAdds_foldl_ask (h : i.GoesByContext) (a : Analysis) (s : Assembler)
    (asked : List (Question × ObjectId)) :
    OnlyAdds fun t => asked.foldl (i.ask a) (s, t) := by
  induction asked generalizing s with
  | nil => exact .pure s
  | cons x asked ih =>
    have hstep := (onlyAdds_ask h a s x).bind fun s' => ih s'
    exact hstep

theorem onlyAdds_artifactOf (h : i.GoesByContext) (f : SourceFile) (m : CodeModel) :
    OnlyAdds (i.artifactOf f m) := by
  have hasked := onlyAdds_foldl_ask h (.ofModel m) .empty (i.questionsFor (.ofModel m))
  have hartifact := hasked.map fun assembler =>
    (⟨f.id, assembler.records, (Analysis.ofModel m).graph.toJson, f.fingerprint⟩ : Artifact)
  exact hartifact

/-- What is kept of a file does not depend on what was asked of the generator before. -/
theorem onlyAdds_artifact (h : i.GoesByContext) (f : SourceFile) : OnlyAdds (i.artifact f) := by
  intro t
  rw [artifact, artifact]
  cases Extraction.extract f.id f.source with
  | error e => rw [Tally.add_zero]
  | ok m =>
    dsimp only
    rw [onlyAdds_artifactOf h f m t]

end Inquiry

/-! ### Generators that go by their context -/

theorem goesByContext_toGenerator (settings : GenerationSettings) (system : System)
    (c : CommandLine) : (⟨settings, c.toGenerator system⟩ : Augmenter).GoesByContext :=
  fun _ _ _ => rfl

theorem goesByContext_ofRules (settings : GenerationSettings) (rules : List ScriptRule) :
    (⟨settings, .ofRules rules⟩ : Augmenter).GoesByContext :=
  fun _ _ _ => rfl

end SourceCorpus
