import Mathlib.Data.String.Basic
import SourceCorpus.Generation.Prompt
import SourceCorpus.Proofs.Config.Budget

/-!
Which prompt is chosen. Main statement: it is the first of the four that fits, there is none exactly if
the one without code does not fit, and a longer context window never takes a later one.
-/

namespace SourceCorpus

open Limits

/-! ### The first prompt that fits -/

/-- The prompt is the first in the list that fits, at this place. -/
structure IsFirstFit (available : Nat) (prompts : List String) (i : Nat) (prompt : String) :
    Prop where
  found : prompts[i]? = some prompt
  fits : estimateTokens prompt ≤ available
  before : ∀ j < i, ∀ other, prompts[j]? = some other → available < estimateTokens other

variable {available required i : Nat} {prompt : String} {prompts : List String}

theorem isFirstFit_zero_iff :
    IsFirstFit available (prompt :: prompts) 0 prompt ↔ estimateTokens prompt ≤ available :=
  ⟨fun h => h.fits, fun h => ⟨rfl, h, fun _ hj => absurd hj (Nat.not_lt_zero _)⟩⟩

/-- A prompt behind the first is taken if the first does not fit. -/
theorem isFirstFit_succ_iff {first : String} :
    IsFirstFit available (first :: prompts) (i + 1) prompt ↔
      available < estimateTokens first ∧ IsFirstFit available prompts i prompt := by
  constructor
  · rintro ⟨hfound, hfits, hbefore⟩
    exact ⟨hbefore 0 (Nat.succ_pos i) first rfl, hfound, hfits,
      fun j hj => hbefore (j + 1) (Nat.succ_lt_succ hj)⟩
  · rintro ⟨hfirst, hfound, hfits, hbefore⟩
    refine ⟨hfound, hfits, fun j hj other hother => ?_⟩
    cases j with
    | zero => exact Option.some.inj hother ▸ hfirst
    | succ j => exact hbefore j (Nat.lt_of_succ_lt_succ hj) other hother

theorem firstFitting_eq_ok_iff :
    firstFitting available required prompts = .ok prompt ↔
      ∃ i, IsFirstFit available prompts i prompt := by
  induction prompts generalizing required with
  | nil => exact ⟨(nomatch ·), fun ⟨_, h⟩ => nomatch h.found⟩
  | cons first prompts ih =>
    rw [firstFitting]
    split
    next hfits =>
      constructor
      · intro h
        cases h
        exact ⟨0, isFirstFit_zero_iff.2 hfits⟩
      · rintro ⟨i, h⟩
        cases i with
        | zero => rw [Option.some.inj h.found]
        | succ i => exact absurd (isFirstFit_succ_iff.1 h).1 (Nat.not_lt.2 hfits)
    next hfits =>
      rw [ih]
      refine ⟨fun ⟨i, h⟩ => ⟨i + 1, isFirstFit_succ_iff.2 ⟨Nat.not_le.1 hfits, h⟩⟩, ?_⟩
      rintro ⟨i, h⟩
      cases i with
      | zero => exact absurd (Option.some.inj h.found ▸ h.fits) hfits
      | succ i => exact ⟨i, (isFirstFit_succ_iff.1 h).2⟩

/-- There is no prompt if none fits; what is reported is the size of the last one. -/
theorem firstFitting_concat_eq_error_iff {last : String} {failure : GenerationFailure} :
    firstFitting available required (prompts ++ [last]) = .error failure ↔
      (∀ prompt ∈ prompts ++ [last], available < estimateTokens prompt) ∧
        failure = .contextOverflow (estimateTokens last) available := by
  induction prompts generalizing required with
  | nil =>
    rw [List.nil_append, firstFitting, firstFitting, List.forall_mem_singleton]
    split
    next hfits => exact ⟨(nomatch ·), fun h => absurd h.1 (Nat.not_lt.2 hfits)⟩
    next hfits => simp [Nat.not_le.1 hfits, eq_comm]
  | cons first prompts ih =>
    rw [List.cons_append, firstFitting, List.forall_mem_cons]
    split
    next hfits => exact ⟨(nomatch ·), fun h => absurd h.1.1 (Nat.not_lt.2 hfits)⟩
    next hfits => rw [ih, and_iff_right (Nat.not_le.1 hfits)]

/-- With more room the first prompt that fits comes no later. -/
theorem IsFirstFit.exists_le (h : IsFirstFit available prompts i prompt) {more : Nat}
    (hmore : available ≤ more) : ∃ i' ≤ i, ∃ prompt', IsFirstFit more prompts i' prompt' := by
  induction prompts generalizing i with
  | nil => cases h.found
  | cons first prompts ih =>
    by_cases hfits : estimateTokens first ≤ more
    · exact ⟨0, Nat.zero_le i, first, isFirstFit_zero_iff.2 hfits⟩
    · cases i with
      | zero =>
        obtain rfl := Option.some.inj h.found
        exact absurd (h.fits.trans hmore) hfits
      | succ i =>
        obtain ⟨i', hle, prompt', h'⟩ := ih (isFirstFit_succ_iff.1 h).2
        exact ⟨i' + 1, Nat.succ_le_succ hle, prompt',
          isFirstFit_succ_iff.2 ⟨Nat.not_le.1 hfits, h'⟩⟩

/-! ### Sizes of prompts -/

/-- A longer context makes no shorter prompt, however often the template has it. -/
theorem utf8ByteSize_fillTemplate_le (template query : String) {context context' : String}
    (h : context.utf8ByteSize ≤ context'.utf8ByteSize) :
    (fillTemplate template context query).utf8ByteSize ≤
      (fillTemplate template context' query).utf8ByteSize := by
  rw [← String.ofList_toList (s := context), ← String.ofList_toList (s := context'),
    String.utf8ByteSize_ofList, String.utf8ByteSize_ofList] at h
  rw [fillTemplate, fillTemplate, String.utf8ByteSize_ofList, String.utf8ByteSize_ofList]
  induction templateParts template.toList with
  | nil => exact Nat.le_refl _
  | cons part parts ih =>
    rw [List.flatMap_cons, List.flatMap_cons, String.utf8Len_append, String.utf8Len_append]
    refine Nat.add_le_add ?_ ih
    cases part with
    | char c | query => exact Nat.le_refl _
    | context => exact h

namespace PromptMaterial

def bare (p : PromptMaterial) (template query : String) : String :=
  fillTemplate template (p.contextWith "") query

theorem prompts_eq (p : PromptMaterial) (template query : String) :
    p.prompts template query =
      [fillTemplate template (p.contextWith (fenced p.objectSource)) query,
        fillTemplate template (p.contextWith (fenced p.simplifiedSource)) query,
        fillTemplate template (p.contextWith p.fileSummary) query] ++ [p.bare template query] := rfl

theorem estimateTokens_bare_le (p : PromptMaterial) (template query : String) :
    ∀ prompt ∈ p.prompts template query,
      estimateTokens (p.bare template query) ≤ estimateTokens prompt := by
  intro prompt hprompt
  obtain ⟨code, -, rfl⟩ := List.mem_map.1 hprompt
  refine estimateTokens_mono (utf8ByteSize_fillTemplate_le template query ?_)
  have hempty : "".utf8ByteSize = 0 := rfl
  simp only [contextWith, String.utf8ByteSize_append, hempty]
  omega

/-- The prompts are those with the source of the object, with its simplified form, with the summary and
without code. They are chosen by this order, as far as the context window allows. -/
structure ChoosesFirstFit (p : PromptMaterial) (template query : String) : Prop where
  prompts : p.prompts template query =
    ["```python\n" ++ p.objectSource ++ "\n```", "```python\n" ++ p.simplifiedSource ++ "\n```",
      p.fileSummary, ""].map fun code =>
        fillTemplate template (code ++ "\nCODE Q and A:\n" ++ p.codeQa) query
  bare : (p.prompts template query)[3]? = some (p.bare template query)
  ok_iff : ∀ length prompt, buildPrompt template query p length = .ok prompt ↔
    ∃ i, IsFirstFit (contextBudget length) (p.prompts template query) i prompt
  error_iff : ∀ length failure, buildPrompt template query p length = .error failure ↔
    contextBudget length < estimateTokens (p.bare template query) ∧
      failure = .contextOverflow (estimateTokens (p.bare template query)) (contextBudget length)
  least : ∀ prompt ∈ p.prompts template query,
    estimateTokens (p.bare template query) ≤ estimateTokens prompt
  monotone : ∀ length longer, length ≤ longer → ∀ i prompt,
    IsFirstFit (contextBudget length) (p.prompts template query) i prompt →
      ∃ i' ≤ i, ∃ prompt', buildPrompt template query p longer = .ok prompt' ∧
        IsFirstFit (contextBudget longer) (p.prompts template query) i' prompt'

theorem choosesFirstFit (p : PromptMaterial) (template query : String) :
    p.ChoosesFirstFit template query := by
  have hok (length : Nat) (prompt : String) : buildPrompt template query p length = .ok prompt ↔
      ∃ i, IsFirstFit (contextBudget length) (p.prompts template query) i prompt :=
    firstFitting_eq_ok_iff
  refine ⟨rfl, rfl, hok, fun length failure => ?_, p.estimateTokens_bare_le template query, ?_⟩
  · have hbare : p.bare template query ∈ p.prompts template query := by simp [prompts_eq]
    rw [buildPrompt, prompts_eq, firstFitting_concat_eq_error_iff, ← prompts_eq]
    refine and_congr_left fun _ => ⟨fun h => h _ hbare, fun h prompt hprompt => ?_⟩
    exact h.trans_le (p.estimateTokens_bare_le template query prompt hprompt)
  · intro length longer hle i prompt h
    obtain ⟨i', hi', prompt', h'⟩ := h.exists_le (contextBudget_mono hle)
    exact ⟨i', hi', prompt', (hok longer prompt').2 ⟨i', h'⟩, h'⟩

/-- In a narrower and narrower window the prompt has the source, the source without its comment, the
summary and no code. In the end no prompt fits. -/
theorem choosesFirstFit_of_narrow_windows :
    let p : PromptMaterial := ⟨"def f(x):\n    # doubles it\n    return 2 * x",
      "def f(x):\n    return 2 * x", "functions: f", "Q: Functions? \nA: f"⟩
    let rest := "\nCODE Q and A:\nQ: Functions? \nA: f\nQuery: Purpose?"
    let prompt length := buildPrompt "{context}\nQuery: {query}" "Purpose?" p length
    p.ChoosesFirstFit "{context}\nQuery: {query}" "Purpose?" ∧
      [44, 38, 28, 24, 18].map prompt =
        [.ok ("```python\ndef f(x):\n    # doubles it\n    return 2 * x\n```" ++ rest),
          .ok ("```python\ndef f(x):\n    return 2 * x\n```" ++ rest), .ok ("functions: f" ++ rest),
          .ok rest, .error (.contextOverflow 14 12)] := by
  intro p rest prompt
  exact ⟨choosesFirstFit p _ _, by decide +kernel⟩

end PromptMaterial

end SourceCorpus
