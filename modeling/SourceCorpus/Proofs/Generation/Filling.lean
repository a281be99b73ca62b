import SourceCorpus.Config.Model
import SourceCorpus.Generation.Prompt
import SourceCorpus.Proofs.Generation.Prompts
import SourceCorpus.Proofs.Question.Cuts

/-!
Filling the template of a prompt. Main statement: what stands between the marks stays as it is and the
values stand in their place as they are, so a prompt from a template that is accepted has the query and
all of the context in it.
-/

namespace SourceCorpus

open Text

def promptMarks : List String := ["{context}", "{query}"]

def promptValue (context query mark : String) : String :=
  if mark = "{context}" then context else query

variable {context query mark template prompt code : String} {cs rest : List Char} {t : Template}

theorem isMark_promptMarks : ∀ mark ∈ promptMarks, IsMark mark := by decide

/-! ### The parts of a template -/

theorem templateParts_cons {c : Char} (hno : ∀ mark ∈ promptMarks, ¬mark.toList <+: c :: cs) :
    templateParts (c :: cs) = .char c :: templateParts cs := by
  refine templateParts.eq_3 c cs ?_ ?_
  · rintro rest rfl rfl
    exact hno "{context}" (by decide) ⟨rest, rfl⟩
  · rintro rest rfl rfl
    exact hno "{query}" (by decide) ⟨rest, rfl⟩

/-- Characters without a mark in them are text before a mark and at the end. -/
theorem templateParts_append (hno : ∀ mark ∈ promptMarks, ¬mark.toList <:+: cs)
    (hrest : rest = [] ∨ ∃ mark ∈ promptMarks, mark.toList <+: rest) :
    templateParts (cs ++ rest) = cs.map .char ++ templateParts rest := by
  induction cs with
  | nil => rfl
  | cons c cs ih =>
    have hbegins : ∀ mark ∈ promptMarks, ¬mark.toList <+: c :: (cs ++ rest) := by
      intro mark hmark hfront
      refine hno mark hmark (List.IsPrefix.isInfix ?_)
      rcases hrest with rfl | ⟨other, hother, more, rfl⟩
      · rwa [List.append_nil] at hfront
      · exact (isMark_promptMarks mark hmark).prefix_of_append (isMark_promptMarks other hother) hfront
    have hlater : ∀ mark ∈ promptMarks, ¬mark.toList <:+: cs :=
      fun mark hmark hoccurs => hno mark hmark (List.infix_cons hoccurs)
    rw [List.cons_append, templateParts_cons hbegins, ih hlater, List.map_cons, List.cons_append]

/-- A mark is replaced by its value. -/
theorem flatMap_templateParts_mark (hmark : mark ∈ promptMarks) :
    (templateParts (mark.toList ++ rest)).flatMap (TemplatePart.fill context.toList query.toList) =
      (promptValue context query mark).toList ++
        (templateParts rest).flatMap (TemplatePart.fill context.toList query.toList) := by
  rw [promptMarks, List.mem_pair] at hmark
  rcases hmark with rfl | rfl <;> rfl

/-- Text stays. -/
theorem flatMap_fill_map_char (context query cs : List Char) :
    (cs.map TemplatePart.char).flatMap (TemplatePart.fill context query) = cs := by
  rw [List.flatMap_map]
  exact List.flatMap_singleton' cs

namespace Template

/-- A template is filled piece by piece. -/
theorem Cuts.flatMap_templateParts (h : t.Cuts promptMarks cs) :
    (templateParts cs).flatMap (TemplatePart.fill context.toList query.toList) =
      t.fill (promptValue context query) := by
  obtain ⟨rfl, hmarks, hpieces⟩ := h
  induction t with
  | ending text =>
    have hparts := templateParts_append (hpieces text (.head _)) (.inl rfl)
    rw [List.append_nil, templateParts, List.append_nil] at hparts
    rw [written_ending, hparts, flatMap_fill_map_char, fill]
  | slot before mark rest ih =>
    rw [Template.marks, List.forall_mem_cons] at hmarks
    rw [Template.pieces, List.forall_mem_cons] at hpieces
    have hbegins : mark.toList <+: mark.toList ++ rest.written := List.prefix_append _ _
    rw [written_slot, templateParts_append hpieces.1 (.inr ⟨mark, hmarks.1, hbegins⟩),
      List.flatMap_append, flatMap_fill_map_char, flatMap_templateParts_mark hmarks.1,
      ih hmarks.2 hpieces.2, fill]

/-- The value of a mark stands in the text as it is. -/
theorem infix_fill (hmark : mark ∈ t.marks) (value : String → String) :
    (value mark).toList <:+: t.fill value := by
  induction t with
  | ending => cases hmark
  | slot before other rest ih =>
    cases hmark with
    | head => exact ⟨before.toList, rest.fill value, List.append_assoc ..⟩
    | tail _ hmark =>
      rw [fill, ← List.append_assoc]
      exact (ih hmark).trans (List.suffix_append _ _).isInfix

/-- A mark that occurs is cut. -/
theorem Cuts.mem_marks (h : t.Cuts promptMarks cs) (hmark : mark ∈ promptMarks)
    (hoccurs : mark.toList <:+: cs) : mark ∈ t.marks := by
  rw [← List.count_pos_iff, ← h.occurrences_eq isMark_promptMarks hmark]
  exact occurrences_pos_iff.2 hoccurs

end Template

/-! ### What is accepted, and what was answered -/

theorem Text.containsChars_iff {pattern : List Char} : containsChars pattern cs ↔ pattern <:+: cs := by
  induction cs with
  | nil => rw [containsChars, List.isEmpty_iff, List.infix_nil]
  | cons c cs ih =>
    rw [containsChars, Bool.or_eq_true, ih, List.isPrefixOf_iff_prefix, List.infix_cons_iff]

/-- A template that is accepted has both marks. -/
theorem ModelConfig.infix_of_fault? {c : ModelConfig} (h : c.fault? = none) :
    ∀ mark ∈ promptMarks, mark.toList <:+: c.promptTemplate.toList := by
  have hcontains : ∀ mark ∈ promptMarks, Text.contains c.promptTemplate mark := by
    rw [fault?] at h
    split at h
    · cases h
    split at h
    · cases h
    simp_all [promptMarks]
  exact fun mark hmark => Text.containsChars_iff.1 (hcontains mark hmark)

theorem codeQa_cons_cons (first second : Record) (records : List Record) :
    codeQa (first :: second :: records) =
      questionAndAnswer first ++ "\n" ++ codeQa (second :: records) :=
  String.intercalate_cons_cons

/-- The records that a prompt quotes stand in it as questions with their answers. -/
theorem infix_codeQa {records : List Record} {r : Record} (hr : r ∈ records) :
    (questionAndAnswer r).toList <:+: (codeQa records).toList := by
  induction records with
  | nil => cases hr
  | cons first records ih =>
    cases records with
    | nil =>
      rw [List.mem_singleton.1 hr, codeQa, List.map_singleton, String.intercalate_singleton]
    | cons second records =>
      rw [codeQa_cons_cons, String.toList_append, String.toList_append, List.append_assoc]
      cases hr with
      | head => exact (List.prefix_append _ _).isInfix
      | tail _ hr =>
        exact (ih hr).trans ((List.suffix_append _ _).trans (List.suffix_append _ _)).isInfix

/-! ### Prompts -/

/-- All marks of the template are replaced at once, wherever they stand and whatever the values are. -/
structure FillsAtOnce (template : String) : Prop where
  existsUnique_cuts : ∃! t : Template, t.Cuts promptMarks template.toList
  occurrences_eq : ∀ t : Template, t.Cuts promptMarks template.toList → ∀ mark ∈ promptMarks,
    occurrences mark.toList template.toList = t.marks.count mark
  toList_eq : ∀ t : Template, t.Cuts promptMarks template.toList → ∀ context query,
    (fillTemplate template context query).toList = t.fill (promptValue context query)

theorem fillsAtOnce (template : String) : FillsAtOnce template where
  existsUnique_cuts := Template.existsUnique_cuts isMark_promptMarks _
  occurrences_eq _ h _ hmark := h.occurrences_eq isMark_promptMarks hmark
  toList_eq _ h _ _ := by rw [fillTemplate, String.toList_ofList, h.flatMap_templateParts]

/-- The prompt is made with this code, and has the query and all of the context in it. -/
structure Quotes (template query : String) (material : PromptMaterial) (prompt code : String) :
    Prop where
  filled : prompt = fillTemplate template (material.contextWith code) query
  query : query.toList <:+: prompt.toList
  context : (material.contextWith code).toList <:+: prompt.toList
  answered : ∀ records, material.codeQa = codeQa records →
    ∀ r ∈ records, (questionAndAnswer r).toList <:+: prompt.toList

theorem FillsAtOnce.quotes (h : FillsAtOnce template)
    (hmarks : ∀ mark ∈ promptMarks, mark.toList <:+: template.toList) (material : PromptMaterial)
    (hprompt : prompt = fillTemplate template (material.contextWith code) query) :
    Quotes template query material prompt code := by
  obtain ⟨t, ht, -⟩ := h.existsUnique_cuts
  have hvalue : ∀ mark ∈ promptMarks,
      (promptValue (material.contextWith code) query mark).toList <:+: prompt.toList := by
    intro mark hmark
    rw [hprompt, h.toList_eq t ht]
    exact t.infix_fill (ht.mem_marks hmark (hmarks mark hmark)) _
  have hcontext : (material.contextWith code).toList <:+: prompt.toList :=
    hvalue "{context}" (.head _)
  refine ⟨hprompt, hvalue "{query}" (.tail _ (.head _)), hcontext, fun records hrecords r hr => ?_⟩
  have hanswered : material.codeQa.toList <:+: (material.contextWith code).toList := by
    rw [PromptMaterial.contextWith, String.toList_append]
    exact (List.suffix_append _ _).isInfix
  rw [hrecords] at hanswered
  exact (infix_codeQa hr).trans (hanswered.trans hcontext)

/-- Every template is filled at once, and every prompt from one that is accepted has the query and all
of the context in it. -/
theorem prompts_quote : (∀ template, FillsAtOnce template) ∧
    ∀ c : ModelConfig, c.fault? = none → ∀ query material length prompt,
      buildPrompt c.promptTemplate query material length = .ok prompt →
        ∃ code ∈ material.codes, Quotes c.promptTemplate query material prompt code := by
  refine ⟨fillsAtOnce, fun c hc query material length prompt hprompt => ?_⟩
  obtain ⟨i, hfirst⟩ := firstFitting_eq_ok_iff.1 hprompt
  obtain ⟨code, hcode, hmade⟩ := List.mem_map.1 (List.mem_of_getElem? hfirst.found)
  exact ⟨code, hcode,
    (fillsAtOnce c.promptTemplate).quotes (ModelConfig.infix_of_fault? hc) material hmade.symm⟩

/-- Marks next to each other, marks in braces, and marks in what is filled in. -/
theorem prompts_quote_of_braces :
    let c : ModelConfig := ⟨"\x7b{context}{query}\x7d\x7bquery", .default⟩
    let material : PromptMaterial :=
      ⟨"x = {query}", "", "", codeQa [⟨"Names of {query}?", "", "f, {context}"⟩]⟩
    let prompt := "\x7b```python\nx = {query}\n```\nCODE Q and A:\n" ++
      "Q: Names of {query}? \nA: f, {context}Why {context}?\x7d\x7bquery"
    c.fault? = none ∧ buildPrompt c.promptTemplate "Why {context}?" material 4096 = .ok prompt ∧
      ∃ code ∈ material.codes, Quotes c.promptTemplate "Why {context}?" material prompt code := by
  intro c material prompt
  have hfault : c.fault? = none := by decide +kernel
  have hprompt : buildPrompt c.promptTemplate "Why {context}?" material 4096 = .ok prompt := by
    decide +kernel
  exact ⟨hfault, hprompt, prompts_quote.2 c hfault _ _ _ _ hprompt⟩

end SourceCorpus
