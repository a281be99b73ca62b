import SourceCorpus.Proofs.Extraction.NameCharacters
import SourceCorpus.Proofs.Question.Templates
import SourceCorpus.Question.Answer
import SourceCorpus.Question.Bank

/-!
The instructions that the built-in questions become. Main statement: an instruction tells the question
and the file, and along with the name of the object that it is about, the object.
-/

namespace SourceCorpus

open Template

def IsQuotable (s : String) : Prop := backtick ∉ s.toList ∧ '{' ∉ s.toList

instance (s : String) : Decidable (IsQuotable s) := inferInstanceAs (Decidable (_ ∧ _))

/-- A text that goes on from its first words as those of the built-in questions of the scope do. -/
def Scope.template (lead : String) : Scope → Template
  | .file => slot lead "{filename}" (.ending "`?")
  | .class => slot lead "{class_name}" (slot "` in Python file: `" "{filename}" (.ending "`?"))
  | .function | .standalone =>
    slot lead "{function_name}" (slot "` in Python file: `" "{filename}" (.ending "`?"))
  | .method =>
    slot lead "{method_name}" (slot "` in class: `" "{class_name}"
      (slot "` in Python file: `" "{filename}" (.ending "`?")))

namespace Question

def opening (q : Question) : List Char := q.text.toList.takeWhile (· != '{')

def template (q : Question) : Template := q.scope.template (String.ofList q.opening)

def subject (q : Question) : List Char := q.text.toList.takeWhile (· != backtick)

variable {q q' : Question} {m m' : CodeModel} {o o' : CodeObject}

/-! ### Built-in questions -/

theorem lead_template (q : Question) : q.template.lead.toList = q.opening := by
  rw [template]
  cases q.scope <;> exact String.toList_ofList

theorem written_template (q : Question) :
    q.template.written = q.opening ++ (q.scope.template "").written := by
  rw [template]
  cases q.scope <;>
    simp only [Scope.template, written, fill, String.toList_ofList, String.toList_empty,
      List.nil_append]

theorem map_placed (scope : Scope) (place : String)
    (questions : List (String × String × QuestionType)) :
    (QuestionBank.placed scope place questions).map (fun q => (q.scope, q.text.toList)) =
      questions.map fun x =>
        (scope, x.2.1.toList ++ place.toList ++ " in Python file: `{filename}`?".toList) := by
  rw [QuestionBank.placed, List.map_map]
  refine List.map_congr_left fun x _ => ?_
  simp only [Function.comp_apply, String.toList_append]

/-- The texts of the built-in questions. They are compared in pieces, which is what makes this fast
to decide. -/
theorem texts_default :
    let texts := QuestionBank.default.questions.map fun q => (q.scope, q.text.toList)
    (∀ x ∈ texts, x.2.takeWhile (· != '{') ++ (x.1.template "").written = x.2 ∧
      backtick ∈ x.2.takeWhile (· != '{')) ∧
    (texts.map fun x => x.2.takeWhile (· != backtick)).Nodup := by
  simp only [QuestionBank.default, List.map_append, QuestionBank.functionQuestions,
    QuestionBank.classQuestions, QuestionBank.methodQuestions, map_placed]
  decide +kernel

/-- The template of a built-in question is that of its text, and has a backtick in its first words. -/
theorem template_of_mem_default (h : q ∈ QuestionBank.default.questions) :
    q.template.written = q.text.toList ∧ backtick ∈ q.template.lead.toList := by
  have hmem : (q.scope, q.text.toList) ∈
      QuestionBank.default.questions.map fun q => (q.scope, q.text.toList) :=
    List.mem_map_of_mem h
  rw [lead_template, written_template]
  exact texts_default.1 _ hmem

theorem nodup_map_subject : (QuestionBank.default.questions.map subject).Nodup := by
  have hnodup := texts_default.2
  rwa [List.map_map] at hnodup

theorem takeWhile_fill_template (h : q ∈ QuestionBank.default.questions) (v : String → String) :
    (q.template.fill v).takeWhile (· != backtick) = q.subject := by
  obtain ⟨hwritten, hlead⟩ := template_of_mem_default h
  rw [takeWhile_fill hlead, ← takeWhile_fill hlead fun mark => mark, subject, ← hwritten, written]

theorem isClear_template (q : Question) : q.template.IsClear := by
  have hlead : '{' ∉ (String.ofList q.opening).toList := by
    rw [String.toList_ofList]
    exact fun hmem => absurd (List.mem_takeWhile_imp hmem) (by decide)
  rw [template]
  cases q.scope <;> simp only [Scope.template, IsClear] <;> refine ⟨hlead, ?_⟩ <;> decide

theorem isQuoted_template (q : Question) : q.template.IsQuoted := by
  rw [template]
  cases q.scope <;> simp only [Scope.template, IsQuoted, lead] <;> decide

/-- The placeholders of a question, of which the last is for the file. -/
theorem marks_template (q : Question) : ∃ names, q.template.marks = names ++ ["{filename}"] ∧
    ∀ mark ∈ names, mark ∈ ["{function_name}", "{class_name}", "{method_name}"] := by
  rw [template]
  cases q.scope with
  | file => exact ⟨[], rfl, by decide⟩
  | «class» => exact ⟨["{class_name}"], rfl, by decide⟩
  | function | standalone => exact ⟨["{function_name}"], rfl, by decide⟩
  | method => exact ⟨["{method_name}", "{class_name}"], rfl, by decide⟩

theorem isMark_of_mem_placeholders {entry : String × String} (h : entry ∈ placeholders m o) :
    IsMark entry.1 := by
  have hall : ∀ mark ∈ (placeholders m o).map (·.1), IsMark mark := by
    change ∀ mark ∈ ["{filename}", "{qualified_name}", "{function_name}", "{class_name}",
      "{method_name}", "{name}"], IsMark mark
    decide
  exact hall entry.1 (List.mem_map_of_mem h)

def valueFor (m : CodeModel) (o : CodeObject) : String → String :=
  valueOf fun mark => (placeholders m o).lookup mark

/-! ### Names in instructions -/

theorem isQuotable_of_isNameChar {s : String}
    (h : ∀ c ∈ s.toList, Extraction.IsNameChar c) : IsQuotable s := by
  have hno : ¬Extraction.IsNameChar backtick ∧ ¬Extraction.IsNameChar '{' := by
    unfold Extraction.IsNameChar
    decide +kernel
  exact ⟨fun hmem => hno.1 (h _ hmem), fun hmem => hno.2 (h _ hmem)⟩

section

variable {file source : String} (h : Extraction.extract file source = .ok m)
  (ho : o ∈ m.objects.toList)
include h ho

theorem isQuotable_qualifiedName (hkind : o.kind ≠ .module) : IsQuotable o.qualifiedName :=
  isQuotable_of_isNameChar (Extraction.isNameChar_qualifiedName h ho hkind)

theorem isQuotable_functionName : IsQuotable (functionName o) := by
  rw [functionName]
  split
  next hcallable =>
    refine isQuotable_qualifiedName h ho fun hkind => ?_
    rw [hkind] at hcallable
    cases hcallable
  next => decide

theorem isQuotable_methodName : IsQuotable (methodName o) := by
  rw [methodName]
  split
  next hmethod =>
    have hkind : o.kind ≠ .module := by
      rw [beq_iff_eq.1 hmethod]
      decide
    exact isQuotable_of_isNameChar fun c hc =>
      .inl ((Extraction.isWord_name h ho hkind).continues c hc)
  next => decide

theorem isQuotable_className : IsQuotable (className m o) := by
  have hnested := Extraction.isNested_of_extract h
  rw [className]
  split
  next hkind => exact isQuotable_qualifiedName h ho (by rw [hkind]; decide)
  next hkind =>
    rcases Extraction.isModule_or_admits hnested ho with hmodule | ⟨owner, howner, hadmits⟩
    · rw [hkind] at hmodule
      cases hmodule
    -- Only classes have methods.
    · have hclass : owner.kind ≠ .module := by
        rw [hkind] at hadmits
        intro howner
        rw [howner] at hadmits
        simp [Extraction.Admits] at hadmits
      have hmem : owner ∈ m.objects.toList := by
        obtain ⟨p, -, hp⟩ := Option.bind_eq_some_iff.1 howner
        rw [Extraction.get?_eq] at hp
        exact List.mem_of_getElem? hp
      rw [howner]
      exact isQuotable_qualifiedName h hmem hclass
  next => decide

theorem isQuotable_valueFor {mark : String}
    (hmark : mark ∈ ["{function_name}", "{class_name}", "{method_name}"]) :
    IsQuotable (valueFor m o mark) := by
  simp only [List.mem_cons, List.not_mem_nil, or_false] at hmark
  rcases hmark with rfl | rfl | rfl
  · exact isQuotable_functionName h ho
  · exact isQuotable_className h ho
  · exact isQuotable_methodName h ho

/-- The instruction for an object has the values of the placeholders in their places. -/
theorem toList_render (hq : q ∈ QuestionBank.default.questions) (hfile : '{' ∉ m.file.toList) :
    (q.render m o).toList = q.template.fill (valueFor m o) := by
  refine foldl_replace_written (isClear_template q) (fun _ => isMark_of_mem_placeholders) ?_
    (template_of_mem_default hq).1.symm
  obtain ⟨names, hmarks, hnames⟩ := marks_template q
  intro entry hentry hmem
  have hmark : entry.1 ∈ ["{function_name}", "{class_name}", "{method_name}"] ∨
      entry.1 = "{filename}" := by
    rw [hmarks, List.mem_append, List.mem_singleton] at hmem
    exact hmem.imp_left (hnames _)
  simp only [placeholders, List.mem_cons, List.not_mem_nil, or_false] at hentry
  rcases hentry with rfl | rfl | rfl | rfl | rfl | rfl
  · exact hfile
  · exact absurd hmark (by dsimp only; decide)
  · exact (isQuotable_functionName h ho).2
  · exact (isQuotable_className h ho).2
  · exact (isQuotable_methodName h ho).2
  · exact absurd hmark (by dsimp only; decide)

end

/-! ### What an instruction tells -/

/-- An instruction tells the question and the file. -/
theorem eq_of_render_eq {file file' source source' : String}
    (h : Extraction.extract file source = .ok m) (h' : Extraction.extract file' source' = .ok m')
    (ho : o ∈ m.objects.toList) (ho' : o' ∈ m'.objects.toList)
    (hq : q ∈ QuestionBank.default.questions) (hq' : q' ∈ QuestionBank.default.questions)
    (hfile : '{' ∉ m.file.toList) (hfile' : '{' ∉ m'.file.toList)
    (hsame : q.render m o = q'.render m' o') : q = q' ∧ m.file = m'.file := by
  have hfill : q.template.fill (valueFor m o) = q'.template.fill (valueFor m' o') := by
    rw [← toList_render h ho hq hfile, ← toList_render h' ho' hq' hfile', hsame]
  have hsubject : subject q = subject q' := by
    rw [← takeWhile_fill_template hq, hfill, takeWhile_fill_template hq']
  obtain rfl : q = q' := List.inj_on_of_nodup_map nodup_map_subject hq hq' hsubject
  obtain ⟨names, hmarks, hnames⟩ := marks_template q
  have hquoted {m : CodeModel} {o : CodeObject} {file source : String}
      (h : Extraction.extract file source = .ok m) (ho : o ∈ m.objects.toList) :
      ∀ mark ∈ q.template.marks.dropLast, backtick ∉ (valueFor m o mark).toList := by
    rw [hmarks, List.dropLast_concat]
    exact fun mark hmark => (isQuotable_valueFor h ho (hnames mark hmark)).1
  have hvalues := fill_inj (isQuoted_template q) (hquoted h ho) (hquoted h' ho') hfill
  refine ⟨rfl, hvalues "{filename}" ?_⟩
  rw [hmarks]
  exact List.mem_append_right _ (List.mem_singleton_self _)

end Question

end SourceCorpus
