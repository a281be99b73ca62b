import SourceCorpus.Proofs.Order.FirstOccurrences
import SourceCorpus.Proofs.Pipeline.Augmentation
import SourceCorpus.Proofs.Pipeline.Schedules
import SourceCorpus.Proofs.Question.Instructions

/-!
The records of a corpus. Main statement: records of the built-in questions differ, in a file by what
they ask or about which object, and in different files by what they ask, so that a corpus that is made
afresh has the records of all files one after the other.
-/

namespace SourceCorpus

open DatasetStore Extraction

def Record.asked (r : Record) : String × String := (r.instruction, r.input)

def Analysis.asked (a : Analysis) (x : Question × ObjectId) : String × String :=
  (a.instruction x.1 x.2, a.input x.2)

/-- Different questions come out differently, in one file and in different files. -/
structure Inquiry.TellsApart (i : Inquiry) (files : List SourceFile) : Prop where
  inFile : ∀ f ∈ files, ∀ m, extract f.id f.source = .ok m →
    ∀ x ∈ i.questionsFor (.ofModel m), ∀ y ∈ i.questionsFor (.ofModel m), x ≠ y →
      (Analysis.ofModel m).asked x ≠ (Analysis.ofModel m).asked y
  inFiles : ∀ f ∈ files, ∀ g ∈ files, f ≠ g →
    ∀ m m', extract f.id f.source = .ok m → extract g.id g.source = .ok m' →
      ∀ x ∈ i.questionsFor (.ofModel m), ∀ y ∈ i.questionsFor (.ofModel m'),
        (Analysis.ofModel m).instruction x.1 x.2 ≠ (Analysis.ofModel m').instruction y.1 y.2

/-- The records answer questions about the file, each at most once and in the order in which they are
asked. A file with a syntax error has none. -/
structure Inquiry.Yields (i : Inquiry) (f : SourceFile) (records : List Record) : Prop where
  error : ∀ e, extract f.id f.source = .error e → records = []
  ok : ∀ m, extract f.id f.source = .ok m → (records.map Record.asked).Sublist
    ((i.questionsFor (.ofModel m)).map (Analysis.ofModel m).asked)

def Stage.IsAfresh (i : Inquiry) (f : SourceFile) : Stage → Prop
  | .waiting | .questioning => True
  | .comparing | .loading => False
  | .saving artifact => i.Yields f artifact.records
  | .finished outcome => outcome.file = f.id ∧ i.Yields f outcome.records

/-! ### Questions about a file -/

/-- A question of files is about the module only, and no other question is about it. -/
theorem Scope.eq_module_iff {scope : Scope} {kind : ObjectKind} (h : scope.covers kind) :
    kind = .module ↔ scope = .file := by
  cases scope <;> cases kind <;> simp_all [covers, ObjectKind.isCallable]

theorem file_of_extract {file source : String} {m : CodeModel} (h : extract file source = .ok m) :
    m.file = file := by
  obtain ⟨-, rfl⟩ := extract_eq_ok_iff.1 h
  rfl

theorem mem_objects_of_get? {m : CodeModel} {id : ObjectId} {o : CodeObject}
    (ho : m.get? id = some o) : o ∈ m.objects.toList :=
  List.mem_of_getElem? ((get?_eq m id).symm.trans ho)

theorem instruction_ofModel {m : CodeModel} {id : ObjectId} {o : CodeObject}
    (ho : m.get? id = some o) (q : Question) :
    (Analysis.ofModel m).instruction q id = q.render m o := by
  simp only [Analysis.instruction, Analysis.ofModel, ho]

namespace Inquiry

variable {i : Inquiry} {f g : SourceFile} {m m' : CodeModel} {x y : Question × ObjectId}

/-- A question that is asked is one of the bank, about an object that it covers. -/
theorem of_mem_questionsFor (h : x ∈ i.questionsFor (.ofModel m)) :
    x.1 ∈ i.bank.questions ∧ ∃ o, m.get? x.2 = some o ∧ x.1.scope.covers o.kind := by
  rw [questionsFor_eq, askedOf] at h
  obtain ⟨q, hq, hx⟩ := List.mem_flatMap.1 h
  obtain ⟨id, hid, rfl⟩ := List.mem_map.1 hx
  have hcovers : (m.kindOf? id).any q.scope.covers := (List.mem_filter.1 hid).2
  refine ⟨hq, ?_⟩
  rw [CodeModel.kindOf?] at hcovers
  cases ho : m.get? id with
  | none =>
    rw [ho] at hcovers
    cases hcovers
  | some o =>
    rw [ho] at hcovers
    exact ⟨o, rfl, hcovers⟩

theorem nodup_questionsFor (hbank : i.bank.questions.Nodup) (m : CodeModel) :
    (i.questionsFor (.ofModel m)).Nodup := by
  rw [questionsFor_eq, askedOf, List.nodup_flatMap]
  refine ⟨fun q _ => ?_, hbank.imp fun hne => ?_⟩
  · exact (List.nodup_range.filter _).map fun _ _ hsame => (Prod.mk.inj hsame).2
  · intro x hx hy
    obtain ⟨_, _, rfl⟩ := List.mem_map.1 hx
    obtain ⟨_, _, hsame⟩ := List.mem_map.1 hy
    exact hne (Prod.mk.inj hsame).1.symm

section

variable (hbank : i.bank = .default)
include hbank

/-- The instruction of a built-in question tells the question and the file. -/
theorem eq_of_instruction_eq (h : extract f.id f.source = .ok m)
    (h' : extract g.id g.source = .ok m') (hf : '{' ∉ f.id.toList) (hg : '{' ∉ g.id.toList)
    (hx : x ∈ i.questionsFor (.ofModel m)) (hy : y ∈ i.questionsFor (.ofModel m'))
    (hsame : (Analysis.ofModel m).instruction x.1 x.2 =
      (Analysis.ofModel m').instruction y.1 y.2) : x.1 = y.1 ∧ f.id = g.id := by
  obtain ⟨hq, o, ho, -⟩ := of_mem_questionsFor hx
  obtain ⟨hq', o', ho', -⟩ := of_mem_questionsFor hy
  rw [instruction_ofModel ho, instruction_ofModel ho'] at hsame
  rw [hbank] at hq hq'
  rw [← file_of_extract h] at hf ⊢
  rw [← file_of_extract h'] at hg ⊢
  exact Question.eq_of_render_eq h h' (mem_objects_of_get? ho) (mem_objects_of_get? ho') hq hq'
    hf hg hsame

/-- A question about an object asks what no other question in the file asks. -/
theorem eq_of_asked_eq (h : extract f.id f.source = .ok m) (hf : '{' ∉ f.id.toList)
    (hx : x ∈ i.questionsFor (.ofModel m)) (hy : y ∈ i.questionsFor (.ofModel m))
    (hsame : (Analysis.ofModel m).asked x = (Analysis.ofModel m).asked y) : x = y := by
  obtain ⟨hinstruction, hinput⟩ := Prod.mk.inj hsame
  obtain ⟨hq, -⟩ := eq_of_instruction_eq hbank h h hf hf hx hy hinstruction
  obtain ⟨-, o, ho, hcovers⟩ := of_mem_questionsFor hx
  obtain ⟨-, o', ho', hcovers'⟩ := of_mem_questionsFor hy
  have hhierarchy := hierarchy_of_extract h
  refine Prod.ext hq ?_
  simp only [Analysis.input, Analysis.ofModel, ho, ho'] at hinput
  have hkinds : o.kind = .module ↔ o'.kind = .module := by
    rw [Scope.eq_module_iff hcovers, Scope.eq_module_iff hcovers', hq]
  by_cases hkind : o.kind = .module
  · rw [hhierarchy.module _ _ ho hkind, hhierarchy.module _ _ ho' (hkinds.1 hkind)]
  · have hkind' : o'.kind ≠ .module := fun h => hkind (hkinds.2 h)
    rw [if_neg (by simpa using hkind), if_neg (by simpa using hkind')] at hinput
    have hid := hhierarchy.name _ _ ho
    rw [hinput, hhierarchy.name _ _ ho'] at hid
    exact (Option.some.inj hid).symm

theorem tellsApart {files : List SourceFile} (hids : (files.map (·.id)).Nodup)
    (hbraces : ∀ f ∈ files, '{' ∉ f.id.toList) : i.TellsApart files where
  inFile f hf _ h _ hx _ hy hne hsame :=
    hne (eq_of_asked_eq hbank h (hbraces f hf) hx hy hsame)
  inFiles f hf g hg hne _ _ h h' _ hx _ hy hsame :=
    hne (List.inj_on_of_nodup_map hids hf hg
      (eq_of_instruction_eq hbank h h' (hbraces f hf) (hbraces g hg) hx hy hsame).2)

end

end Inquiry

/-! ### Records of a file -/

theorem asked_ofAnswer? (instruction input : String) (answer : Answer) :
    ((Record.ofAnswer? instruction input answer).toList.map Record.asked).Sublist
      [(instruction, input)] := by
  cases hr : Record.ofAnswer? instruction input answer with
  | none => exact List.nil_sublist _
  | some r =>
    obtain ⟨output, -, hr⟩ := Option.bind_eq_some_iff.1 hr
    dsimp only at hr
    split at hr
    · cases hr
    · cases hr
      exact .refl _

namespace Inquiry

variable {i : Inquiry} {f : SourceFile}

/-- Questions that are asked add records about them in order. -/
theorem asked_foldl_ask (i : Inquiry) (a : Analysis) (s : Assembler × Tally)
    (xs : List (Question × ObjectId)) :
    ((xs.foldl (i.ask a) s).1.records.map Record.asked).Sublist
      (s.1.records.map Record.asked ++ xs.map a.asked) := by
  induction xs generalizing s with
  | nil => simp
  | cons x xs ih =>
    have hask : ((i.ask a s x).1.records.map Record.asked).Sublist
        (s.1.records.map Record.asked ++ [a.asked x]) := by
      rw [records_ask, List.map_append]
      exact (List.append_sublist_append_left _).2 (asked_ofAnswer? ..)
    rw [List.foldl_cons, List.map_cons, List.append_cons]
    exact (ih _).trans ((List.append_sublist_append_right _).2 hask)

theorem yields_of_artifact {artifact : Artifact} {t t' : Tally}
    (h : i.artifact f t = (.ok artifact, t')) : i.Yields f artifact.records := by
  rw [Inquiry.artifact] at h
  refine ⟨fun e he => ?_, fun m hm => ?_⟩
  · rw [he] at h
    cases h
  · rw [hm] at h
    cases h
    exact asked_foldl_ask i (.ofModel m) (.empty, t) (i.questionsFor (.ofModel m))

theorem yields_nil (i : Inquiry) (f : SourceFile) : i.Yields f [] :=
  ⟨fun _ _ => rfl, fun _ _ => List.nil_sublist _⟩

/-- No two records of a file ask the same. -/
theorem Yields.nodup {records : List Record} (h : i.Yields f records) (hbank : i.bank = .default)
    (hf : '{' ∉ f.id.toList) : records.Nodup := by
  cases hextract : extract f.id f.source with
  | error e =>
    rw [h.error e hextract]
    exact .nil
  | ok m =>
    have hquestions : i.bank.questions.Nodup :=
      hbank ▸ .of_map Question.subject Question.nodup_map_subject
    have hasked := (nodup_questionsFor hquestions m).map_on fun x hx y hy =>
      eq_of_asked_eq hbank hextract hf hx hy
    exact .of_map Record.asked (hasked.sublist (h.ok m hextract))

/-- Records of different files ask different things. -/
theorem Yields.disjoint {g : SourceFile} {records records' : List Record}
    (h : i.Yields f records) (h' : i.Yields g records') (hbank : i.bank = .default)
    (hf : '{' ∉ f.id.toList) (hg : '{' ∉ g.id.toList) (hne : f.id ≠ g.id) :
    records.Disjoint records' := by
  intro r hr hr'
  have hquestion {f : SourceFile} {records : List Record} (h : i.Yields f records)
      (hr : r ∈ records) : ∃ m, extract f.id f.source = .ok m ∧
        ∃ x ∈ i.questionsFor (.ofModel m),
          (Analysis.ofModel m).instruction x.1 x.2 = r.instruction := by
    cases hextract : extract f.id f.source with
    | error e =>
      rw [h.error e hextract] at hr
      cases hr
    | ok m =>
      obtain ⟨x, hx, hasked⟩ := List.mem_map.1 ((h.ok m hextract).subset (List.mem_map_of_mem hr))
      exact ⟨m, rfl, x, hx, (Prod.mk.inj hasked).1⟩
  obtain ⟨m, hextract, x, hx, hsame⟩ := hquestion h hr
  obtain ⟨m', hextract', y, hy, hsame'⟩ := hquestion h' hr'
  exact hne (eq_of_instruction_eq hbank hextract hextract' hf hg hx hy (hsame.trans hsame'.symm)).2

end Inquiry

/-! ### Records of a run -/

namespace Pipeline

structure HasYielded (p : Pipeline) (files : List SourceFile) (outcomes : List FileOutcome) :
    Prop where
  nodup : (outcomes.map (·.file)).Nodup
  yields : ∀ o ∈ outcomes, ∃ f ∈ files, f.id = o.file ∧ p.inquiry.Yields f o.records

/-- A corpus of such outcomes has all their records. -/
theorem HasYielded.instruct_corpusOf {p : Pipeline} {files : List SourceFile}
    {outcomes : List FileOutcome} (h : p.HasYielded files outcomes)
    (hbank : p.inquiry.bank = .default) (hbraces : ∀ f ∈ files, '{' ∉ f.id.toList) :
    (p.corpusOf outcomes).instruct = outcomes.flatMap (·.records) := by
  rw [corpusOf, Corpus.merge, List.flatMap_def]
  refine firstOccurrences_of_nodup (List.nodup_flatten.2 ⟨fun records hrecords => ?_, ?_⟩)
  · obtain ⟨o, ho, rfl⟩ := List.mem_map.1 hrecords
    obtain ⟨f, hf, -, hyields⟩ := h.yields o ho
    exact hyields.nodup hbank (hbraces f hf)
  · have hfiles := List.pairwise_map.1 h.nodup
    refine List.pairwise_map.2 (hfiles.imp_of_mem fun ho ho' hne => ?_)
    obtain ⟨f, hf, hfile, hyields⟩ := h.yields _ ho
    obtain ⟨g, hg, hfile', hyields'⟩ := h.yields _ ho'
    exact hyields.disjoint hyields' hbank (hbraces f hf) (hbraces g hg) (hfile ▸ hfile' ▸ hne)

variable {σ : Type} [DatasetStore σ] {p : Pipeline}

theorem stored?_of_not_reuse (hreuse : p.reuse = false) (s : σ) (f : SourceFile) :
    p.stored? s f = none := by
  rw [stored?, hreuse]
  rfl

/-- What becomes of a file that is not used again. -/
theorem yields_processFile (hreuse : p.reuse = false) (s : σ × Tally) (f : SourceFile) :
    (p.processFile s f).1.file = f.id ∧ p.inquiry.Yields f (p.processFile s f).1.records := by
  have hstored := stored?_of_not_reuse hreuse s.1 f
  have hprocessed := p.processed s f
  generalize p.processFile s f = result at hprocessed
  obtain ⟨o, s'⟩ := result
  cases hprocessed with
  | reused hs =>
    rw [hstored] at hs
    cases hs
  | skipped => exact ⟨rfl, p.inquiry.yields_nil f⟩
  | generated _ ha => exact ⟨rfl, Inquiry.yields_of_artifact ha⟩

theorem yields_processFiles (hreuse : p.reuse = false) (s : σ × Tally) (files : List SourceFile) :
    (p.processFiles s files).1.map (·.file) = files.map (·.id) ∧
      ∀ o ∈ (p.processFiles s files).1, ∃ f ∈ files, f.id = o.file ∧
        p.inquiry.Yields f o.records := by
  induction files generalizing s with
  | nil => exact ⟨rfl, List.forall_mem_nil _⟩
  | cons f files ih =>
    obtain ⟨hfile, hyields⟩ := yields_processFile hreuse s f
    obtain ⟨hfiles, hrest⟩ := ih (p.processFile s f).2
    rw [processFiles_cons]
    refine ⟨?_, List.forall_mem_cons.2 ⟨⟨f, List.mem_cons_self, hfile.symm, hyields⟩, ?_⟩⟩
    · rw [List.map_cons, List.map_cons, hfile, hfiles]
    · intro o ho
      obtain ⟨g, hg, hyields⟩ := hrest o ho
      exact ⟨g, List.mem_cons_of_mem f hg, hyields⟩

theorem hasYielded_processFiles (hreuse : p.reuse = false) {files : List SourceFile}
    (hids : (files.map (·.id)).Nodup) (s : σ × Tally) :
    p.HasYielded files (p.processFiles s files).1 := by
  obtain ⟨hfiles, hyields⟩ := yields_processFiles hreuse s files
  exact ⟨hfiles ▸ hids, hyields⟩

/-! ### Records of workers -/

structure WorksAfresh (p : Pipeline) (w : Workers σ) : Prop where
  stages : ∀ task ∈ w.tasks, task.2.IsAfresh p.inquiry task.1
  files : (w.outcomes.map fun x => (x.1, x.2.file)).Perm
    ((finishedFrom 0 w.tasks).map fun x => (x.1, x.2.id))
  yields : ∀ x ∈ w.outcomes, ∃ f ∈ w.tasks.map (·.1), f.id = x.2.file ∧
    p.inquiry.Yields f x.2.records

theorem isAfresh_advance (hreuse : p.reuse = false) {f : SourceFile} {stage : Stage}
    (h : stage.IsAfresh p.inquiry f) (number : Nat → Nat) (s : σ) :
    (p.advance f number s stage).1.IsAfresh p.inquiry f := by
  cases stage with
  | waiting =>
    rw [advance, hreuse]
    trivial
  | comparing => cases h
  | loading => cases h
  | questioning =>
    rw [advance]
    rcases hartifact : (p.inquiry.renumbered number).artifact f .zero with ⟨e | artifact, t⟩
    · exact ⟨rfl, p.inquiry.yields_nil f⟩
    · obtain ⟨herror, hok⟩ := Inquiry.yields_of_artifact hartifact
      exact ⟨herror, hok⟩
  | saving artifact => exact ⟨rfl, h⟩
  | finished outcome => exact h

theorem worksAfresh_takeTurn (hreuse : p.reuse = false) {w : Workers σ} (h : p.WorksAfresh w)
    (turn : Turn) : p.WorksAfresh (p.takeTurn w turn) := by
  obtain hsame | ⟨before, f, stage, after, htasks, -, hopen, hturn⟩ := takeTurn_cases p w turn
  · rwa [hsame]
  obtain ⟨hstages, hfiles, hyields⟩ := h
  rw [htasks] at hstages hyields
  rw [htasks, finishedFrom_append_cons, hopen, Option.isSome_none, if_neg Bool.false_ne_true,
    List.append_nil, Nat.zero_add, List.map_append] at hfiles
  have hstage := hstages (f, stage) (List.mem_append_right _ List.mem_cons_self)
  have hnext := isAfresh_advance hreuse hstage turn.callNumber w.store
  rw [hturn]
  generalize p.advance f turn.callNumber w.store stage = next at hnext
  obtain ⟨next, store, failures⟩ := next
  have hstages' : ∀ task ∈ before ++ (f, next) :: after, task.2.IsAfresh p.inquiry task.1 := by
    rw [List.forall_mem_append, List.forall_mem_cons] at hstages ⊢
    exact ⟨hstages.1, hnext, hstages.2.2⟩
  have hkept : ∀ x ∈ w.outcomes, ∃ f' ∈ (before ++ (f, next) :: after).map (·.1),
      f'.id = x.2.file ∧ p.inquiry.Yields f' x.2.records := by
    rwa [List.map_append, List.map_cons] at hyields ⊢
  -- The file is among the finished ones only if this turn finishes it.
  cases next with
  | finished outcome =>
    refine ⟨hstages', ?_, ?_⟩
    · rw [finishedFrom_append_cons]
      simp only [Stage.outcome?, Option.isSome_some, if_true, Option.toList_some, List.map_cons,
        List.map_nil, List.map_append, List.append_assoc, List.singleton_append, Nat.zero_add,
        hnext.1]
      exact (List.perm_append_singleton ..).trans ((hfiles.cons _).trans List.perm_middle.symm)
    · refine List.forall_mem_append.2 ⟨hkept, List.forall_mem_singleton.2 ?_⟩
      refine ⟨f, ?_, hnext.1.symm, hnext.2⟩
      exact List.mem_map_of_mem (List.mem_append_right _ List.mem_cons_self)
  | _ =>
    refine ⟨hstages', ?_, ?_⟩
    · rw [finishedFrom_append_cons]
      simpa [Stage.outcome?] using hfiles
    · simpa [Stage.outcome?] using hkept

theorem worksAfresh_work (hreuse : p.reuse = false) (s : σ) (files : List SourceFile)
    (turns : List Turn) : p.WorksAfresh (p.work s files turns) := by
  have hready : p.WorksAfresh (.ready s files) := by
    refine ⟨fun task htask => ?_, ?_, List.forall_mem_nil _⟩
    · obtain ⟨f, -, rfl⟩ := List.mem_map.1 htask
      trivial
    · rw [finishedFrom_ready]
      exact .refl []
  rw [work]
  generalize Workers.ready s files = w at hready
  induction turns generalizing w with
  | nil => exact hready
  | cons turn turns ih => exact ih _ (worksAfresh_takeTurn hreuse hready turn)

theorem files_inOrder (hreuse : p.reuse = false) {s : σ} {files : List SourceFile}
    {turns : List Turn} (hdone : (p.work s files turns).isDone) :
    (p.work s files turns).inOrder.map (·.file) = files.map (·.id) := by
  have hfiles := (worksAfresh_work hreuse s files turns).files
  rw [finishedFrom_of_isDone hdone, files_work, List.map_map] at hfiles
  have hsorted : (files.zipIdx.map fun x => (x.2, x.1.id)).Pairwise fun x y => x.1 < y.1 :=
    List.pairwise_map.2 (pairwise_zipIdx_lt files 0)
  have hmap : ((p.work s files turns).outcomes.mergeSort fun x y => x.1 ≤ y.1).map
      (fun x => (x.1, x.2.file)) = files.zipIdx.map fun x => (x.2, x.1.id) := by
    refine Eq.trans ?_ (mergeSort_eq_of_perm (fun _ _ => decide_eq_true_iff) hfiles hsorted)
    exact List.map_mergeSort fun _ _ _ _ => rfl
  have hnames := congrArg (List.map (·.2)) hmap
  rw [List.map_map, List.map_map] at hnames
  rw [Workers.inOrder, List.map_map]
  refine hnames.trans ?_
  conv_rhs => rw [← List.zipIdx_map_fst 0 files, List.map_map]
  rfl

theorem hasYielded_inOrder (hreuse : p.reuse = false) {files : List SourceFile}
    (hids : (files.map (·.id)).Nodup) (s : σ) (turns : List Turn) :
    p.HasYielded files (p.work s files turns).inOrder := by
  obtain ⟨-, hfiles, hyields⟩ := worksAfresh_work hreuse s files turns
  rw [files_work] at hyields
  have hperm : (p.work s files turns).inOrder.Perm ((p.work s files turns).outcomes.map (·.2)) :=
    (List.mergeSort_perm _ _).map _
  refine ⟨?_, fun o ho => ?_⟩
  · have hfile := hperm.map (·.file)
    have hnames := hfiles.map (·.2)
    rw [List.map_map] at hfile
    rw [List.map_map, List.map_map] at hnames
    have hfinished := (sublist_finishedFrom 0 (p.work s files turns).tasks).map (·.id)
    rw [files_work, List.map_map] at hfinished
    exact (hfile.trans hnames).nodup_iff.2 (hids.sublist hfinished)
  · obtain ⟨x, hx, rfl⟩ := List.mem_map.1 (hperm.mem_iff.1 ho)
    exact hyields x hx

/-! ### Corpora -/

structure Concatenates (p : Pipeline) (files : List SourceFile) (outcomes : List FileOutcome) :
    Prop where
  files : outcomes.map (·.file) = files.map (·.id)
  instruct : (p.corpusOf outcomes).instruct = outcomes.flatMap (·.records)

/-- A run keeps all records of all files, in turn or at once. -/
structure KeepsEveryRecord (p : Pipeline) (files : List SourceFile) (s : σ) (t : Tally) :
    Prop where
  inTurn : p.Concatenates files (p.processFiles (s, t) files).1
  atOnce : ∀ turns, (p.work s files turns).isDone →
    p.Concatenates files (p.work s files turns).inOrder
  run : ∀ r s', p.run (s, t) files = (.ok r, s') →
    r.corpus.instruct = (p.processFiles (s, t) files).1.flatMap (·.records)

/-- The built-in questions come out differently for different objects and files, so that a run that
uses nothing again keeps all their records. -/
theorem keepsEveryRecord {files : List SourceFile} (hbank : p.inquiry.bank = .default)
    (hreuse : p.reuse = false) (hids : (files.map (·.id)).Nodup)
    (hbraces : ∀ f ∈ files, '{' ∉ f.id.toList) :
    p.inquiry.TellsApart files ∧ ∀ (s : σ) (t : Tally), p.KeepsEveryRecord files s t := by
  refine ⟨Inquiry.tellsApart hbank hids hbraces, fun s t => ?_⟩
  have hturn := hasYielded_processFiles hreuse hids (s, t)
  have hinstruct := hturn.instruct_corpusOf hbank hbraces
  refine ⟨⟨(yields_processFiles hreuse (s, t) files).1, hinstruct⟩, fun turns hdone => ?_, ?_⟩
  · exact ⟨files_inOrder hreuse hdone,
      (hasYielded_inOrder hreuse hids s turns).instruct_corpusOf hbank hbraces⟩
  · intro r s' hr
    rw [(run_ok hr).1, hinstruct]

def builtIn : Pipeline :=
  { inquiry :=
      { bank := .default
        augmenter? := some ⟨⟨"{query}", 1000, 1000, true⟩,
          .ofRules [⟨"a.py", .text "It has a class."⟩]⟩
        detailed := true }
    validity := .existence
    reuse := false }

/-- Two methods of one name that differ in their input only, a syntax error, and the same class in
another file. -/
theorem keepsEveryRecord_of_same_methods :
    let source := "class C:\n    def f(self): pass\n    def f(x): pass\n"
    let files : List SourceFile := [⟨"a.py", source⟩, ⟨"b.py", "def\n"⟩, ⟨"c.py", source⟩]
    let instruction := "Inputs to method: `f` in class: `C` in Python file: `a.py`?"
    ∃ m q, extract "a.py" source = .ok m ∧ (extract "b.py" "def\n").isOk = false ∧
      (q, 2) ∈ builtIn.inquiry.questionsFor (.ofModel m) ∧
      (q, 3) ∈ builtIn.inquiry.questionsFor (.ofModel m) ∧
      (Analysis.ofModel m).asked (q, 2) = (instruction, "C.f") ∧
      (Analysis.ofModel m).asked (q, 3) = (instruction, "C.f#2") ∧
      builtIn.inquiry.TellsApart files ∧
      builtIn.KeepsEveryRecord files MemoryStore.empty .zero ∧
      ∃ r s', builtIn.run (MemoryStore.empty, .zero) files = (.ok r, s') := by
  intro source files instruction
  let q : Question := ⟨"method_inputs",
    "Inputs to method: `{method_name}` in class: `{class_name}` in Python file: `{filename}`?",
    .method, .list, true⟩
  have hq : q ∈ QuestionBank.default.questions := by decide +kernel
  obtain ⟨m, hextract, hfill, hinput, hinput', hasked⟩ : ∃ m, extract "a.py" source = .ok m ∧
      (∀ id ∈ [2, 3], (m.get? id).any fun o =>
        q.template.fill (Question.valueFor m o) == instruction.toList) ∧
      (Analysis.ofModel m).input 2 = "C.f" ∧ (Analysis.ofModel m).input 3 = "C.f#2" ∧
      ∀ id ∈ [2, 3], (q, id) ∈ builtIn.inquiry.questionsFor (.ofModel m) :=
    ⟨modelOf "a.py" source.toList (Syntax.parse source.toList),
      extract_eq_ok_iff.2 ⟨by decide +kernel, rfl⟩, by decide +kernel⟩
  have hinstruction : ∀ id ∈ [2, 3], (Analysis.ofModel m).instruction q id = instruction := by
    intro id hid
    have hfile : '{' ∉ m.file.toList := by
      rw [file_of_extract hextract]
      decide
    have hany := hfill id hid
    cases ho : m.get? id with
    | none =>
      rw [ho] at hany
      cases hany
    | some o =>
      rw [ho, Option.any_some, beq_iff_eq, ← Question.toList_render hextract
        (mem_objects_of_get? ho) hq hfile] at hany
      rw [instruction_ofModel ho, String.toList_inj.1 hany]
  obtain ⟨htells, hkeeps⟩ : builtIn.inquiry.TellsApart files ∧
      ∀ (s : MemoryStore) (t : Tally), builtIn.KeepsEveryRecord files s t :=
    keepsEveryRecord rfl rfl (by simp [files]) (by simp [files])
  exact ⟨m, q, hextract, by decide +kernel, hasked 2 (by decide), hasked 3 (by decide),
    Prod.ext (hinstruction 2 (by decide)) hinput, Prod.ext (hinstruction 3 (by decide)) hinput',
    htells, hkeeps _ _, _, _, MemoryStore.run_eq _ _ _⟩

end Pipeline

end SourceCorpus
