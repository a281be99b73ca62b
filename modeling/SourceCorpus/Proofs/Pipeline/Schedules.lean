import SourceCorpus.Proofs.Order.Sorting
import SourceCorpus.Proofs.Pipeline.Turns

/-!
Workers that share a store. Main statement: whatever the order of their turns, files of different names
come out as if they were processed one after the other, and so do the corpus and the store.
-/

namespace SourceCorpus

open DatasetStore FaithfulStore ExchangingStore

namespace Pipeline

/-! ### What a schedule keeps -/

section

variable {σ : Type} [DatasetStore σ] {p : Pipeline} {s : σ} {files : List SourceFile} {w : Workers σ}

def finishedFrom (n : Nat) (tasks : List (SourceFile × Stage)) : List (Nat × SourceFile) :=
  ((tasks.zipIdx n).filter (·.1.2.outcome?.isSome)).map fun x => (x.2, x.1.1)

theorem finishedFrom_append_cons (n : Nat) (before : List (SourceFile × Stage)) (f : SourceFile)
    (stage : Stage) (after : List (SourceFile × Stage)) :
    finishedFrom n (before ++ (f, stage) :: after) = finishedFrom n before ++
      (if stage.outcome?.isSome then [(n + before.length, f)] else []) ++
        finishedFrom (n + before.length + 1) after := by
  simp only [finishedFrom, List.zipIdx_append, List.filter_append, List.map_append, List.zipIdx_cons,
    List.filter_cons, List.append_assoc]
  split <;> rfl

theorem file_of_mem_finishedFrom {n : Nat} {tasks : List (SourceFile × Stage)}
    {x : Nat × SourceFile} (h : x ∈ finishedFrom n tasks) : x.2 ∈ tasks.map (·.1) := by
  obtain ⟨y, hy, rfl⟩ := List.mem_map.1 h
  exact List.mem_map_of_mem (List.fst_mem_of_mem_zipIdx (List.mem_of_mem_filter hy))

omit [DatasetStore σ] in
theorem finishedFrom_ready (s : σ) (files : List SourceFile) :
    finishedFrom 0 (Workers.ready s files).tasks = [] := by
  rw [finishedFrom, List.map_eq_nil_iff, List.filter_eq_nil_iff]
  intro x hx
  obtain ⟨f, -, hf⟩ := List.mem_map.1 (List.fst_mem_of_mem_zipIdx hx)
  rw [← hf]
  exact Bool.false_ne_true

theorem sublist_finishedFrom (n : Nat) (tasks : List (SourceFile × Stage)) :
    ((finishedFrom n tasks).map (·.2)).Sublist (tasks.map (·.1)) := by
  have hall : (tasks.zipIdx n).map (·.1.1) = tasks.map (·.1) := by
    rw [← List.zipIdx_map_fst n tasks, List.map_map, List.zipIdx_map_fst]
    rfl
  rw [finishedFrom, List.map_map, ← hall]
  exact List.filter_sublist.map _

/-- The order in which files were finished, and what has come of it: the store is as if these files
had been processed one after the other. -/
structure FinishedIn (p : Pipeline) (s : σ) (w : Workers σ) (order : List (Nat × SourceFile)) :
    Prop where
  perm : order.Perm (finishedFrom 0 w.tasks)
  outcomes : w.outcomes = order.map fun x => (x.1, (p.settleIn s x.2).outcome)
  store : w.store = saveAll s (p.artifactsOf s (order.map (·.2)))

/-- The workers are where they would have come to by themselves. -/
structure IsUnderWay (p : Pipeline) (s : σ) (files : List SourceFile) (w : Workers σ) : Prop where
  files : w.tasks.map (·.1) = files
  fits : ∀ task ∈ w.tasks, task.2.Fits p (answers s task.1.id) task.1
  failures : w.failures = (w.tasks.map fun task => task.2.spent (p.settleIn s task.1)).sum
  finished : ∃ order, p.FinishedIn s w order

theorem isUnderWay_ready (p : Pipeline) (s : σ) (files : List SourceFile) :
    p.IsUnderWay s files (.ready s files) := by
  refine ⟨?_, ?_, ?_, [], ?_, rfl, rfl⟩
  · rw [Workers.ready, List.map_map]
    exact List.map_id files
  · intro task htask
    obtain ⟨f, -, rfl⟩ := List.mem_map.1 htask
    trivial
  · rw [Workers.ready, List.map_map]
    refine (List.sum_eq_zero_iff_forall_eq_nat.2 fun n hn => ?_).symm
    obtain ⟨f, -, rfl⟩ := List.mem_map.1 hn
    rfl
  · exact (List.Perm.of_eq (finishedFrom_ready s files)).symm

theorem mem_artifactsOf {artifact : Artifact} (h : artifact ∈ p.artifactsOf s files) :
    ∃ f ∈ files, artifact.file = f.id := by
  obtain ⟨f, hf, hartifact⟩ := List.mem_filterMap.1 h
  exact ⟨f, hf, file_of_settle hartifact⟩

theorem artifactsOf_append (p : Pipeline) (s : σ) (files files' : List SourceFile) :
    p.artifactsOf s (files ++ files') = p.artifactsOf s files ++ p.artifactsOf s files' :=
  List.filterMap_append

theorem artifactsOf_singleton (p : Pipeline) (s : σ) (f : SourceFile) :
    p.artifactsOf s [f] = (p.settleIn s f).artifact?.toList := by
  rw [artifactsOf_cons]
  exact List.append_nil _

section

variable {before after : List (SourceFile × Stage)} {f : SourceFile} {stage : Stage}
  {order : List (Nat × SourceFile)}

/-- A file that a turn finishes is the last one of the order. -/
theorem FinishedIn.turn (hw : p.FinishedIn s w order)
    (htasks : w.tasks = before ++ (f, stage) :: after) (hopen : stage.outcome? = none)
    (hanswers : answers w.store f.id = answers s f.id) {next : Stage × σ × Nat}
    (hleads : Leads p w.store f stage next) :
    ∃ order, p.FinishedIn s ⟨next.2.1, w.failures + next.2.2, before ++ (f, next.1) :: after,
      w.outcomes ++ next.1.outcome?.toList.map fun outcome => (before.length, outcome)⟩ order := by
  obtain ⟨hperm, houtcomes, hstore⟩ := hw
  obtain ⟨hfits, -, hsaved⟩ := hleads
  obtain ⟨next, store, failures⟩ := next
  rw [htasks, finishedFrom_append_cons, hopen, Option.isSome_none, if_neg Bool.false_ne_true,
    List.append_nil, Nat.zero_add] at hperm
  dsimp only at hfits hsaved ⊢
  rw [settleIn, hanswers] at hsaved
  rw [hanswers] at hfits
  -- The file joins the order only if this turn finishes it; otherwise the store is as before.
  cases next with
  | finished outcome =>
    refine ⟨order ++ [(before.length, f)], ?_, ?_, ?_⟩
    · rw [finishedFrom_append_cons, List.append_assoc, Nat.zero_add]
      exact (List.perm_append_singleton ..).trans ((hperm.cons _).trans List.perm_middle.symm)
    · have hsettled : (p.settleIn s f).outcome = outcome := hfits
      rw [houtcomes, List.map_append, ← hsettled]
      rfl
    · dsimp only
      rw [hsaved, Stage.outcome?, Option.isSome_some, if_pos rfl, hstore, ← saveAll_append,
        List.map_append, artifactsOf_append, List.map_singleton, artifactsOf_singleton, settleIn]
  | _ =>
    refine ⟨order, ?_, ?_, ?_⟩
    · rw [finishedFrom_append_cons, Nat.zero_add]
      exact (List.append_nil _).symm ▸ hperm
    · exact (List.append_nil _).trans houtcomes
    · exact hsaved.trans hstore

variable [FaithfulStore σ]

/-- A file that is not among the finished ones finds the store as it was. -/
theorem answers_saveAll_artifactsOf (hf : IsName σ f.id)
    (hnames : ∀ g ∈ files, IsName σ g.id) (hne : ∀ g ∈ files, g.id ≠ f.id) :
    answers (saveAll s (p.artifactsOf s files)) f.id = answers s f.id := by
  refine answers_saveAll hf (fun a ha => ?_) (fun a ha => ?_) s
  · obtain ⟨g, hg, hfile⟩ := mem_artifactsOf ha
    exact hfile ▸ hnames g hg
  · obtain ⟨g, hg, hfile⟩ := mem_artifactsOf ha
    exact hfile ▸ hne g hg

/-- A worker that has not finished finds the store to say of its file what it said at first. -/
theorem FinishedIn.answers_eq (hw : p.FinishedIn s w order)
    (htasks : w.tasks = before ++ (f, stage) :: after) (hopen : stage.outcome? = none)
    (hfiles : w.tasks.map (·.1) = files) (hnames : ∀ f ∈ files, IsName σ f.id)
    (hids : files.Pairwise fun f g => f.id ≠ g.id) :
    answers w.store f.id = answers s f.id := by
  have hperm := hw.perm
  rw [htasks, finishedFrom_append_cons, hopen, Option.isSome_none, if_neg Bool.false_ne_true,
    List.append_nil] at hperm
  rw [htasks, List.map_append, List.map_cons] at hfiles
  rw [← hfiles, List.perm_middle.pairwise_iff fun hne => Ne.symm hne, List.pairwise_cons] at hids
  rw [← hfiles] at hnames
  -- The file is not finished itself, so those that are come before or behind it.
  have hother : ∀ g ∈ order.map (·.2), g ∈ before.map (·.1) ++ after.map (·.1) := by
    intro g hg
    obtain ⟨x, hx, rfl⟩ := List.mem_map.1 hg
    exact (List.mem_append.1 (hperm.mem_iff.1 hx)).elim
      (fun hx => List.mem_append_left _ (file_of_mem_finishedFrom hx))
      fun hx => List.mem_append_right _ (file_of_mem_finishedFrom hx)
  rw [hw.store]
  exact answers_saveAll_artifactsOf (hnames f (List.mem_append_right _ List.mem_cons_self))
    (fun g hg => hnames g (List.perm_middle.mem_iff.2 (List.mem_cons_of_mem f (hother g hg))))
    fun g hg => (hids.1 g (hother g hg)).symm

end

variable [FaithfulStore σ]

theorem IsUnderWay.takeTurn (hw : p.IsUnderWay s files w) (h : p.inquiry.GoesByContext)
    (hnames : ∀ f ∈ files, IsName σ f.id) (hids : files.Pairwise fun f g => f.id ≠ g.id)
    (turn : Turn) : p.IsUnderWay s files (p.takeTurn w turn) := by
  have hstay := files_takeTurn p w turn
  obtain hsame | ⟨before, f, stage, after, htasks, -, hopen, hturn⟩ := takeTurn_cases p w turn
  · rwa [hsame]
  obtain ⟨hfiles, hfits, hfailures, order, hfinished⟩ := hw
  have hanswers := hfinished.answers_eq htasks hopen hfiles hnames hids
  rw [htasks, List.forall_mem_append, List.forall_mem_cons, ← hanswers] at hfits
  have hstage : stage.Fits p (answers w.store f.id) f := hfits.2.1
  have hleads := leads_advance h turn.callNumber hstage hopen
  rw [hturn] at hstay ⊢
  refine ⟨hstay.trans hfiles, ?_, ?_, hfinished.turn htasks hopen hanswers hleads⟩
  · rw [List.forall_mem_append, List.forall_mem_cons, ← hanswers]
    exact ⟨hfits.1, hleads.fits, hfits.2.2⟩
  · have hsettle : p.settleIn w.store f = p.settleIn s f := congrArg (p.settle · f) hanswers
    have hspent := hleads.failures
    rw [hsettle] at hspent
    rw [htasks] at hfailures
    simp only [List.map_append, List.map_cons, List.sum_append_nat, List.sum_cons] at hfailures ⊢
    omega

/-- Whatever turns the workers take, they come to where they would have come to by themselves. -/
theorem isUnderWay_work (h : p.inquiry.GoesByContext) (hnames : ∀ f ∈ files, IsName σ f.id)
    (hids : files.Pairwise fun f g => f.id ≠ g.id) (s : σ) (turns : List Turn) :
    p.IsUnderWay s files (p.work s files turns) := by
  have hkept : ∀ w, p.IsUnderWay s files w →
      p.IsUnderWay s files (turns.foldl p.takeTurn w) := by
    induction turns with
    | nil => exact fun w hw => hw
    | cons turn turns ih => exact fun w hw => ih _ (hw.takeTurn h hnames hids turn)
  exact hkept _ (isUnderWay_ready p s files)

end

/-! ### Workers that are done -/

section

variable {σ : Type} {w : Workers σ}

theorem pairwise_zipIdx_lt (files : List SourceFile) (n : Nat) :
    (files.zipIdx n).Pairwise fun x y => x.2 < y.2 := by
  induction files generalizing n with
  | nil => exact .nil
  | cons f files ih =>
    rw [List.zipIdx_cons, List.pairwise_cons]
    exact ⟨fun x hx => (List.mem_zipIdx hx).1, ih (n + 1)⟩

theorem finishedFrom_of_isDone (hdone : w.isDone) :
    finishedFrom 0 w.tasks = (w.tasks.map (·.1)).zipIdx.map Prod.swap := by
  rw [Workers.isDone, List.all_eq_true] at hdone
  rw [finishedFrom, List.filter_eq_self.2 fun x hx => hdone x.1 (List.fst_mem_of_mem_zipIdx hx),
    List.zipIdx_map, List.map_map]
  rfl

variable [DatasetStore σ] {p : Pipeline} {s : σ} {files : List SourceFile}

/-- The files come out in their own order. -/
theorem FinishedIn.inOrder_eq {order : List (Nat × SourceFile)} (hw : p.FinishedIn s w order)
    (hdone : w.isDone) :
    w.inOrder = (w.tasks.map (·.1)).map fun f => (p.settleIn s f).outcome := by
  have hperm := hw.perm
  rw [finishedFrom_of_isDone hdone] at hperm
  generalize w.tasks.map (·.1) = files at hperm
  have houtcomes : w.outcomes.Perm
      (files.zipIdx.map fun x => (x.2, (p.settleIn s x.1).outcome)) := by
    rw [hw.outcomes]
    refine (hperm.map _).trans (.of_eq ?_)
    rw [List.map_map]
    rfl
  have hsorted : (files.zipIdx.map fun x => (x.2, (p.settleIn s x.1).outcome)).Pairwise
      fun x y => x.1 < y.1 :=
    List.pairwise_map.2 (pairwise_zipIdx_lt files 0)
  rw [Workers.inOrder, mergeSort_eq_of_perm (fun _ _ => decide_eq_true_iff) houtcomes hsorted, List.map_map]
  conv_rhs => rw [← List.zipIdx_map_fst 0 files, List.map_map]
  rfl

theorem IsUnderWay.failures_of_isDone (hw : p.IsUnderWay s files w) (hdone : w.isDone) :
    w.failures = (files.map fun f => (p.settleIn s f).failures).sum := by
  rw [Workers.isDone, List.all_eq_true] at hdone
  rw [hw.failures, ← hw.files, List.map_map]
  refine congrArg List.sum (List.map_congr_left fun task htask => ?_)
  have hfinished := hdone task htask
  cases hstage : task.2 with
  | finished => rfl
  | _ => rw [hstage] at hfinished; cases hfinished

theorem FinishedIn.files_perm {order : List (Nat × SourceFile)} (hw : p.FinishedIn s w order)
    (hdone : w.isDone) : (order.map (·.2)).Perm (w.tasks.map (·.1)) := by
  refine (hw.perm.map (·.2)).trans (.of_eq ?_)
  rw [finishedFrom_of_isDone hdone, List.map_map]
  exact List.zipIdx_map_fst 0 _

end

/-! ### Workers and one file after the other -/

section

variable {σ : Type} [DatasetStore σ] [ExchangingStore σ] {p : Pipeline} {files : List SourceFile}
  {turns : List Turn}

/-- What workers make of files, next to what becomes of the files one after the other. -/
structure ComesOutAlike (p : Pipeline) (s : σ) (files : List SourceFile) (turns : List Turn)
    (t : Tally) : Prop where
  /-- What becomes of a file is settled by the file and by what the store says about it. -/
  outcomes : (p.work s files turns).inOrder =
    files.map fun f => (p.settle (answers s f.id) f).outcome
  inTurn : (p.work s files turns).inOrder = (p.processFiles (s, t) files).1
  /-- The corpus consists of the records that are used again and of the answers about the other
  files. -/
  corpus : (p.corpusOf (p.work s files turns).inOrder).instruct = (files.flatMap fun f =>
    (p.reusable? (answers s f.id) f).getD (p.inquiry.answeredRecords f)).eraseDups
  report : p.reportOf (p.work s files turns).inOrder (p.work s files turns).failures =
    p.reportOf (p.processFiles (s, t) files).1
      ((p.processFiles (s, t) files).2.2.failures - t.failures)

/-- What is stored of files that are apart can be stored in any order. -/
theorem saveAll_artifactsOf_perm {files' : List SourceFile} (hperm : files.Perm files')
    (hnames : ∀ f ∈ files, IsName σ f.id) (hapart : files.Pairwise fun f g => Apart σ f.id g.id)
    (s : σ) :
    Same (saveAll s (p.artifactsOf s files)) (saveAll s (p.artifactsOf s files')) := by
  refine saveAll_perm (hperm.filterMap _) (fun a ha => ?_) ?_ s
  · obtain ⟨f, hf, hfile⟩ := mem_artifactsOf ha
    exact hfile ▸ hnames f hf
  · refine List.pairwise_filterMap.2 (hapart.imp fun hfg a ha b hb => ?_)
    rwa [file_of_settle ha, file_of_settle hb]

theorem FinishedIn.store_same {order : List (Nat × SourceFile)} {w : Workers σ} {s : σ}
    (hw : p.FinishedIn s w order) (hdone : w.isDone) (hfiles : w.tasks.map (·.1) = files)
    (hnames : ∀ f ∈ files, IsName σ f.id) (hapart : files.Pairwise fun f g => Apart σ f.id g.id) :
    Same w.store (saveAll s (p.artifactsOf s files)) := by
  have hperm := hw.files_perm hdone
  rw [hfiles] at hperm
  rw [hw.store]
  exact saveAll_artifactsOf_perm hperm (fun f hf => hnames f (hperm.mem_iff.1 hf))
    ((hperm.pairwise_iff apart_symm).2 hapart) s

/-- The order in which workers take their turns does not matter to what comes out of a run, nor to the
store if all files can be stored next to each other. A store in memory takes any names, and keeps all
that are different apart. -/
theorem comesOutAlike_work (h : p.inquiry.GoesByContext) (hnames : ∀ f ∈ files, IsName σ f.id)
    (hnodup : (files.map (·.id)).Nodup) {s : σ} (hdone : (p.work s files turns).isDone)
    (t : Tally) :
    p.ComesOutAlike s files turns t ∧
      ((files.Pairwise fun f g => Apart σ f.id g.id) →
        (p.runWorkers s files turns).1 = (p.run (s, t) files).1 ∧
          Same (p.runWorkers s files turns).2 (p.run (s, t) files).2.1) := by
  have hids : files.Pairwise fun f g => f.id ≠ g.id := List.pairwise_map.1 hnodup
  have hw := isUnderWay_work h hnames hids s turns
  obtain ⟨order, hfinished⟩ := hw.finished
  obtain ⟨t', hfailures, hfiles⟩ := processFiles_eq h hnames hids s t
  have houtcomes := hfinished.inOrder_eq hdone
  rw [hw.files] at houtcomes
  have hinTurn : (p.work s files turns).inOrder = (p.processFiles (s, t) files).1 :=
    houtcomes.trans (congrArg Prod.fst hfiles).symm
  have hcount : (p.work s files turns).failures =
      (p.processFiles (s, t) files).2.2.failures - t.failures := by
    rw [hw.failures_of_isDone hdone, hfiles]
    dsimp only
    omega
  have hreport : p.reportOf (p.work s files turns).inOrder (p.work s files turns).failures =
      p.reportOf (p.processFiles (s, t) files).1
        ((p.processFiles (s, t) files).2.2.failures - t.failures) := by
    rw [hinTurn, hcount]
  refine ⟨⟨houtcomes, hinTurn, houtcomes ▸ instruct_corpusOf_settled h s files, hreport⟩,
    fun hapart => ?_⟩
  -- Only here does it count that the files are apart: their saves are exchanged.
  have hstore := hfinished.store_same hdone hw.files hnames hapart
  have hsaved := saveCorpus_same hstore
    (p.reportOf (p.processFiles (s, t) files).1
      ((p.processFiles (s, t) files).2.2.failures - t.failures)).corpus
  rw [runWorkers, run, hreport, hfiles]
  rw [hfiles] at hsaved
  exact ⟨by dsimp only; rw [hsaved.2], hsaved.1⟩

/-- A pipeline that asks one question; a script answers it for two files. -/
def scripted : Pipeline :=
  { inquiry :=
      { bank := ⟨[⟨"file_purpose", "What is the purpose of {filename}?", .file, .purpose, true⟩]⟩
        augmenter? := some ⟨⟨"{query}", 1000, 1000, true⟩,
          .ofRules [⟨"a.py", .text "It sets x."⟩, ⟨"c.py", .text "It sets y."⟩]⟩
        detailed := false }
    validity := .existence
    reuse := true }

def threeFiles : List SourceFile := [⟨"a.py", "x = 1\n"⟩, ⟨"b.py", "def\n"⟩, ⟨"c.py", "y = 2\n"⟩]

/-- A directory stands where the graph of the first file should be, and the records of the last file
cannot be read. -/
def obstructedStore : DirectoryStore :=
  ⟨["out"], ⟨[(["out"], .directory), (["out", "a.py.graph.json"], .directory),
    (["out", "c.py.instruct.json"], .file (.text "not json"))]⟩⟩

def backwards : List Turn := (List.replicate 5 [⟨2, id⟩, ⟨0, id⟩, ⟨1, id⟩]).flatten

/-- A failed save, a syntax error and a corrupt dataset, each of another file. -/
theorem comesOutAlike_of_obstructedStore :
    (save obstructedStore ⟨"a.py", [], .null, ""⟩).2 = false ∧
      scripted.ComesOutAlike obstructedStore threeFiles backwards .zero ∧
      (scripted.runWorkers obstructedStore threeFiles backwards).1 =
        (scripted.run (obstructedStore, .zero) threeFiles).1 ∧
      (scripted.work obstructedStore threeFiles backwards).inOrder.map (·.records) =
        [[⟨"What is the purpose of a.py?", "", "It sets x."⟩], [],
          [⟨"What is the purpose of c.py?", "", "It sets y."⟩]] := by
  have hgoes : scripted.inquiry.GoesByContext := fun g hg =>
    Option.some.inj hg ▸ goesByContext_ofRules _ _
  have hturns : ∀ n < threeFiles.length, 5 ≤ backwards.countP (·.worker == n) := by decide
  have hclean : ∀ f ∈ threeFiles, Path.IsClean f.id := by decide
  have hapart : threeFiles.Pairwise fun f g => f.id ≠ g.id ∧
      ¬DirectoryStore.Blocks f.id g.id ∧ ¬DirectoryStore.Blocks g.id f.id := by decide
  obtain ⟨halike, hrun⟩ := comesOutAlike_work hgoes hclean (by decide)
    (isDone_work hturns scripted obstructedStore) .zero
  refine ⟨by decide +kernel, halike, (hrun hapart).1, ?_⟩
  rw [halike.outcomes]
  decide +kernel

def unassisted : Pipeline :=
  { inquiry :=
      { bank := ⟨[⟨"file_constants", "Constants defined in {filename}?", .file, .list, true⟩]⟩
        augmenter? := none
        detailed := false }
    validity := .existence
    reuse := false }

/-- Two files that get into each other's way: the second is in a directory that has the place of the
records of the first, or of their draft, or it has the same places under another name. What the store
holds of the first file depends on the order in which they come. -/
theorem records_depend_on_order :
    let nested := ["a.py.instruct.json/b.py", "a.py.instruct.json.tmp/b.py"]
    let turns : List Turn := (List.replicate 5 [⟨1, id⟩, ⟨0, id⟩]).flatten
    let s : DirectoryStore := ⟨["out"], .empty⟩
    unassisted.inquiry.GoesByContext ∧ (∀ name ∈ "a.py" :: nested, Path.IsClean name) ∧
      ∀ name ∈ "./a.py" :: nested,
        let files : List SourceFile := [⟨"a.py", "X = 1\n"⟩, ⟨name, ""⟩]
        (files.map (·.id)).Nodup ∧ (unassisted.work s files turns).isDone ∧
          (answers (unassisted.runWorkers s files turns).2 "a.py").records? ≠
            (answers (unassisted.run (s, .zero) files).2.1 "a.py").records? := by
  intro nested turns s
  exact ⟨fun _ hg => (nomatch hg), by decide, by decide +kernel⟩

end

end Pipeline

end SourceCorpus
