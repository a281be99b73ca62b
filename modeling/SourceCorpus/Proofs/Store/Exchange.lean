import SourceCorpus.Proofs.Disk.Replacement
import SourceCorpus.Proofs.Store.Answers

/-!
Saves in another order. Main statement: saves of files that a store keeps apart leave the same store,
in whatever order they are made.
-/

namespace SourceCorpus

open DatasetStore

/-- A store in which the saves of two files can be exchanged, if the files do not get into each other's
way. -/
class ExchangingStore (σ : Type) [DatasetStore σ] extends FaithfulStore σ where
  /-- Both stores hold the same. -/
  Same : σ → σ → Prop
  same_refl (s : σ) : Same s s
  same_trans {s s' s'' : σ} : Same s s' → Same s' s'' → Same s s''
  /-- The two files can both be stored. -/
  Apart : String → String → Prop
  apart_symm {file file' : String} : Apart file file' → Apart file' file
  answers_same {s s' : σ} (h : Same s s') (file : String) : answers s file = answers s' file
  save_same {s s' : σ} (h : Same s s') (a : Artifact) : Same (save s a).1 (save s' a).1
  saveCorpus_same {s s' : σ} (h : Same s s') (c : Corpus) :
    Same (saveCorpus s c).1 (saveCorpus s' c).1 ∧ (saveCorpus s c).2 = (saveCorpus s' c).2
  exchange (s : σ) {a b : Artifact} (ha : IsName a.file) (hb : IsName b.file)
    (h : Apart a.file b.file) : Same (save (save s a).1 b).1 (save (save s b).1 a).1

namespace DatasetStore

variable {σ : Type} [DatasetStore σ] {s s' : σ} {artifacts artifacts' : List Artifact}

def saveAll (s : σ) (artifacts : List Artifact) : σ := artifacts.foldl (fun s a => (save s a).1) s

theorem saveAll_append (s : σ) (artifacts artifacts' : List Artifact) :
    saveAll s (artifacts ++ artifacts') = saveAll (saveAll s artifacts) artifacts' :=
  List.foldl_append

theorem answers_saveAll [FaithfulStore σ] {file : String} (hf : FaithfulStore.IsName σ file)
    (hnames : ∀ a ∈ artifacts, FaithfulStore.IsName σ a.file) (hne : ∀ a ∈ artifacts, a.file ≠ file)
    (s : σ) : answers (saveAll s artifacts) file = answers s file := by
  induction artifacts generalizing s with
  | nil => rfl
  | cons a artifacts ih =>
    rw [List.forall_mem_cons] at hnames hne
    rw [saveAll, List.foldl_cons]
    exact (ih hnames.2 hne.2 _).trans (FaithfulStore.answers_save_of_ne s hnames.1 hf hne.1)

variable [ExchangingStore σ]

open FaithfulStore ExchangingStore

theorem saveAll_same (h : Same s s') (artifacts : List Artifact) :
    Same (saveAll s artifacts) (saveAll s' artifacts) := by
  induction artifacts generalizing s s' with
  | nil => exact h
  | cons a artifacts ih => exact ih (save_same h a)

/-- Saves of files that are apart leave the same store in any order. -/
theorem saveAll_perm (h : artifacts.Perm artifacts')
    (hnames : ∀ a ∈ artifacts, IsName σ a.file)
    (hapart : artifacts.Pairwise fun a b => Apart σ a.file b.file) (s : σ) :
    Same (saveAll s artifacts) (saveAll s artifacts') := by
  induction h generalizing s with
  | nil => exact same_refl s
  | cons a _ ih =>
    rw [List.forall_mem_cons] at hnames
    exact ih hnames.2 (List.pairwise_cons.1 hapart).2 (save s a).1
  | swap a b artifacts =>
    -- Here two saves are exchanged; what follows is the same on both sides.
    simp only [List.forall_mem_cons] at hnames
    have hba := (List.pairwise_cons.1 hapart).1 a List.mem_cons_self
    exact saveAll_same (exchange s hnames.1 hnames.2.1 hba) artifacts
  | trans h _ ih ih' =>
    refine same_trans (ih hnames hapart s) (ih' (fun a ha => hnames a (h.mem_iff.2 ha)) ?_ s)
    exact (h.pairwise_iff fun hab => apart_symm hab).1 hapart

end DatasetStore

/-! ### Memory -/

namespace MemoryStore

structure HoldsSame (s s' : MemoryStore) : Prop where
  holding : ∀ file, s.holding? file = s'.holding? file
  corpus : s.corpus? = s'.corpus?
  saves : s.saves = s'.saves

instance : ExchangingStore MemoryStore where
  Same := HoldsSame
  same_refl _ := ⟨fun _ => rfl, rfl, rfl⟩
  same_trans h h' := ⟨fun file => (h.holding file).trans (h'.holding file), h.corpus.trans h'.corpus,
    h.saves.trans h'.saves⟩
  Apart file file' := file ≠ file'
  apart_symm h := h.symm
  answers_same h file := by rw [answers_eq, answers_eq, h.holding]
  save_same h a := by
    refine ⟨fun file => ?_, h.corpus, congrArg (· + 1) h.saves⟩
    exact (holding?_save ..).trans ((h.holding file).symm ▸ (holding?_save ..).symm)
  saveCorpus_same h _ := ⟨⟨h.holding, rfl, h.saves⟩, rfl⟩
  exchange s a b _ _ h := by
    refine ⟨fun file => ?_, rfl, rfl⟩
    change ((s.save a).save b).holding? file = ((s.save b).save a).holding? file
    simp only [holding?_save]
    by_cases ha : a.file = file
    · subst ha
      simp [Ne.symm h]
    · simp [ha]

end MemoryStore

/-! ### A directory -/

namespace DirectoryStore

open Disk Change SourceCorpus.Path

/-- A file that stands for the first source file, or its draft, has the place of a directory that the
other source file is in. -/
def Blocks (file file' : String) : Prop :=
  ∃ ending ∈ endings, (file ++ ending).toList ++ ['/'] <+: file'.toList ∨
    (file ++ (ending ++ ".tmp")).toList ++ ['/'] <+: file'.toList

instance (file file' : String) : Decidable (Blocks file file') :=
  inferInstanceAs (Decidable (∃ ending ∈ endings, _ ∨ _))

structure HoldsSame (s s' : DirectoryStore) : Prop where
  root : s.root = s'.root
  disk : s.disk.Same s'.disk

theorem placeOf_not_mem_prefixes {file file' ending ending' : String} {root : Place}
    (h : IsClean file) (h' : IsClean file') (he : IsEnding ending) (he' : IsEnding ending')
    (hblocks : ¬(file ++ ending).toList ++ ['/'] <+: file'.toList)
    (hne : placeOf root file ending ≠ placeOf root file' ending') :
    placeOf root file ending ∉ (placeOf root file' ending').prefixes := by
  intro hmem
  have hbegins := (Place.mem_prefixes.1 hmem).2
  rw [placeOf_eq h he, placeOf_eq h' he', List.prefix_append_right_inj,
    List.prefix_map_iff_of_injective fun a b hab => String.ofList_injective hab] at hbegins
  obtain heq | hbegins := Text.eq_or_prefix_of_splitChar_prefix hbegins
  · exact hne (congrArg root.follow (String.toList_injective heq))
  · have htext : (file' ++ ending').toList = file'.toList ++ ending'.toList := String.toList_append
    rw [htext] at hbegins
    exact hblocks (Text.prefix_of_prefix_append he'.1 hbegins)

/-- The files of one source file are not in the way of those of another. -/
theorem spares_placeOf {file file' ending ending' : String} (root : Place) (h : IsClean file)
    (h' : IsClean file') (hne : file ≠ file') (hblocks : ¬Blocks file file') (he : ending ∈ endings)
    (he' : ending' ∈ endings) :
    Spares (placeOf root file ending) (placeOf root file' ending') := by
  have hending := isEnding_of_mem he
  have hending' := isEnding_of_mem he'
  have hfree : ¬(file ++ ending).toList ++ ['/'] <+: file'.toList ∧
      ¬(file ++ (ending ++ ".tmp")).toList ++ ['/'] <+: file'.toList :=
    not_or.1 fun hor => hblocks ⟨ending, he, hor⟩
  have hplaces : placeOf root file ending ≠ placeOf root file' ending' := fun heq =>
    hne ((placeOf_eq_iff root h h' he he').1 heq).1
  have hdraft := placeOf_ne_draftPlace root h' h he' he
  rw [draftPlace_placeOf h hending] at hdraft
  simp only [Spares, List.forall_mem_cons, List.not_mem_nil, IsEmpty.forall_iff, implies_true,
    and_true]
  refine ⟨⟨placeOf_not_mem_prefixes h h' hending hending' hfree.1 hplaces,
    placeOf_ne_draftPlace root h h' he he'⟩, ?_, fun heq => ?_⟩
  · rw [draftPlace_placeOf h hending]
    exact placeOf_not_mem_prefixes h h' (isEnding_draft_of_mem he) hending' hfree.2 hdraft.symm
  · rw [draftPlace_placeOf h hending, draftPlace_placeOf h' hending'] at heq
    have htext := append_eq_of_placeOf_eq h (isEnding_draft_of_mem he) h'
      (isEnding_draft_of_mem he') heq
    rw [← String.append_assoc, ← String.append_assoc] at htext
    have hchars : (file ++ ending).toList ++ ".tmp".toList =
        (file' ++ ending').toList ++ ".tmp".toList := by
      rw [← String.toList_append, ← String.toList_append, htext]
    exact hplaces (congrArg root.follow (String.toList_injective (List.append_cancel_right hchars)))

theorem exchange_saveChanges {a b : Artifact} (root : Place) (ha : IsClean a.file)
    (hb : IsClean b.file) (hne : a.file ≠ b.file) (hab : ¬Blocks a.file b.file)
    (hba : ¬Blocks b.file a.file) :
    Exchange (saveChanges root a) (saveChanges root b) := by
  have hwrites : ∀ e ∈ endings, ∀ e' ∈ endings, ∀ text text',
      Exchange (replaceFile (placeOf root a.file e) text)
        (replaceFile (placeOf root b.file e') text') := fun e he e' he' text text' =>
    exchange_replaceFile (spares_placeOf root ha hb hne hab he he')
      (spares_placeOf root hb ha hne.symm hba he' he) (placeOf_ne_nil ha (isEnding_of_mem he) root)
      (placeOf_ne_nil hb (isEnding_of_mem he') root) text text'
  have hall : ∀ e ∈ endings, ∀ text,
      Exchange (replaceFile (placeOf root a.file e) text) (saveChanges root b) :=
    fun e he text =>
      (((hwrites e he _ (by decide) text _).symm.append
        (hwrites e he _ (by decide) text _).symm).append
        (hwrites e he _ (by decide) text _).symm).symm
  exact ((hall _ (by decide) _).append (hall _ (by decide) _)).append (hall _ (by decide) _)

instance : ExchangingStore DirectoryStore where
  Same := HoldsSame
  same_refl s := ⟨rfl, .refl s.disk⟩
  same_trans h h' := ⟨h.root.trans h'.root, h.disk.trans h'.disk⟩
  Apart file file' := file ≠ file' ∧ ¬Blocks file file' ∧ ¬Blocks file' file
  apart_symm h := ⟨h.1.symm, h.2.2, h.2.1⟩
  answers_same {s s'} h file := by
    have hfile : s.disk.file? = s'.disk.file? := funext fun q => by
      rw [Disk.file?, Disk.file?, h.disk q]
    exact answers_congr (by rw [hfile, h.root]) (by rw [hfile, h.root])
  save_same {s s'} h a := by
    refine ⟨h.root, ?_⟩
    change (s.disk.run (saveChanges s.root a)).1.Same (s'.disk.run (saveChanges s'.root a)).1
    rw [← h.root]
    exact (h.disk.run _).1
  saveCorpus_same {s s'} h c := by
    have htrain : s.disk.entry? (trainPlace s.root) = s'.disk.entry? (trainPlace s'.root) := by
      rw [h.disk, h.root]
    have hchanges : s.corpusChanges c = s'.corpusChanges c := by
      rw [corpusChanges, corpusChanges, trainChanges.eq_def, trainChanges.eq_def, htrain, h.root]
    have hrun := h.disk.run (s.corpusChanges c)
    refine ⟨⟨h.root, ?_⟩, ?_⟩
    · change (s.disk.run (s.corpusChanges c)).1.Same (s'.disk.run (s'.corpusChanges c)).1
      rw [← hchanges]
      exact hrun.1
    · change (s.disk.run (s.corpusChanges c)).2 = (s'.disk.run (s'.corpusChanges c)).2
      rw [← hchanges]
      exact hrun.2
  exchange s a b ha hb h :=
    ⟨rfl, (exchange_saveChanges s.root ha hb h.1 h.2.1 h.2.2 s.disk).2.2⟩

end DirectoryStore

end SourceCorpus
