import SourceCorpus.Discovery.Sources
import SourceCorpus.Proofs.Order.Sorting
import SourceCorpus.Proofs.Store.Answers
import SourceCorpus.Proofs.Text.ByteOrder
import SourceCorpus.Proofs.Text.Paths

/-!
Identifiers of files. An identifier is the path behind the root with slashes in place of backslashes.
Main statements: the files that are found below a root are told apart by their identifiers exactly if
their names can be told apart with backslashes read as slashes, and names without backslashes always
are.
-/

namespace SourceCorpus

namespace Disk

/-- What a file or a directory may be called on a disk. A backslash is a character like others. -/
structure IsFileName (name : String) : Prop where
  slash : '/' ∉ name.toList
  proper : name ∉ ["", ".", ".."]

instance (name : String) : Decidable (IsFileName name) :=
  decidable_of_iff ('/' ∉ name.toList ∧ name ∉ ["", ".", ".."])
    ⟨fun ⟨hslash, hproper⟩ => ⟨hslash, hproper⟩, fun h => ⟨h.slash, h.proper⟩⟩

structure IsProper (d : Disk) : Prop where
  nodup : (d.entries.map (·.1)).Nodup
  names : ∀ entry ∈ d.entries, ∀ name ∈ entry.1, IsFileName name

end Disk

namespace Naming

open SourceCorpus.Path

def textOf (names : Place) : List Char := Text.joinWith ['/'] (names.map String.toList)

def IsPlain (names : Place) : Prop := ∀ name ∈ names, '\\' ∉ name.toList

instance (names : Place) : Decidable (IsPlain names) := inferInstanceAs (Decidable (∀ name ∈ _, _))

/-- The path leads from the root through directories to a file, in whatever way it is spelled. -/
structure LeadsTo (root path : String) (names : Place) : Prop where
  ne_nil : names ≠ []
  components : components path.toList =
    components root.toList ++ (names.map String.toList).map .normal

variable {root path : String} {names names' : Place} {cs : List Char}

theorem withSlashes_eq_self (h : '\\' ∉ cs) : withSlashes cs = cs := by
  refine (List.map_congr_left fun c hc => ?_).trans (List.map_id cs)
  have hother : c ≠ '\\' := fun heq => h (heq ▸ hc)
  exact if_neg hother

/-- Without backslashes the identifier of a file has the names on the way to the file. -/
theorem stepsOf_relativeId (h : LeadsTo root path names) (hnames : IsPlain names) :
    stepsOf (relativeId root path).toList = (names.map String.toList).map .normal := by
  obtain ⟨rest, hrest, hsteps⟩ := exists_stripBase?_of_components h.components
  have hne : rest ≠ [] := by
    rintro rfl
    have hempty := hsteps.symm
    rw [List.map_map] at hempty
    exact h.ne_nil (List.map_eq_nil_iff.1 hempty)
  have hbackslash : '\\' ∉ rest := by
    refine not_mem_of_stepsOf (by decide) (by decide) fun name hname => ?_
    rw [hsteps, List.mem_map] at hname
    obtain ⟨other, hother, heq⟩ := hname
    obtain ⟨name', hname', rfl⟩ := List.mem_map.1 hother
    exact Component.normal.inj heq ▸ hnames name' hname'
  rw [relativeId, String.toList_ofList, relativeChars, hrest]
  dsimp only
  rw [if_neg hne, withSlashes_eq_self hbackslash, hsteps]

theorem relativeId_inj {path' : String} (h : LeadsTo root path names)
    (h' : LeadsTo root path' names') (hnames : IsPlain names) (hnames' : IsPlain names')
    (heq : relativeId root path = relativeId root path') : names = names' := by
  have hsteps := stepsOf_relativeId h hnames
  rw [heq, stepsOf_relativeId h' hnames'] at hsteps
  have hnormal : Function.Injective (Component.normal ∘ String.toList) := fun _ _ heq =>
    String.toList_inj.1 (Component.normal.inj heq)
  rw [List.map_map, List.map_map] at hsteps
  exact (List.map_injective_iff.2 hnormal hsteps).symm

end Naming

namespace Discovery

open Naming SourceCorpus.Path

variable {d : Disk} {root : String} {names names' : Place}

structure IsFilePath (names : Place) : Prop where
  ne_nil : names ≠ []
  names : ∀ name ∈ names, Disk.IsFileName name

theorem ofSegment?_of_isFileName {name : String} (h : Disk.IsFileName name) :
    Component.ofSegment? name.toList = some (.normal name.toList) := by
  have hproper : name.toList ≠ [] ∧ name.toList ≠ ['.'] ∧ name.toList ≠ ['.', '.'] := by
    have hne := h.proper
    simp only [List.mem_cons, List.not_mem_nil, or_false, not_or, ← String.toList_inj] at hne
    exact hne
  rw [Component.ofSegment?, if_neg (not_or.2 ⟨hproper.1, hproper.2.1⟩), if_neg hproper.2.2]

theorem splitChar_textOf (h : IsFilePath names) :
    Text.splitChar '/' (textOf names) = names.map String.toList := by
  refine Text.splitChar_joinWith (mt List.map_eq_nil_iff.1 h.ne_nil) ?_
  rw [List.forall_mem_map]
  exact fun name hname => (h.names name hname).slash

/-- The identifier of what is found is made of its names, whatever the root. -/
theorem id_foundAt (h : IsFilePath names) (root : String) :
    (foundAt root names).id.toList =
      (if root = "" then ['/'] else []) ++ withSlashes (textOf names) := by
  have hne : names.map String.toList ≠ [] := mt List.map_eq_nil_iff.1 h.ne_nil
  have hslash : ∀ name ∈ names.map String.toList, '/' ∉ name := by
    rw [List.forall_mem_map]
    exact fun name hname => (h.names name hname).slash
  have hnormal : ∀ name ∈ names.map String.toList,
      Component.ofSegment? name = some (.normal name) := by
    rw [List.forall_mem_map]
    exact fun name hname => ofSegment?_of_isFileName (h.names name hname)
  have hback : dropEmptySegments (textOf names) = textOf names :=
    dropEmptySegments_joinWith hne hslash hnormal
  have hfront : skipEmptySegments (textOf names) = textOf names :=
    skipEmptySegments_joinWith hne hslash hnormal
  have hpath : ("/".intercalate (root :: names)).toList = root.toList ++ '/' :: textOf names := by
    obtain ⟨name, others, rfl⟩ := List.exists_cons_of_ne_nil h.ne_nil
    rw [String.toList_intercalate, Text.intercalate_eq_joinWith, List.map_cons, List.map_cons,
      Text.joinWith_cons_cons, List.append_assoc]
    rfl
  have hempty : textOf names ≠ [] := by
    intro hnil
    have hnone := hnormal [] (by rw [← splitChar_textOf h, hnil]; exact List.mem_cons_self)
    cases hnone
  change (String.ofList (relativeChars root.toList _)).toList = _
  rw [String.toList_ofList, hpath, relativeChars]
  -- An empty root is no prefix of a path: the slash behind it stays as the first character.
  by_cases hroot : root = ""
  · subst hroot
    have hkept : stripBase? [] ('/' :: textOf names) =
        some ('/' :: dropEmptySegments (textOf names)) := rfl
    rw [String.toList_empty, List.nil_append, hkept, hback]
    rfl
  · have hbase : root.toList ≠ [] := fun heq => hroot (String.toList_inj.1 heq)
    rw [if_neg hroot, stripBase?_append hbase, hfront, hback, List.nil_append]
    dsimp only
    rw [if_neg hempty]

/-- Files are told apart by their names with backslashes read as slashes. -/
theorem id_foundAt_inj (h : IsFilePath names) (h' : IsFilePath names') :
    (foundAt root names).id = (foundAt root names').id ↔
      withSlashes (textOf names) = withSlashes (textOf names') := by
  rw [← String.toList_inj, id_foundAt h, id_foundAt h']
  exact List.append_right_inj _

theorem place_foundAt_inj : (foundAt root names).place = (foundAt root names').place ↔
    names = names' :=
  List.append_right_inj _

/-! ### What is found below a directory -/

theorem Place.below?_eq_some_iff {p q : Place} : p.below? q = some names ↔ q = p ++ names := by
  induction p generalizing q with
  | nil => simp [Place.below?]
  | cons name p ih =>
    cases q with
    | nil => simp [Place.below?]
    | cons name' q =>
      rw [Place.below?, List.cons_append, List.cons.injEq]
      split
      next heq => rw [ih, and_iff_right heq.symm]
      next hne => exact iff_of_false nofun fun h => hne h.1.symm

/-- A file below a place is at the place that its names lead to from there. -/
theorem place_of_fileBelow {p : Place} {entry : Place × DiskEntry} {found : Place × Content}
    (h : (match p.below? entry.1, entry.2 with
      | some names, .file content => some (names, content)
      | _, _ => none) = some found) : entry.1 = p ++ found.1 := by
  split at h
  next names content hnames _ =>
    obtain rfl := Option.some.inj h
    exact Place.below?_eq_some_iff.1 hnames
  next => cases h

theorem isFilePath_of_mem_namesBelow (h : d.IsProper) {p : Place} (hn : names ∈ namesBelow d p) :
    IsFilePath names := by
  rw [namesBelow, List.mem_filter, Bool.and_eq_true] at hn
  obtain ⟨hbelow, hsource, -⟩ := hn
  refine ⟨?_, fun name hname => ?_⟩
  · rintro rfl
    cases hsource
  · obtain ⟨found, hfile, rfl⟩ := List.mem_map.1 hbelow
    obtain ⟨entry, hentry, hfound⟩ := List.mem_filterMap.1 hfile
    have hplace := place_of_fileBelow hfound
    exact h.names entry hentry name (hplace ▸ List.mem_append_right p hname)

theorem nodup_namesBelow (h : d.IsProper) (p : Place) : (namesBelow d p).Nodup := by
  refine List.Nodup.filter _ ?_
  rw [List.Nodup, List.pairwise_map, Disk.filesBelow, List.pairwise_filterMap]
  refine (List.pairwise_map.1 h.nodup).imp fun hplaces found hfound found' hfound' heq => ?_
  refine hplaces ?_
  rw [place_of_fileBelow hfound, place_of_fileBelow hfound', heq]

theorem find_of_isDirectory (h : d.isDirectory (Place.ofPath root)) :
    find d root = ((namesBelow d (Place.ofPath root)).map (foundAt root)).mergeSort
      Found.notAfter := by
  have hentry : d.entry? (Place.ofPath root) = some .directory := eq_of_beq h
  have hfile : d.isFile (Place.ofPath root) = false := by rw [Disk.isFile, hentry]
  rw [find, hfile, if_neg Bool.false_ne_true, if_pos h]

theorem mem_find_iff (h : d.isDirectory (Place.ofPath root)) {f : Found} :
    f ∈ find d root ↔ ∃ names ∈ namesBelow d (Place.ofPath root), foundAt root names = f := by
  rw [find_of_isDirectory h, List.mem_mergeSort, List.mem_map]

/-! ### Files that are told apart -/

/-- What is saved for the one file leaves alone all that a store answers about the other, and so what is
decided by it. -/
def AreStoredApart (file file' : String) : Prop :=
  ∀ (σ : Type) [DatasetStore σ] [FaithfulStore σ], FaithfulStore.IsName σ file →
    FaithfulStore.IsName σ file' → ∀ (s : σ) (a : Artifact), a.file = file →
      DatasetStore.answers (DatasetStore.save s a).1 file' = DatasetStore.answers s file' ∧
        ∀ (v : Validity) (source : String),
          v.admits (DatasetStore.save s a).1 ⟨file', source⟩ = v.admits s ⟨file', source⟩

/-- No two files that are found below the root share an identifier, nor anything that is kept under it.
-/
structure IdentifiesFiles (d : Disk) (root : String) : Prop where
  ids : ∀ f ∈ find d root, ∀ g ∈ find d root, f.place ≠ g.place → f.id ≠ g.id
  increasing : Text.IsIncreasing ((load d root).map (·.id))
  stored : ∀ f ∈ find d root, ∀ g ∈ find d root, f.place ≠ g.place → AreStoredApart f.id g.id

theorem areStoredApart {file file' : String} (h : file ≠ file') : AreStoredApart file file' := by
  intro σ _ _ hname hname' s a ha
  subst ha
  have hanswers := FaithfulStore.answers_save_of_ne s hname hname' h
  have hholds : DatasetStore.holds (DatasetStore.save s a).1 file' = DatasetStore.holds s file' :=
    congrArg Answers.holds hanswers
  have hfingerprint : DatasetStore.fingerprint? (DatasetStore.save s a).1 file' =
      DatasetStore.fingerprint? s file' := congrArg Answers.fingerprint? hanswers
  refine ⟨hanswers, fun v source => ?_⟩
  rw [Validity.admits.eq_def, Validity.admits.eq_def]
  cases v with
  | existence => exact hholds
  | contentHash => rw [hholds, hfingerprint]

/-- A file that is read keeps the identifier that it was found under. -/
theorem id_of_readText {f : Found} {file : SourceFile}
    (h : (match d.readText f.place with
      | .ok source => some ⟨f.id, source⟩
      | .error _ => none) = some file) : file.id = f.id := by
  split at h
  · obtain rfl := Option.some.inj h
    rfl
  · cases h

theorem Found.notAfter_iff (f g : Found) : f.notAfter g = true ↔ f.id ≤ g.id := decide_eq_true_iff

/-- Files that have identifiers of their own come in their order. -/
theorem isIncreasing_load (h : d.isDirectory (Place.ofPath root))
    (hids : ((namesBelow d (Place.ofPath root)).map fun names => (foundAt root names).id).Nodup) :
    Text.IsIncreasing ((load d root).map (·.id)) := by
  have hsorted : (find d root).Pairwise fun f g => f.id < g.id := by
    rw [find_of_isDirectory h]
    refine pairwise_lt_mergeSort Found.notAfter_iff ?_
    rwa [List.map_map]
  rw [Text.IsIncreasing, List.pairwise_map, load, List.pairwise_filterMap]
  refine hsorted.imp fun {f g} hfg file hfile file' hfile' => ?_
  rw [id_of_readText hfile, id_of_readText hfile']
  exact Text.bytesBefore_iff_lt.2 hfg

/-- Reading backslashes as slashes makes no two of the files that are found look the same. -/
def StaysApart (d : Disk) (root : String) : Prop :=
  ∀ names ∈ namesBelow d (Place.ofPath root), ∀ names' ∈ namesBelow d (Place.ofPath root),
    names ≠ names' → withSlashes (textOf names) ≠ withSlashes (textOf names')

instance (d : Disk) (root : String) : Decidable (StaysApart d root) :=
  inferInstanceAs (Decidable (∀ names ∈ _, ∀ names' ∈ _, _))

theorem nodup_ids (h : d.IsProper) (hapart : StaysApart d root) :
    ((namesBelow d (Place.ofPath root)).map fun names => (foundAt root names).id).Nodup := by
  rw [List.Nodup, List.pairwise_map]
  refine (nodup_namesBelow h _).imp_of_mem fun {names names'} hn hn' hne heq => ?_
  exact hapart names hn names' hn' hne ((id_foundAt_inj (isFilePath_of_mem_namesBelow h hn)
    (isFilePath_of_mem_namesBelow h hn')).1 heq)

theorem identifiesFiles_of_staysApart (h : d.IsProper) (hroot : d.isDirectory (Place.ofPath root))
    (hapart : StaysApart d root) : IdentifiesFiles d root := by
  have hids : ∀ f ∈ find d root, ∀ g ∈ find d root, f.place ≠ g.place → f.id ≠ g.id := by
    intro f hf g hg hne
    obtain ⟨names, hn, rfl⟩ := (mem_find_iff hroot).1 hf
    obtain ⟨names', hn', rfl⟩ := (mem_find_iff hroot).1 hg
    rw [Ne, id_foundAt_inj (isFilePath_of_mem_namesBelow h hn) (isFilePath_of_mem_namesBelow h hn')]
    exact hapart names hn names' hn' (mt place_foundAt_inj.2 hne)
  exact
    { ids := hids
      increasing := isIncreasing_load hroot (nodup_ids h hapart)
      stored := fun f hf g hg hne => areStoredApart (hids f hf g hg hne) }

theorem IdentifiesFiles.staysApart (h : d.IsProper) (hroot : d.isDirectory (Place.ofPath root))
    (hids : IdentifiesFiles d root) : StaysApart d root := by
  intro names hn names' hn' hne
  have hfound := hids.ids _ ((mem_find_iff hroot).2 ⟨names, hn, rfl⟩) _
    ((mem_find_iff hroot).2 ⟨names', hn', rfl⟩) (mt place_foundAt_inj.1 hne)
  rwa [Ne, id_foundAt_inj (isFilePath_of_mem_namesBelow h hn)
    (isFilePath_of_mem_namesBelow h hn')] at hfound

/-! ### Names without backslashes -/

theorem withSlashes_textOf (hnames : IsPlain names) :
    withSlashes (textOf names) = textOf names := by
  rw [withSlashes, textOf, Text.map_joinWith]
  have hpieces : ((names.map String.toList).map withSlashes) = names.map String.toList := by
    rw [List.map_map]
    exact List.map_congr_left fun name hname => withSlashes_eq_self (hnames name hname)
  exact congrArg (Text.joinWith ['/']) hpieces

theorem staysApart_of_no_backslash (h : d.IsProper)
    (hplain : ∀ names ∈ namesBelow d (Place.ofPath root), IsPlain names) : StaysApart d root := by
  intro names hn names' hn' hne heq
  rw [withSlashes_textOf (hplain names hn), withSlashes_textOf (hplain names' hn')] at heq
  have hsplit := splitChar_textOf (isFilePath_of_mem_namesBelow h hn)
  rw [heq, splitChar_textOf (isFilePath_of_mem_namesBelow h hn')] at hsplit
  exact hne (List.map_injective_iff.2 (fun _ _ => String.toList_inj.1) hsplit.symm)

/-- Such an identifier is a name under which every store keeps things apart. -/
theorem isClean_id (h : IsFilePath names) (hroot : root ≠ "") (hnames : IsPlain names) :
    IsClean (foundAt root names).id := by
  have hid : (foundAt root names).id.toList = textOf names := by
    rw [id_foundAt h, if_neg hroot, withSlashes_textOf hnames]
    rfl
  rw [IsClean, hid, splitChar_textOf h, List.forall_mem_map]
  intro name hname hbad
  have hproper := (h.names name hname).proper
  simp only [List.mem_cons, List.not_mem_nil, or_false, not_or, ← String.toList_inj] at hbad hproper
  obtain hempty | hcurrent | hparent := hbad
  · exact hproper.1 hempty
  · exact hproper.2.1 hcurrent
  · exact hproper.2.2 hparent

theorem identifiesFiles_iff (h : d.IsProper) (hroot : d.isDirectory (Place.ofPath root)) :
    (IdentifiesFiles d root ↔ StaysApart d root) ∧
      ((∀ names ∈ namesBelow d (Place.ofPath root), IsPlain names) →
        IdentifiesFiles d root ∧ (root ≠ "" → ∀ f ∈ find d root, IsClean f.id)) ∧
      ∀ path path' names names', LeadsTo root path names → LeadsTo root path' names' →
        IsPlain names → IsPlain names' → names ≠ names' →
          relativeId root path ≠ relativeId root path' := by
  refine ⟨⟨IdentifiesFiles.staysApart h hroot, identifiesFiles_of_staysApart h hroot⟩,
    fun hplain => ⟨?_, fun hne f hf => ?_⟩,
    fun path path' names names' hpath hpath' hnames hnames' => mt ?_⟩
  · exact identifiesFiles_of_staysApart h hroot (staysApart_of_no_backslash h hplain)
  · obtain ⟨names, hn, rfl⟩ := (mem_find_iff hroot).1 hf
    exact isClean_id (isFilePath_of_mem_namesBelow h hn) hne (hplain names hn)
  · exact relativeId_inj hpath hpath' hnames hnames'

theorem identifiesFiles_of_odd_names :
    let d : Disk := ⟨[(["r"], .directory), (["r", "..c.py"], .file (.text "x = 1\n")),
      (["r", "a\\b.py"], .file (.text "x = 2\n"))]⟩
    d.IsProper ∧ d.isDirectory (Place.ofPath "r/") ∧ IdentifiesFiles d "r/" ∧
      relativeId "r/" "r//./a.py" ≠ relativeId "r/" "r/b.py" := by
  intro d
  have hproper : d.IsProper := ⟨by decide, by decide⟩
  have hroot : d.isDirectory (Place.ofPath "r/") := by decide +kernel
  have happly := identifiesFiles_iff hproper hroot
  have hspelled : LeadsTo "r/" "r//./a.py" ["a.py"] := ⟨by decide, by decide +kernel⟩
  have hother : LeadsTo "r/" "r/b.py" ["b.py"] := ⟨by decide, by decide +kernel⟩
  refine ⟨hproper, hroot, happly.1.2 (by decide +kernel), ?_⟩
  exact happly.2.2 _ _ _ _ hspelled hother (by decide) (by decide) (by decide)

/-- A file whose name holds a backslash is taken for one in a directory. -/
theorem not_identifiesFiles_of_backslash :
    let d : Disk := ⟨[(["r"], .directory), (["r", "a"], .directory),
      (["r", "a", "b.py"], .file (.text "x = 1\n")), (["r", "a\\b.py"], .file (.text "x = 1\n"))]⟩
    d.IsProper ∧ d.isDirectory (Place.ofPath "r") ∧
      ⟨"a/b.py", ["r", "a", "b.py"]⟩ ∈ find d "r" ∧ ⟨"a/b.py", ["r", "a\\b.py"]⟩ ∈ find d "r" ∧
        ¬IdentifiesFiles d "r" := by
  intro d
  have hroot : d.isDirectory (Place.ofPath "r") := by decide +kernel
  have hinner : ⟨"a/b.py", ["r", "a", "b.py"]⟩ ∈ find d "r" :=
    (mem_find_iff hroot).2 ⟨["a", "b.py"], by decide +kernel, by decide +kernel⟩
  have houter : ⟨"a/b.py", ["r", "a\\b.py"]⟩ ∈ find d "r" :=
    (mem_find_iff hroot).2 ⟨["a\\b.py"], by decide +kernel, by decide +kernel⟩
  refine ⟨⟨by decide, by decide⟩, hroot, hinner, houter, fun h => ?_⟩
  exact h.ids _ hinner _ houter (by decide) rfl

end Discovery

end SourceCorpus
