import SourceCorpus.Disk.Change

/-!
The files of a disk, and what changes do to them. A change makes, moves or removes files only at the
places that it names; replacing a file leaves the old file or the new one.
-/

namespace SourceCorpus.Disk

def file? (d : Disk) (p : Place) : Option Content :=
  match d.entry? p with
  | some (.file content) => some content
  | _ => none

theorem isFile_eq (d : Disk) (p : Place) : d.isFile p = (d.file? p).isSome := by
  unfold isFile file?
  split <;> simp_all

theorem readText_toOption (d : Disk) (p : Place) :
    (d.readText p).toOption = (d.file? p).bind fun
      | .text text => some text
      | .bytes _ => none := by
  unfold readText file?
  cases h : d.entry? p with
  | none => simp only; split <;> rfl
  | some e => rcases e with (text | bytes) | _ <;> rfl

/-! ### Entries -/

theorem lookup_filter_ne (entries : List (Place × DiskEntry)) (p q : Place) :
    (entries.filter fun entry => entry.1 ≠ p).lookup q =
      if q = p then none else entries.lookup q := by
  induction entries with
  | nil => simp
  | cons entry entries ih =>
    obtain ⟨r, e⟩ := entry
    by_cases hr : r = p
    · subst hr
      rw [List.filter_cons_of_neg (by simp), ih]
      by_cases hq : q = r
      · rw [if_pos hq, if_pos hq]
      · rw [if_neg hq, if_neg hq, List.lookup_cons, beq_eq_false_iff_ne.2 hq]
    · rw [List.filter_cons_of_pos (by simpa using hr), List.lookup_cons, List.lookup_cons, ih]
      by_cases hq : q = r
      · subst hq
        simp [hr]
      · rw [beq_eq_false_iff_ne.2 hq]

theorem entry?_without (d : Disk) (p q : Place) :
    Disk.entry? (d.without p) q = if q = [] then some .directory else
      if q = p then none else d.entry? q := by
  by_cases hq : q = []
  · simp [Disk.entry?, hq]
  · simp only [Disk.entry?, hq, if_false]
    exact lookup_filter_ne d.entries p q

theorem entry?_put (d : Disk) (p q : Place) (e : DiskEntry) :
    Disk.entry? (d.put p e) q = if q = [] then some .directory else
      if q = p then some e else d.entry? q := by
  by_cases hq : q = []
  · simp [Disk.entry?, hq]
  · by_cases hp : q = p
    · simp [Disk.entry?, put, hp]
    · have hlookup := lookup_filter_ne d.entries p q
      rw [if_neg hp] at hlookup
      simp only [Disk.entry?, hq, hp, put, without, if_false, List.lookup_cons, hlookup,
        beq_eq_false_iff_ne.2 hp]

theorem file?_nil (d : Disk) : d.file? [] = none := by simp [file?, entry?]

theorem file?_put_file {p : Place} (hp : p ≠ []) (d : Disk) (q : Place) (content : Content) :
    (d.put p (.file content)).file? q = if q = p then some content else d.file? q := by
  by_cases hq : q = []
  · subst hq
    simp [file?_nil, hp.symm]
  · by_cases hqp : q = p <;> simp [file?, entry?_put, hp, hq, hqp]

theorem file?_without {p : Place} (d : Disk) (q : Place) :
    (d.without p).file? q = if q = p then none else d.file? q := by
  by_cases hq : q = []
  · subst hq
    simp [file?_nil]
  · by_cases hqp : q = p <;> simp [file?, entry?_without, hq, hqp]

/-! ### Single changes -/

theorem file?_makeOneDirectory (d : Disk) (p q : Place) :
    (d.makeOneDirectory p).file? q = d.file? q := by
  unfold makeOneDirectory
  split
  · next h =>
    by_cases hq : q = []
    · rw [hq, file?_nil, file?_nil]
    · by_cases hqp : q = p
      · simp_all [file?, entry?_put]
      · simp [file?, entry?_put, hq, hqp]
  · rfl

theorem file?_foldl_makeOneDirectory (places : List Place) (d : Disk) (q : Place) :
    (places.foldl makeOneDirectory d).file? q = d.file? q := by
  induction places generalizing d with
  | nil => rfl
  | cons p places ih => rw [List.foldl_cons, ih, file?_makeOneDirectory]

theorem file?_makeDirectory? {d d' : Disk} {p : Place} (h : d.makeDirectory? p = some d')
    (q : Place) : d'.file? q = d.file? q := by
  unfold makeDirectory? at h
  split at h
  · cases h
  · cases h
    exact file?_foldl_makeOneDirectory _ d q

theorem file?_write? {d d' : Disk} {p : Place} {content : Content} (hp : p ≠ [])
    (h : d.write? p content = some d') (q : Place) :
    d'.file? q = if q = p then some content else d.file? q := by
  unfold write? at h
  split at h
  · cases h
    exact file?_put_file hp d q content
  · cases h

theorem file?_rename? {d d' : Disk} {source target : Place} (ht : target ≠ [])
    (h : d.rename? source target = some d') (q : Place) :
    d'.file? q = if q = target then d.file? source else
      if q = source then none else d.file? q := by
  unfold rename? at h
  split at h
  · next content hsource =>
    split at h
    · cases h
      have hfile : d.file? source = some content := by rw [file?, hsource]
      rw [file?_put_file ht, file?_without, hfile]
    · cases h
  · cases h

theorem file?_removeFile? {d d' : Disk} {p : Place} (h : d.removeFile? p = some d') (q : Place) :
    d'.file? q = if q = p then none else d.file? q := by
  unfold removeFile? at h
  split at h
  · cases h
    exact file?_without d q
  · cases h

/-! ### Runs of changes -/

theorem run_cons_some {d d' : Disk} {c : Change} (h : d.applied? c = some d')
    (changes : List Change) : d.run (c :: changes) = d'.run changes := by
  rw [run, h]

theorem run_cons_none {d : Disk} {c : Change} (h : d.applied? c = none) (changes : List Change) :
    d.run (c :: changes) = (d, false) := by
  rw [run, h]

theorem run_append (d : Disk) (first second : List Change) :
    d.run (first ++ second) =
      if (d.run first).2 then (d.run first).1.run second else d.run first := by
  induction first generalizing d with
  | nil => simp [run]
  | cons c first ih =>
    cases h : d.applied? c with
    | none => simp [run_cons_none h]
    | some d' => simp [run_cons_some h, ih]

/-! ### Replacing a file -/

open Change

theorem draftPlace_append (folder : Place) (name : String) :
    draftPlace (folder ++ [name]) = folder ++ [name ++ ".tmp"] := by
  simp [draftPlace, Place.withSuffix]

theorem draftPlace_ne_nil (p : Place) : draftPlace p ≠ [] := by
  unfold draftPlace Place.withSuffix
  split <;> simp

/-- What a replacement does to files: the file at the place has the new text if the replacement was
completed and stays as it is if not, and no other file but the draft is touched. -/
theorem file?_run_replaceFile {p : Place} (hp : p ≠ []) (d : Disk) (text : String) {q : Place}
    (hq : q ≠ draftPlace p) :
    (d.run (replaceFile p text)).1.file? q =
      if (d.run (replaceFile p text)).2 = true ∧ q = p then some (.text text) else d.file? q := by
  unfold replaceFile
  cases hdir : d.applied? (.makeDirectory p.dropLast) with
  | none => simp [run_cons_none hdir]
  | some d₁ =>
    have hd₁ : d₁.file? q = d.file? q := file?_makeDirectory? hdir q
    rw [run_cons_some hdir]
    cases hwrite : d₁.applied? (.write (draftPlace p) (.text text)) with
    | none => simp [run_cons_none hwrite, hd₁]
    | some d₂ =>
      have hd₂ := file?_write? (draftPlace_ne_nil p) hwrite
      rw [run_cons_some hwrite]
      cases hrename : d₂.applied? (.rename (draftPlace p) p) with
      | none => simp [run_cons_none hrename, hd₂, hq, hd₁]
      | some d₃ =>
        have hd₃ := file?_rename? hp hrename
        rw [run_cons_some hrename, run]
        by_cases hqp : q = p
        · simp [hd₃, hd₂, hqp]
        · simp [hd₃, hd₂, hqp, hq, hd₁]

end SourceCorpus.Disk
