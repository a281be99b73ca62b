import SourceCorpus.Proofs.Disk.Files

/-!
What the replacement of a file makes of a disk. Main statement: replacements of files, of which none
lies on the way to the other, can be exchanged.
-/

namespace SourceCorpus

namespace Place

theorem mem_prefixes {p q : Place} : q ∈ p.prefixes ↔ q ≠ [] ∧ q <+: p := by
  induction p generalizing q with
  | nil => simp [prefixes]
  | cons name p ih =>
    cases q with
    | nil => simp [prefixes]
    | cons name' q =>
      rw [prefixes, List.mem_cons, List.mem_map, List.cons_prefix_cons]
      by_cases hq : q = []
      · simp [hq, ih, eq_comm]
      · constructor
        · rintro (hname | ⟨r, hr, hname⟩)
          · cases hname
            exact absurd rfl hq
          · cases hname
            exact ⟨List.cons_ne_nil _ _, rfl, (ih.1 hr).2⟩
        · rintro ⟨-, rfl, hbelow⟩
          exact .inr ⟨q, ih.2 ⟨hq, hbelow⟩, rfl⟩

theorem mem_prefixes_of_dropLast {p q : Place} (h : q ∈ prefixes p.dropLast) : q ∈ p.prefixes :=
  mem_prefixes.2 ((mem_prefixes.1 h).imp_right fun hq => hq.trans p.dropLast_prefix)

theorem self_mem_prefixes {p : Place} (hp : p ≠ []) : p ∈ p.prefixes :=
  mem_prefixes.2 ⟨hp, p.prefix_rfl⟩

theorem not_mem_prefixes_dropLast {p : Place} (hp : p ≠ []) : p ∉ prefixes p.dropLast := by
  intro h
  have hlength := (mem_prefixes.1 h).2.length_le
  have hpos := List.length_pos_iff.2 hp
  rw [List.length_dropLast] at hlength
  omega

end Place

namespace Disk

open Change

def Same (d d' : Disk) : Prop := ∀ q, d.entry? q = d'.entry? q

variable {d d' : Disk} {p p' q : Place}

theorem Same.isFile_eq (h : Same d d') (q : Place) : d.isFile q = d'.isFile q := by
  rw [isFile, isFile, h]

theorem Same.isDirectory_eq (h : Same d d') (q : Place) : d.isDirectory q = d'.isDirectory q := by
  rw [isDirectory, isDirectory, h]

theorem entry?_nil (d : Disk) : d.entry? [] = some .directory := if_pos rfl

theorem entry?_makeOneDirectory (d : Disk) (p q : Place) :
    Disk.entry? (d.makeOneDirectory p) q =
      if q = p then (d.entry? q).or (some .directory) else d.entry? q := by
  rw [makeOneDirectory]
  by_cases hq : q = []
  · subst hq
    simp [entry?_nil]
  · split
    next hnone =>
      rw [entry?_put, if_neg hq]
      split
      next heq => rw [heq, Option.isNone_iff_eq_none.1 hnone]; rfl
      next => rfl
    next hsome =>
      split
      next heq =>
        rw [Option.isNone_iff_eq_none] at hsome
        obtain ⟨e, he⟩ := Option.ne_none_iff_exists'.1 hsome
        rw [heq, he]; rfl
      next => rfl

theorem entry?_foldl_makeOneDirectory (places : List Place) (d : Disk) (q : Place) :
    Disk.entry? (places.foldl makeOneDirectory d) q =
      if q ∈ places then (d.entry? q).or (some .directory) else d.entry? q := by
  induction places generalizing d with
  | nil => rfl
  | cons p places ih =>
    rw [List.foldl_cons, ih, entry?_makeOneDirectory]
    by_cases hp : q = p
    · simp [hp]
    · simp [hp]

/-! ### Disks that hold the same -/

theorem Same.refl (d : Disk) : Same d d := fun _ => rfl

theorem Same.symm (h : Same d d') : Same d' d := fun q => (h q).symm

theorem Same.trans {d'' : Disk} (h : Same d d') (h' : Same d' d'') : Same d d'' := fun q =>
  (h q).trans (h' q)

theorem Same.put (h : Same d d') (p : Place) (e : DiskEntry) : Same (d.put p e) (d'.put p e) :=
  fun q => by rw [entry?_put, entry?_put, h]

theorem Same.without (h : Same d d') (p : Place) : Same (d.without p) (d'.without p) := fun q => by
  rw [entry?_without, entry?_without, h]

theorem Same.hasRoomFor_eq (h : Same d d') (p : Place) : d.hasRoomFor p = d'.hasRoomFor p := by
  rw [hasRoomFor, hasRoomFor, h.isDirectory_eq, h.isDirectory_eq]

/-- A change does the same to disks that hold the same. -/
theorem Same.applied? (h : Same d d') (c : Change) :
    Option.Rel Same (d.applied? c) (d'.applied? c) := by
  cases c with
  | makeDirectory place =>
    have hfiles : d.isFile = d'.isFile := funext h.isFile_eq
    rw [Disk.applied?, Disk.applied?, makeDirectory?, makeDirectory?, hfiles]
    split
    · exact .none
    · exact .some fun q => by
        rw [entry?_foldl_makeOneDirectory, entry?_foldl_makeOneDirectory, h]
  | write place content =>
    rw [Disk.applied?, Disk.applied?, write?, write?, h.hasRoomFor_eq]
    split
    · exact .some (h.put place (.file content))
    · exact .none
  | rename source target =>
    rw [Disk.applied?, Disk.applied?, rename?, rename?, h source, h.hasRoomFor_eq]
    split
    · split
      · exact .some ((h.without source).put target _)
      · exact .none
    · exact .none
  | removeFile place =>
    rw [Disk.applied?, Disk.applied?, removeFile?, removeFile?, h.isFile_eq]
    split
    · exact .some (h.without place)
    · exact .none

theorem Same.run (h : Same d d') (changes : List Change) :
    Same (d.run changes).1 (d'.run changes).1 ∧ (d.run changes).2 = (d'.run changes).2 := by
  induction changes generalizing d d' with
  | nil => exact ⟨h, rfl⟩
  | cons c changes ih =>
    have hrel := h.applied? c
    rw [Disk.run, Disk.run]
    cases hd : d.applied? c <;> cases hd' : d'.applied? c <;> rw [hd, hd'] at hrel <;> cases hrel
    · exact ⟨h, rfl⟩
    · next hsame => exact ih hsame

/-! ### What a replacement comes to -/

inductive Replacing where
  /-- A file is in the way of a directory. -/
  | blocked
  /-- The draft cannot be written. -/
  | undrafted
  /-- The draft cannot take the place of the file. -/
  | drafted
  | complete
  deriving DecidableEq

def replacing (d : Disk) (p : Place) : Replacing :=
  if (Place.prefixes p.dropLast).any d.isFile then .blocked
  else if d.isDirectory (draftPlace p) then .undrafted
  else if d.isDirectory p then .drafted
  else .complete

/-- What stands at a place once the directories of another place are made. -/
def entryWithFolders (p q : Place) (e : Option DiskEntry) : Option DiskEntry :=
  if q ∈ Place.prefixes p.dropLast then e.or (some .directory) else e

def Replacing.entryAfter (p : Place) (text : String) (q : Place) (e : Option DiskEntry) :
    Replacing → Option DiskEntry
  | .blocked => e
  | .undrafted => entryWithFolders p q e
  | .drafted => if q = draftPlace p then some (.file (.text text)) else entryWithFolders p q e
  | .complete =>
    if q = p then some (.file (.text text))
    else if q = draftPlace p then none
    else entryWithFolders p q e

theorem entry?_put_of_ne_nil (hp : p ≠ []) (d : Disk) (q : Place) (e : DiskEntry) :
    Disk.entry? (d.put p e) q = if q = p then some e else d.entry? q := by
  rw [entry?_put]
  by_cases hq : q = []
  · rw [if_pos hq, hq, if_neg (Ne.symm hp), entry?_nil]
  · rw [if_neg hq]

theorem entry?_without_of_ne_nil (hp : p ≠ []) (d : Disk) (q : Place) :
    Disk.entry? (d.without p) q = if q = p then none else d.entry? q := by
  rw [entry?_without]
  by_cases hq : q = []
  · rw [if_pos hq, hq, if_neg (Ne.symm hp), entry?_nil]
  · rw [if_neg hq]

theorem append_singleton_not_mem_prefixes (folder : Place) (name : String) :
    folder ++ [name] ∉ Place.prefixes folder := by
  have hplace := Place.not_mem_prefixes_dropLast (List.concat_ne_nil name folder)
  rwa [List.dropLast_concat] at hplace

theorem draft_ne (folder : Place) (name : String) : folder ++ [name ++ ".tmp"] ≠ folder ++ [name] := by
  intro h
  have hname := congrArg String.length (List.singleton_inj.1 (List.append_cancel_left h))
  simp at hname

/-- The directory of a file is there once it was made. -/
theorem isDirectory_folder {folder : Place} (h : (Place.prefixes folder).any d.isFile = false) :
    ((Place.prefixes folder).foldl makeOneDirectory d).isDirectory folder = true := by
  rw [isDirectory, entry?_foldl_makeOneDirectory]
  by_cases hfolder : folder = []
  · rw [hfolder, entry?_nil]
    rfl
  · have hmem := Place.self_mem_prefixes hfolder
    have hfile : ¬d.isFile folder = true := List.any_eq_false.1 h folder hmem
    rw [if_pos hmem]
    rw [isFile] at hfile
    cases hentry : d.entry? folder with
    | none => rfl
    | some e => cases e with
      | directory => rfl
      | file content => rw [hentry] at hfile; exact absurd rfl hfile

theorem isDirectory_makeFolder (folder : Place) (name : String) :
    ((Place.prefixes folder).foldl makeOneDirectory d).isDirectory (folder ++ [name]) =
      d.isDirectory (folder ++ [name]) := by
  rw [isDirectory, isDirectory, entry?_foldl_makeOneDirectory,
    if_neg (append_singleton_not_mem_prefixes folder name)]

theorem isDirectory_put_file (hp : p ≠ []) (d : Disk) (content : Content) (hq : q ≠ p) :
    (d.put p (.file content)).isDirectory q = d.isDirectory q := by
  rw [isDirectory, isDirectory, entry?_put_of_ne_nil hp, if_neg hq]

theorem hasRoomFor_append {folder : Place} (h : d.isDirectory folder = true) (name : String) :
    d.hasRoomFor (folder ++ [name]) = !d.isDirectory (folder ++ [name]) := by
  rw [hasRoomFor, List.dropLast_concat, h, Bool.true_and]

/-- A file is written first as a draft, if its directory is there. -/
theorem run_draft {folder : Place} (h : d.isDirectory folder = true) (name text : String) :
    let draft := folder ++ [name ++ ".tmp"]
    d.run [.write draft (.text text), .rename draft (folder ++ [name])] =
      if d.isDirectory draft then (d, false)
      else if d.isDirectory (folder ++ [name]) then (d.put draft (.file (.text text)), false)
      else (((d.put draft (.file (.text text))).without draft).put (folder ++ [name])
        (.file (.text text)), true) := by
  intro draft
  have hdraft : draft ≠ [] := by simp [draft]
  have hroom := hasRoomFor_append h (name ++ ".tmp")
  rw [run, applied?, write?, hroom]
  cases hunwritable : d.isDirectory draft with
  | true => rfl
  | false =>
    -- The draft is written, which leaves the directory and the file itself as they are.
    have hfolder : folder ≠ draft := fun h => by
      have hlength := congrArg List.length h
      rw [List.length_append] at hlength
      exact Nat.succ_ne_self _ hlength.symm
    have hroom' := hasRoomFor_append
      ((isDirectory_put_file hdraft d (.text text) hfolder).trans h) name
    rw [isDirectory_put_file hdraft d (.text text) (draft_ne folder name).symm] at hroom'
    simp only [Bool.not_false, if_true, Bool.false_eq_true, if_false]
    rw [run, applied?, rename?, entry?_put_of_ne_nil hdraft, if_pos rfl]
    dsimp only
    rw [hroom']
    cases d.isDirectory (folder ++ [name]) <;> rfl

theorem run_replaceFile (d : Disk) (hp : p ≠ []) (text : String) :
    (∀ q, Disk.entry? (d.run (replaceFile p text)).1 q =
      (d.replacing p).entryAfter p text q (d.entry? q)) ∧
    (d.run (replaceFile p text)).2 = decide (d.replacing p = .complete) := by
  obtain ⟨folder, name, rfl⟩ : ∃ folder name, p = folder ++ [name] :=
    ⟨_, _, (List.dropLast_concat_getLast hp).symm⟩
  rw [replaceFile, replacing, draftPlace_append, List.dropLast_concat]
  -- One case for each way out of a replacement, in the order in which it can stop.
  cases hblocked : (Place.prefixes folder).any d.isFile with
  | true =>
    have hdir : d.applied? (.makeDirectory folder) = none := if_pos hblocked
    rw [run_cons_none hdir]
    exact ⟨fun q => rfl, rfl⟩
  | false =>
    have hdir : d.applied? (.makeDirectory folder) =
        some ((Place.prefixes folder).foldl makeOneDirectory d) :=
      if_neg (Bool.eq_false_iff.1 hblocked)
    have hentry : ∀ q, Disk.entry? ((Place.prefixes folder).foldl makeOneDirectory d) q =
        entryWithFolders (folder ++ [name]) q (d.entry? q) := fun q => by
      rw [entry?_foldl_makeOneDirectory, entryWithFolders, List.dropLast_concat]
    rw [run_cons_some hdir, run_draft (isDirectory_folder hblocked), isDirectory_makeFolder,
      isDirectory_makeFolder, if_neg Bool.false_ne_true]
    -- From here on only what stands where counts, not how the directories were made.
    generalize (Place.prefixes folder).foldl makeOneDirectory d = d₁ at hentry
    have hdraft : folder ++ [name ++ ".tmp"] ≠ [] := by simp
    split
    next => exact ⟨hentry, rfl⟩
    next =>
      split
      next =>
        refine ⟨fun q => ?_, rfl⟩
        rw [entry?_put_of_ne_nil hdraft, Replacing.entryAfter, draftPlace_append, hentry]
      next =>
        refine ⟨fun q => ?_, rfl⟩
        rw [entry?_put_of_ne_nil hp, Replacing.entryAfter, draftPlace_append,
          entry?_without_of_ne_nil hdraft, entry?_put_of_ne_nil hdraft, hentry]
        split
        next => rfl
        next => split <;> rfl

/-! ### Replacements in another order -/

/-- What the replacement of a file touches does not lie on the way to the other file, nor is it the
other draft. -/
def Spares (p p' : Place) : Prop :=
  ∀ q ∈ [p, draftPlace p], q ∉ p'.prefixes ∧ q ≠ draftPlace p'

namespace Replacing

/-- A place that is neither the file nor its draft is at most made a directory. -/
theorem entryAfter_of_ne (hq : q ≠ p) (hdraft : q ≠ draftPlace p) (text : String) (r : Replacing) :
    (∀ e, r.entryAfter p text q e = e) ∨
      ∀ e, r.entryAfter p text q e = entryWithFolders p q e := by
  cases r with
  | blocked => exact .inl fun e => rfl
  | undrafted => exact .inr fun e => rfl
  | drafted => exact .inr fun e => if_neg hdraft
  | complete => exact .inr fun e => (if_neg hq).trans (if_neg hdraft)

theorem entryWithFolders_comm (p p' q : Place) (e : Option DiskEntry) :
    entryWithFolders p q (entryWithFolders p' q e) =
      entryWithFolders p' q (entryWithFolders p q e) := by
  rw [entryWithFolders, entryWithFolders, entryWithFolders, entryWithFolders]
  split <;> split <;> rfl

/-- What is touched for the one file stays as it is for the other. -/
theorem entryAfter_of_spares (h : Spares p p') (hp' : p' ≠ []) (hq : q ∈ [p, draftPlace p])
    (text : String) (e : Option DiskEntry) (r : Replacing) : r.entryAfter p' text q e = e := by
  obtain ⟨hbelow, hdraft⟩ := h q hq
  have hne : q ≠ p' := fun heq => hbelow (by rw [heq]; exact Place.self_mem_prefixes hp')
  have hfolders : entryWithFolders p' q e = e :=
    if_neg fun hmem => hbelow (Place.mem_prefixes_of_dropLast hmem)
  obtain heq | heq := entryAfter_of_ne hne hdraft text r
  · exact heq e
  · rw [heq, hfolders]

theorem entryAfter_comm (h : Spares p p') (h' : Spares p' p) (hp : p ≠ []) (hp' : p' ≠ [])
    (text text' : String) (q : Place) (e : Option DiskEntry) (r r' : Replacing) :
    r'.entryAfter p' text' q (r.entryAfter p text q e) =
      r.entryAfter p text q (r'.entryAfter p' text' q e) := by
  by_cases hq : q ∈ [p, draftPlace p]
  · rw [entryAfter_of_spares h hp' hq, entryAfter_of_spares h hp' hq]
  by_cases hq' : q ∈ [p', draftPlace p']
  · rw [entryAfter_of_spares h' hp hq', entryAfter_of_spares h' hp hq']
  simp only [List.mem_cons, List.not_mem_nil, or_false, not_or] at hq hq'
  -- The place is none of the four, and both replacements at most make it a directory.
  obtain heq | heq := entryAfter_of_ne hq.1 hq.2 text r <;>
    obtain heq' | heq' := entryAfter_of_ne hq'.1 hq'.2 text' r'
  · rw [heq, heq', heq]
  · rw [heq, heq', heq]
  · rw [heq, heq', heq', heq]
  · rw [heq, heq', heq', heq, entryWithFolders_comm]

end Replacing

/-- A replacement does not decide about that of a file that it spares. -/
theorem replacing_run_replaceFile (h : Spares p p') (h' : Spares p' p) (hp : p ≠ [])
    (d : Disk) (text : String) :
    (d.run (replaceFile p text)).1.replacing p' = d.replacing p' := by
  have hsame : ∀ q ∈ [p', draftPlace p'],
      (d.run (replaceFile p text)).1.isDirectory q = d.isDirectory q := fun q hq => by
    rw [isDirectory, isDirectory, (run_replaceFile d hp text).1,
      Replacing.entryAfter_of_spares h' hp hq]
  have hfile : ∀ q ∈ Place.prefixes p'.dropLast,
      (d.run (replaceFile p text)).1.isFile q = d.isFile q := fun q hq => by
    have hmem := Place.mem_prefixes_of_dropLast hq
    have hne : ∀ r ∈ [p, draftPlace p], q ≠ r := fun r hr heq => (h r hr).1 (heq ▸ hmem)
    rw [isFile_eq, isFile_eq, file?_run_replaceFile hp d text (hne _ (by simp)),
      if_neg fun heq => hne p (by simp) heq.2]
  have hblocked : (Place.prefixes p'.dropLast).any (d.run (replaceFile p text)).1.isFile =
      (Place.prefixes p'.dropLast).any d.isFile := by
    rw [Bool.eq_iff_iff, List.any_eq_true, List.any_eq_true]
    exact exists_congr fun q => and_congr_right fun hq => by rw [hfile q hq]
  rw [replacing, replacing, hblocked, hsame p' (by simp), hsame (draftPlace p') (by simp)]

def Exchange (xs ys : List Change) : Prop :=
  ∀ d : Disk, ((d.run xs).1.run ys).2 = (d.run ys).2 ∧ ((d.run ys).1.run xs).2 = (d.run xs).2 ∧
    Same ((d.run xs).1.run ys).1 ((d.run ys).1.run xs).1

theorem Exchange.symm {xs ys : List Change} (h : Exchange xs ys) : Exchange ys xs := fun d =>
  ⟨(h d).2.1, (h d).1, (h d).2.2.symm⟩

theorem Exchange.append {xs ys zs : List Change} (h : Exchange xs zs) (h' : Exchange ys zs) :
    Exchange (xs ++ ys) zs := by
  intro d
  -- The first changes fail on both sides or on neither; if they fail, the others are not made.
  obtain ⟨hzs, hxs, hsame⟩ := h d
  rw [run_append, run_append, hxs]
  split
  next =>
    obtain ⟨hzs', hys, hsame'⟩ := h' (d.run xs).1
    have hswap := hsame.symm.run ys
    exact ⟨hzs'.trans hzs, hswap.2.trans hys, hsame'.trans hswap.1.symm⟩
  next => exact ⟨hzs, hxs, hsame⟩

/-- Replacements that spare each other's files can be exchanged. -/
theorem exchange_replaceFile (h : Spares p p') (h' : Spares p' p) (hp : p ≠ []) (hp' : p' ≠ [])
    (text text' : String) : Exchange (replaceFile p text) (replaceFile p' text') := by
  intro d
  refine ⟨?_, ?_, fun q => ?_⟩
  · rw [(run_replaceFile _ hp' text').2, (run_replaceFile _ hp' text').2,
      replacing_run_replaceFile h h' hp]
  · rw [(run_replaceFile _ hp text).2, (run_replaceFile _ hp text).2,
      replacing_run_replaceFile h' h hp']
  · rw [(run_replaceFile _ hp' text').1, (run_replaceFile _ hp text).1,
      (run_replaceFile _ hp text).1, (run_replaceFile _ hp' text').1,
      replacing_run_replaceFile h h' hp, replacing_run_replaceFile h' h hp',
      Replacing.entryAfter_comm h h' hp hp']

end Disk

end SourceCorpus
