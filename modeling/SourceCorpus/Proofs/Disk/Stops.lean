import SourceCorpus.Proofs.Disk.Replacement

/-!
Changes that stop on the way, be it that one fails or that the program ends. Main statement: wherever
they stop, at a place that is none of theirs stands what stood there, or a directory that was made on
the way to one.
-/

namespace SourceCorpus

namespace Change

/-- The places where the change may put, cut short or remove a file. -/
def files : Change → List Place
  | makeDirectory _ => []
  | write place _ => [place]
  | rename source target => [source, target]
  | removeFile place => [place]

def folders : Change → List Place
  | makeDirectory place => place.prefixes
  | _ => []

end Change

namespace Disk

/-- Where the changes may stop, with the disk that they leave behind and whether all of them were
made. Directories are made one after the other, and a file holds anything until it is written, but a
file is moved at once. -/
inductive StopsAt : Disk → List Change → Disk → Bool → Prop where
  | done {d : Disk} : StopsAt d [] d true
  | before {d : Disk} {c : Change} {changes : List Change} : StopsAt d (c :: changes) d false
  | folders {d : Disk} {place : Place} {changes : List Change} (made : Nat)
      (hfree : place.prefixes.any d.isFile = false) :
      StopsAt d (.makeDirectory place :: changes)
        ((place.prefixes.take made).foldl makeOneDirectory d) false
  | partly {d : Disk} {place : Place} {content : Content} {changes : List Change} (part : Content)
      (hroom : d.hasRoomFor place = true) :
      StopsAt d (.write place content :: changes) (d.put place (.file part)) false
  | next {d d₁ d' : Disk} {c : Change} {changes : List Change} {complete : Bool}
      (h : d.applied? c = some d₁) (hrest : StopsAt d₁ changes d' complete) :
      StopsAt d (c :: changes) d' complete

def KeptAt (d d' : Disk) (folders : List Place) (q : Place) : Prop :=
  d'.entry? q = d.entry? q ∨
    q ∈ folders ∧ d.entry? q = none ∧ d'.entry? q = some .directory

variable {d d' d₁ : Disk} {changes : List Change} {c : Change} {complete : Bool} {p q : Place}

/-! ### Where changes stop -/

theorem StopsAt.run_eq (h : StopsAt d changes d' true) : d.run changes = (d', true) := by
  induction changes generalizing d with
  | nil =>
    cases h
    rfl
  | cons c changes ih =>
    cases h with
    | next happlied hrest =>
      rw [run_cons_some happlied]
      exact ih hrest

/-- After changes that were made, the others may stop. -/
theorem StopsAt.append {first : List Change} (h : d.run first = (d₁, true))
    (hrest : StopsAt d₁ changes d' complete) : StopsAt d (first ++ changes) d' complete := by
  induction first generalizing d with
  | nil =>
    obtain rfl : d = d₁ := congrArg Prod.fst h
    exact hrest
  | cons c first ih =>
    cases happlied : d.applied? c with
    | none =>
      rw [run_cons_none happlied] at h
      cases h
    | some d₂ =>
      rw [run_cons_some happlied] at h
      exact .next happlied (ih h)

/-- A file that is moved last has not been moved if the changes stop on the way. -/
theorem StopsAt.of_concat_rename {source target : Place}
    (h : StopsAt d (changes ++ [.rename source target]) d' false) :
    ∃ complete, StopsAt d changes d' complete := by
  induction changes generalizing d with
  | nil =>
    cases h with
    | before => exact ⟨true, .done⟩
    | next _ hrest => cases hrest
  | cons c changes ih =>
    rw [List.cons_append] at h
    cases h with
    | before => exact ⟨false, .before⟩
    | folders made hfree => exact ⟨false, .folders made hfree⟩
    | partly part hroom => exact ⟨false, .partly part hroom⟩
    | next happlied hrest =>
      obtain ⟨complete, hstops⟩ := ih hrest
      exact ⟨complete, .next happlied hstops⟩

/-! ### What they leave alone -/

variable {folders folders' : List Place}

theorem KeptAt.trans (h : KeptAt d d₁ folders q) (h' : KeptAt d₁ d' folders' q) :
    KeptAt d d' (folders ++ folders') q := by
  unfold KeptAt at *
  rw [List.mem_append]
  rcases h' with h' | ⟨hmem, hnone, hmade⟩
  · rw [h']
    exact h.imp_right fun ⟨hmem, hmade⟩ => ⟨.inl hmem, hmade⟩
  · rcases h with h | ⟨-, -, hmade'⟩
    · exact .inr ⟨.inr hmem, h ▸ hnone, hmade⟩
    · rw [hmade'] at hnone
      cases hnone

theorem KeptAt.isFile_eq (h : KeptAt d d' folders q) : d'.isFile q = d.isFile q := by
  unfold isFile
  rcases h with h | ⟨-, hnone, hmade⟩
  · rw [h]
  · rw [hnone, hmade]

theorem KeptAt.entry?_eq (h : KeptAt d d' folders q) (hq : q ∉ folders) :
    d'.entry? q = d.entry? q :=
  h.resolve_right fun hmade => hq hmade.1

theorem entry?_put_of_ne (hq : q ≠ p) (d : Disk) (e : DiskEntry) :
    Disk.entry? (d.put p e) q = d.entry? q := by
  rw [entry?_put, if_neg hq]
  split
  next hnil => rw [hnil, entry?_nil]
  next => rfl

theorem entry?_without_of_ne (hq : q ≠ p) (d : Disk) :
    Disk.entry? (d.without p) q = d.entry? q := by
  rw [entry?_without, if_neg hq]
  split
  next hnil => rw [hnil, entry?_nil]
  next => rfl

theorem keptAt_foldl_makeOneDirectory {places : List Place} (hplaces : places ⊆ folders) (d : Disk)
    (q : Place) : KeptAt d (places.foldl makeOneDirectory d) folders q := by
  unfold KeptAt
  rw [entry?_foldl_makeOneDirectory]
  split
  next hmem =>
    cases d.entry? q with
    | none => exact .inr ⟨hplaces hmem, rfl, rfl⟩
    | some e => exact .inl rfl
  next => exact .inl rfl

theorem keptAt_applied? (h : d.applied? c = some d') (hq : q ∉ c.files) :
    KeptAt d d' c.folders q := by
  cases c with
  | makeDirectory place =>
    rw [applied?, makeDirectory?, Option.ite_none_left_eq_some] at h
    rw [← Option.some.inj h.2]
    exact keptAt_foldl_makeOneDirectory (List.Subset.refl _) d q
  | write place content =>
    rw [applied?, write?, Option.ite_none_right_eq_some] at h
    rw [← Option.some.inj h.2]
    exact .inl (entry?_put_of_ne (List.ne_of_not_mem_cons hq) d _)
  | rename source target =>
    obtain ⟨hsource, htarget⟩ : q ≠ source ∧ q ≠ target := by
      simpa [Change.files] using hq
    rw [applied?, rename?] at h
    split at h
    next content _ =>
      rw [Option.ite_none_right_eq_some] at h
      rw [← Option.some.inj h.2]
      left
      rw [entry?_put_of_ne htarget, entry?_without_of_ne hsource]
    next => cases h
  | removeFile place =>
    rw [applied?, removeFile?, Option.ite_none_right_eq_some] at h
    rw [← Option.some.inj h.2]
    exact .inl (entry?_without_of_ne (List.ne_of_not_mem_cons hq) d)

/-- Wherever changes stop, they leave alone what is at none of their places. -/
theorem StopsAt.keptAt (h : StopsAt d changes d' complete)
    (hq : q ∉ changes.flatMap Change.files) : KeptAt d d' (changes.flatMap Change.folders) q := by
  -- By the changes that were made: only the one after them may have been made in part.
  induction h with
  | done => exact .inl rfl
  | before => exact .inl rfl
  | folders made hfree =>
    apply keptAt_foldl_makeOneDirectory
    intro p hp
    rw [List.flatMap_cons]
    exact List.mem_append_left _ (List.mem_of_mem_take hp)
  | partly part hroom =>
    rw [List.flatMap_cons, List.mem_append, not_or] at hq
    exact .inl (entry?_put_of_ne (List.ne_of_not_mem_cons hq.1) _ _)
  | next happlied hrest ih =>
    rw [List.flatMap_cons, List.mem_append, not_or] at hq
    rw [List.flatMap_cons]
    exact (keptAt_applied? happlied hq.1).trans (ih hq.2)

/-- What is read at a place depends on what stands there and on the files on the way. -/
theorem readText_congr (hentry : d'.entry? q = d.entry? q)
    (hfiles : ∀ p ∈ q.prefixes, d'.isFile p = d.isFile p) : d'.readText q = d.readText q := by
  have hway : q.prefixes.any d'.isFile = q.prefixes.any d.isFile := by
    rw [Bool.eq_iff_iff, List.any_eq_true, List.any_eq_true]
    exact exists_congr fun p => and_congr_right fun hp => by rw [hfiles p hp]
  unfold readText
  rw [hentry, hway]

end Disk

end SourceCorpus
