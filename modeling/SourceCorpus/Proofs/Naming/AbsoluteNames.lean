import Mathlib.Data.List.TakeWhile
import SourceCorpus.Naming.Module
import SourceCorpus.Proofs.Text.Pieces

/-!
Absolute names. A name that begins with a dot is relative, so what a relative name comes to should
begin with none. Main statement: it does, or the name is kept because it climbs out of the root or
names nothing, exactly if the name leaves all directories of the file behind or the outermost of them
does not begin with a dot itself.
-/

namespace SourceCorpus.Naming

open Text

def directoriesOf (file : String) : List (List Char) := (pathParts file.toList).dropLast

def levelsOf (dotted : String) : Nat := (dotted.toList.takeWhile (· = '.')).length

def IsRelative (name : String) : Prop := name.toList.head? = some '.'

/-- The name has a dot for the package of the file, one for every package around it, and more. -/
def ClimbsOut (file dotted : String) : Prop := (directoriesOf file).length + 1 < levelsOf dotted

/-- The name stands for the root, which has no name. -/
def NamesNothing (file dotted : String) : Prop :=
  dotted.toList = List.replicate ((directoriesOf file).length + 1) '.'

/-- What the name comes to in the file is absolute, or there is a reason to keep the name; and then
it stays. -/
structure ComesOutAbsolute (file dotted : String) : Prop where
  absolute : ¬IsRelative (absoluteName file dotted) ∨
    absoluteName file dotted = dotted ∧ (ClimbsOut file dotted ∨ NamesNothing file dotted)
  again : absoluteName file (absoluteName file dotted) = absoluteName file dotted

variable {file dotted : String}

/-! ### Texts that begin with a dot -/

theorem head?_joinWith {sep piece : List Char} (h : piece ≠ []) (pieces : List (List Char)) :
    (joinWith sep (piece :: pieces)).head? = piece.head? := by
  obtain ⟨c, cs, rfl⟩ := List.exists_cons_of_ne_nil h
  cases pieces with
  | nil => rfl
  | cons next pieces => rw [joinWith_cons_cons]; rfl

theorem head?_dropWhile_ne_dot (cs : List Char) :
    (cs.dropWhile (· = '.')).head? ≠ some '.' := by
  intro hdot
  have hno := List.head?_dropWhile_not (fun c : Char => decide (c = '.')) cs
  rw [hdot] at hno
  cases hno

theorem levelsOf_eq_zero_iff : levelsOf dotted = 0 ↔ ¬IsRelative dotted := by
  rw [levelsOf, IsRelative, List.length_eq_zero_iff]
  cases dotted.toList with
  | nil => simp
  | cons c cs => simp [List.takeWhile_cons]

theorem levelsOf_of_namesNothing (h : NamesNothing file dotted) :
    levelsOf dotted = (directoriesOf file).length + 1 := by
  rw [levelsOf, h, List.takeWhile_replicate, if_pos (decide_eq_true rfl), List.length_replicate]

theorem ne_nil_of_mem_directoriesOf {directory : List Char} (h : directory ∈ directoriesOf file) :
    directory ≠ [] := by
  have hpart := List.dropLast_subset _ h
  rw [pathParts, List.mem_filter, Bool.and_eq_true] at hpart
  exact of_decide_eq_true hpart.2.1

/-! ### What a name comes to -/

theorem absoluteName_of_not_isRelative (h : ¬IsRelative dotted) :
    absoluteName file dotted = dotted := by
  have hlevels : (dotted.toList.takeWhile (· = '.')).length = 0 := levelsOf_eq_zero_iff.2 h
  rw [absoluteName, absoluteChars]
  dsimp only
  rw [if_pos hlevels, String.ofList_toList]

theorem absoluteName_of_climbsOut (h : ClimbsOut file dotted) : absoluteName file dotted = dotted := by
  have hlevels : (pathParts file.toList).dropLast.length + 1 <
    (dotted.toList.takeWhile (· = '.')).length := h
  rw [absoluteName, absoluteChars]
  dsimp only
  rw [if_neg (by omega), climb?, if_neg (by omega), String.ofList_toList]

def partsOf (file dotted : String) : List (List Char) :=
  let suffix := dotted.toList.dropWhile (· = '.')
  (directoriesOf file).take ((directoriesOf file).length + 1 - levelsOf dotted) ++
    if suffix = [] then [] else [suffix]

theorem absoluteName_of_isRelative (h : IsRelative dotted) (hc : ¬ClimbsOut file dotted) :
    absoluteName file dotted = if partsOf file dotted = [] then dotted
      else String.ofList (joinWith ['.'] (partsOf file dotted)) := by
  have hpositive : levelsOf dotted ≠ 0 := mt levelsOf_eq_zero_iff.1 (not_not_intro h)
  have hle : levelsOf dotted - 1 ≤ (directoriesOf file).length := by
    rw [ClimbsOut] at hc
    omega
  have hleft : (directoriesOf file).length - (levelsOf dotted - 1) =
      (directoriesOf file).length + 1 - levelsOf dotted := by omega
  have hsuffix : dotted.toList.drop (levelsOf dotted) = dotted.toList.dropWhile (· = '.') := by
    conv_lhs => rw [← List.takeWhile_append_dropWhile (p := fun c => c = '.') (l := dotted.toList)]
    exact List.drop_left
  have hsome : (dotted.toList.takeWhile (· = '.')).length ≠ 0 := hpositive
  have hfront : (dotted.toList.takeWhile (· = '.')).length - 1 ≤
    (pathParts file.toList).dropLast.length := hle
  have hbehind (package : List (List Char)) (suffix : List Char) :
      (if suffix = [] then package else package ++ [suffix]) =
        package ++ if suffix = [] then [] else [suffix] := by
    split
    · rw [List.append_nil]
    · rfl
  -- One dot stands for the package of the file itself, so that the climb is one step shorter.
  have habsolute : absoluteChars file.toList dotted.toList =
      if partsOf file dotted = [] then dotted.toList
      else joinWith ['.'] (partsOf file dotted) := by
    rw [partsOf, ← hsuffix, ← hleft, absoluteChars]
    dsimp only
    rw [if_neg hsome, climb?, if_pos hfront]
    dsimp only
    rw [hbehind]
    rfl
  rw [absoluteName, habsolute]
  split
  · exact String.ofList_toList
  · rfl

theorem partsOf_eq_nil_iff (h : IsRelative dotted) (hc : ¬ClimbsOut file dotted) :
    partsOf file dotted = [] ↔ NamesNothing file dotted := by
  have hpositive : levelsOf dotted ≠ 0 := mt levelsOf_eq_zero_iff.1 (not_not_intro h)
  rw [ClimbsOut] at hc
  constructor
  · intro hparts
    obtain ⟨hleft, hsuffix⟩ := List.append_eq_nil_iff.1 hparts
    have hnothing : dotted.toList.dropWhile (· = '.') = [] := by
      by_contra hne
      rw [if_neg hne] at hsuffix
      cases hsuffix
    have hlevels : levelsOf dotted = (directoriesOf file).length + 1 := by
      rcases List.take_eq_nil_iff.1 hleft with hnone | hempty
      · omega
      · rw [hempty, List.length_nil] at hc ⊢
        omega
    rw [NamesNothing, ← hlevels]
    conv_lhs => rw [← List.takeWhile_append_dropWhile (p := fun c => c = '.') (l := dotted.toList),
      hnothing, List.append_nil]
    refine List.eq_replicate_iff.2 ⟨rfl, fun c hc => ?_⟩
    have hdot := List.mem_takeWhile_imp hc
    exact of_decide_eq_true hdot
  · intro hnothing
    rw [partsOf, levelsOf_of_namesNothing hnothing, Nat.sub_self, List.take_zero, List.nil_append,
      hnothing, List.dropWhile_replicate, if_pos (decide_eq_true rfl)]
    rfl

/-- Whether a name comes to one with a dot in front is up to the first of the parts that are left. -/
theorem isRelative_absoluteName_iff (h : IsRelative dotted) (hc : ¬ClimbsOut file dotted)
    (hn : ¬NamesNothing file dotted) : IsRelative (absoluteName file dotted) ↔
      levelsOf dotted ≤ (directoriesOf file).length ∧
        ∃ directory ∈ (directoriesOf file).head?, directory.head? = some '.' := by
  have hpositive : levelsOf dotted ≠ 0 := mt levelsOf_eq_zero_iff.1 (not_not_intro h)
  rw [absoluteName_of_isRelative h hc, if_neg (mt (partsOf_eq_nil_iff h hc).1 hn),
    IsRelative, String.toList_ofList, partsOf]
  by_cases hle : levelsOf dotted ≤ (directoriesOf file).length
  · obtain ⟨left, hleft⟩ :
        ∃ left, (directoriesOf file).length + 1 - levelsOf dotted = left + 1 :=
      ⟨(directoriesOf file).length - levelsOf dotted, by omega⟩
    rw [and_iff_right hle, hleft]
    cases hdirectories : directoriesOf file with
    | nil =>
      rw [hdirectories] at hle
      exact absurd (Nat.le_zero.1 hle) hpositive
    | cons directory directories =>
      have hmem : directory ∈ directoriesOf file := hdirectories ▸ List.mem_cons_self
      have hne : directory ≠ [] := ne_nil_of_mem_directoriesOf hmem
      rw [List.take_succ_cons, List.cons_append, head?_joinWith hne]
      simp
  · have hnone : (directoriesOf file).length + 1 - levelsOf dotted = 0 := by omega
    rw [hnone, List.take_zero, List.nil_append]
    refine iff_of_false ?_ fun hboth => hle hboth.1
    split
    · exact nofun
    · exact head?_dropWhile_ne_dot dotted.toList

/-- Only directories at the root of the file's path that begin with a dot make a name come to one
that is relative again. -/
theorem comesOutAbsolute_iff (file dotted : String) : ComesOutAbsolute file dotted ↔
    levelsOf dotted = 0 ∨ (directoriesOf file).length < levelsOf dotted ∨
      ∀ directory ∈ (directoriesOf file).head?, directory.head? ≠ some '.' := by
  by_cases hrelative : IsRelative dotted
  swap
  · have hkept : absoluteName file dotted = dotted := absoluteName_of_not_isRelative hrelative
    refine iff_of_true ⟨.inl (hkept.symm ▸ hrelative), by rw [hkept, hkept]⟩ (.inl ?_)
    exact levelsOf_eq_zero_iff.2 hrelative
  have hpositive : levelsOf dotted ≠ 0 := mt levelsOf_eq_zero_iff.1 (not_not_intro hrelative)
  rw [or_iff_right hpositive]
  by_cases hclimbs : ClimbsOut file dotted
  · have hkept : absoluteName file dotted = dotted := absoluteName_of_climbsOut hclimbs
    refine iff_of_true ⟨.inr ⟨hkept, .inl hclimbs⟩, by rw [hkept, hkept]⟩ (.inl ?_)
    exact Nat.lt_of_succ_lt hclimbs
  by_cases hnothing : NamesNothing file dotted
  · have hkept : absoluteName file dotted = dotted := by
      rw [absoluteName_of_isRelative hrelative hclimbs,
        if_pos ((partsOf_eq_nil_iff hrelative hclimbs).2 hnothing)]
    refine iff_of_true ⟨.inr ⟨hkept, .inr hnothing⟩, by rw [hkept, hkept]⟩ (.inl ?_)
    rw [levelsOf_of_namesNothing hnothing]
    exact Nat.lt_succ_self _
  -- No reason is left to keep the name.
  have habsolute : ComesOutAbsolute file dotted ↔ ¬IsRelative (absoluteName file dotted) := by
    refine ⟨fun h => h.absolute.resolve_right fun hkept => ?_, fun h => ⟨.inl h, ?_⟩⟩
    · exact hkept.2.elim hclimbs hnothing
    · exact absoluteName_of_not_isRelative h
  rw [habsolute, isRelative_absoluteName_iff hrelative hclimbs hnothing, not_and_or, not_le,
    not_exists]
  simp only [not_and]

/-- In the directory `.github`, `.x` comes to a name that is relative, and comes to another one when
it is resolved again. -/
theorem not_comesOutAbsolute_of_hidden :
    relativeId "r" "r/.github/t.py" = ".github/t.py" ∧
      absoluteName ".github/t.py" ".x" = ".github.x" ∧
      absoluteName ".github/t.py" ".github.x" = ".github.github.x" ∧
      ¬ComesOutAbsolute ".github/t.py" ".x" := by
  refine ⟨by decide +kernel, by decide +kernel, by decide +kernel, fun h => ?_⟩
  have habsolute : absoluteName ".github/t.py" ".x" = ".github.x" := by decide +kernel
  have hagain := h.again
  rw [habsolute] at hagain
  exact absurd hagain (by decide +kernel)

end SourceCorpus.Naming
