import Mathlib.Data.List.DropRight
import SourceCorpus.Naming.Module
import SourceCorpus.Proofs.Store.Places
import SourceCorpus.Proofs.Syntax.Spelling.Places

/-!
Relative imports and names of modules. Main statement: a relative import of a name from a module has
the absolute name that the module has by its own path, with the name behind it.
-/

namespace SourceCorpus.Naming

open Text SourceCorpus.Path

structure IsName (name : List Char) : Prop where
  ne_nil : name ≠ []
  slash : '/' ∉ name
  backslash : '\\' ∉ name
  current : name ≠ ['.']
  parent : name ≠ ['.', '.']

instance (name : List Char) : Decidable (IsName name) :=
  decidable_of_iff
    (name ≠ [] ∧ '/' ∉ name ∧ '\\' ∉ name ∧ name ≠ ['.'] ∧ name ≠ ['.', '.'])
    ⟨fun ⟨hne, hslash, hbackslash, hcurrent, hparent⟩ =>
      ⟨hne, hslash, hbackslash, hcurrent, hparent⟩,
      fun h => ⟨h.ne_nil, h.slash, h.backslash, h.current, h.parent⟩⟩

def pathOf (directories : List (List Char)) (file : List Char) : List Char :=
  joinWith ['/'] (directories ++ [file])

variable {directories : List (List Char)} {file module : List Char} {k : Nat}

/-! ### Paths made of names -/

theorem splitChar_pathOf (h : ∀ name ∈ directories ++ [file], IsName name) :
    splitChar '/' (pathOf directories file) = directories ++ [file] :=
  splitChar_joinWith (by simp) fun name hname => (h name hname).slash

theorem withSlashes_pathOf (h : ∀ name ∈ directories ++ [file], IsName name) :
    withSlashes (pathOf directories file) = pathOf directories file := by
  have hkept : (directories ++ [file]).map withSlashes = directories ++ [file] := by
    refine (List.map_congr_left fun name hname => ?_).trans (List.map_id _)
    refine (List.map_congr_left fun c hc => ?_).trans (List.map_id _)
    have hother : c ≠ '\\' := fun heq => (h name hname).backslash (heq ▸ hc)
    exact if_neg hother
  rw [withSlashes, pathOf, map_joinWith]
  exact congrArg (joinWith ['/']) hkept

theorem pathParts_pathOf (h : ∀ name ∈ directories ++ [file], IsName name) :
    pathParts (pathOf directories file) = directories ++ [file] := by
  rw [pathParts, withSlashes_pathOf h, splitChar_pathOf h]
  refine List.filter_eq_self.2 fun name hname => ?_
  simp [(h name hname).ne_nil, (h name hname).current]

theorem components_pathOf (h : ∀ name ∈ directories ++ [file], IsName name) :
    components (pathOf directories file) = (directories ++ [file]).map .normal := by
  have hclean : IsClean (String.ofList (pathOf directories file)) := by
    rw [IsClean, String.toList_ofList, splitChar_pathOf h]
    intro name hname
    simp [(h name hname).ne_nil, (h name hname).current, (h name hname).parent]
  have hcomponents := hclean.components_eq
  rwa [String.toList_ofList, splitChar_pathOf h] at hcomponents

/-! ### Names of modules -/

theorem splitExtension_append {stem extension : List Char} (hne : stem ≠ []) (hstem : '.' ∉ stem)
    (hextension : '.' ∉ extension) :
    splitExtension (stem ++ '.' :: extension) = (stem, some extension) := by
  have hparent : stem ++ '.' :: extension ≠ ['.', '.'] := by
    obtain ⟨c, rest, rfl⟩ := List.exists_cons_of_ne_nil hne
    intro heq
    rw [List.cons_append] at heq
    exact hstem ((List.cons.inj heq).1 ▸ List.mem_cons_self)
  have hback : ((stem ++ '.' :: extension).reverse.takeWhile (· ≠ '.')).reverse = extension := by
    rw [List.reverse_append, List.reverse_cons, List.append_assoc, List.singleton_append,
      takeWhile_ne_append_cons (mt List.mem_reverse.1 hextension), List.reverse_reverse]
  have hlength : (stem ++ '.' :: extension).length = stem.length + extension.length + 1 := by
    rw [List.length_append, List.length_cons, Nat.add_assoc]
  have hfront : (stem ++ '.' :: extension).take
      ((stem ++ '.' :: extension).length - extension.length - 1) = stem := by
    rw [hlength]
    exact List.take_left' (by omega)
  rw [splitExtension, if_neg hparent]
  dsimp only
  rw [hback, hfront, if_neg]
  rw [hlength]
  exact not_or.2 ⟨by omega, hne⟩

/-- The name of a module is made of the names of its directories and the stem of its file. -/
theorem modulePartsOf_pathOf {stem extension : List Char} (hne : stem ≠ []) (hstem : '.' ∉ stem)
    (hextension : '.' ∉ extension)
    (h : ∀ name ∈ directories ++ [stem ++ '.' :: extension], IsName name) :
    modulePartsOf (components (pathOf directories (stem ++ '.' :: extension))) =
      directories ++ [stem] := by
  have hnames (names : List (List Char)) :
      (names.map Component.normal).filterMap Component.name? = names := by
    rw [List.filterMap_map]
    exact List.filterMap_some
  have hsegment : Component.ofSegment? stem = some (.normal stem) := by
    have hcurrent : stem ≠ ['.'] := fun heq => hstem (heq ▸ List.mem_cons_self)
    have hparent : stem ≠ ['.', '.'] := fun heq => hstem (heq ▸ List.mem_cons_self)
    rw [Component.ofSegment?, if_neg (not_or.2 ⟨hne, hcurrent⟩), if_neg hparent]
  rw [components_pathOf h, modulePartsOf, List.map_append, List.map_singleton,
    List.getLast?_concat]
  dsimp only
  rw [List.dropLast_concat, hnames, splitExtension_append hne hstem hextension, hsegment]
  rfl

/-! ### Relative names -/

/-- Dots before a name that begins with none are the levels of a relative import. -/
theorem takeWhile_dots {suffix : List Char} (hsuffix : ∀ c ∈ suffix.head?, c ≠ '.') (levels : Nat) :
    (List.replicate levels '.' ++ suffix).takeWhile (· = '.') = List.replicate levels '.' := by
  have hdots : ∀ c ∈ List.replicate levels '.', decide (c = '.') = true := fun c hc =>
    decide_eq_true (List.eq_of_mem_replicate hc)
  have hrest : suffix.takeWhile (· = '.') = [] := by
    cases suffix with
    | nil => rfl
    | cons c suffix => exact List.takeWhile_cons_of_neg (by simpa using hsuffix c rfl)
  rw [List.takeWhile_append_of_pos hdots, hrest, List.append_nil]

/-- A relative name stands for the directories that are left behind its dots, and its names. -/
theorem absoluteChars_pathOf {suffix : List Char} (hne : suffix ≠ [])
    (hsuffix : ∀ c ∈ suffix.head?, c ≠ '.') (h : ∀ name ∈ directories ++ [file], IsName name)
    (hk : k ≤ directories.length) :
    absoluteChars (pathOf directories file) (List.replicate (k + 1) '.' ++ suffix) =
      joinWith ['.'] (directories.rdrop k ++ [suffix]) := by
  have hlevels : ((List.replicate (k + 1) '.' ++ suffix).takeWhile (· = '.')).length = k + 1 := by
    rw [takeWhile_dots hsuffix, List.length_replicate]
  have hdrop : (List.replicate (k + 1) '.' ++ suffix).drop (k + 1) = suffix :=
    List.drop_left' List.length_replicate
  rw [absoluteChars]
  dsimp only
  rw [hlevels, if_neg (Nat.succ_ne_zero k), hdrop, pathParts_pathOf h, List.dropLast_concat,
    Nat.add_sub_cancel, climb?, if_pos hk]
  dsimp only
  rw [if_neg hne, if_neg (List.append_ne_nil_of_right_ne_nil _ (List.cons_ne_nil _ _))]
  rfl

theorem isName_of_isWord (h : Syntax.IsWord module) : IsName (module ++ ".py".toList) where
  ne_nil := List.append_ne_nil_of_left_ne_nil h.ne_nil _
  slash := List.not_mem_append (h.not_mem (by decide +kernel)) (by decide)
  backslash := List.not_mem_append (h.not_mem (by decide +kernel)) (by decide)
  current heq := by
    have hletter : 'y' ∈ module ++ ".py".toList := List.mem_append_right _ (by decide)
    exact absurd (heq ▸ hletter) (by decide)
  parent heq := by
    have hletter : 'y' ∈ module ++ ".py".toList := List.mem_append_right _ (by decide)
    exact absurd (heq ▸ hletter) (by decide)

/-- What a relative import names in a module is named by the module itself in the same way. -/
theorem absoluteName_eq_toModuleName {imported : String} (hmodule : Syntax.IsWord module)
    (h : ∀ name ∈ directories ++ [file], IsName name) (hk : k ≤ directories.length) :
    absoluteName (String.ofList (pathOf directories file))
        (String.ofList (List.replicate (k + 1) '.') ++ String.ofList module ++ "." ++ imported) =
      toModuleName (String.ofList (pathOf (directories.rdrop k) (module ++ ".py".toList))) ++ "." ++
        imported := by
  have hdot : '.' ∉ module := (Syntax.not_mem_of_isWord hmodule).1
  have hleft : ∀ name ∈ directories.rdrop k ++ [module ++ ".py".toList], IsName name := by
    intro name hname
    rcases List.mem_append.1 hname with hin | hin
    · exact h name (List.mem_append_left _ (List.mem_of_mem_take hin))
    · exact List.mem_singleton.1 hin ▸ isName_of_isWord hmodule
  -- The import's names are the module's last name and what follows it.
  have hsuffix : ∀ c ∈ (module ++ '.' :: imported.toList).head?, c ≠ '.' := by
    obtain ⟨first, rest, rfl⟩ := List.exists_cons_of_ne_nil hmodule.ne_nil
    intro c hc heq
    obtain rfl : first = c := Option.some_inj.1 hc
    exact hdot (heq ▸ List.mem_cons_self)
  have himport :
      (String.ofList (List.replicate (k + 1) '.') ++ String.ofList module ++ "." ++ imported).toList =
        List.replicate (k + 1) '.' ++ (module ++ '.' :: imported.toList) := by
    simp only [String.toList_append, String.toList_ofList, List.append_assoc]
    rfl
  have habsolute :
      absoluteChars (pathOf directories file)
          (List.replicate (k + 1) '.' ++ (module ++ '.' :: imported.toList)) =
        joinWith ['.'] (directories.rdrop k ++ [module]) ++ '.' :: imported.toList := by
    rw [absoluteChars_pathOf (List.append_ne_nil_of_left_ne_nil hmodule.ne_nil _) hsuffix h hk,
      joinWith_append_last]
  have hown :
      modulePartsOf (components (pathOf (directories.rdrop k) (module ++ ".py".toList))) =
        directories.rdrop k ++ [module] :=
    modulePartsOf_pathOf hmodule.ne_nil hdot (by decide) hleft
  refine String.toList_inj.1 ?_
  rw [absoluteName, toModuleName, String.toList_ofList, himport, String.toList_ofList,
    String.toList_ofList, habsolute, hown, String.toList_append, String.toList_append,
    String.toList_ofList, List.append_assoc]
  rfl

/-- Two dots in `pkg/sub/mod.py` lead to `pkg/util.py`. -/
theorem absoluteName_eq_toModuleName_of_parent :
    Syntax.IsWord "util".toList ∧ (∀ name ∈ ["pkg".toList, "sub".toList] ++ ["mod.py".toList],
      IsName name) ∧ 1 ≤ ["pkg".toList, "sub".toList].length ∧
      absoluteName "pkg/sub/mod.py" "..util.x" = toModuleName "pkg/util.py" ++ "." ++ "x" := by
  have hmodule : Syntax.IsWord "util".toList := Syntax.isWord_of_all (by decide) (by decide +kernel)
  have hnames : ∀ name ∈ ["pkg".toList, "sub".toList] ++ ["mod.py".toList], IsName name := by
    decide
  have hk : 1 ≤ ["pkg".toList, "sub".toList].length := by decide
  have hagree : absoluteName _ (_ ++ "x") = _ := absoluteName_eq_toModuleName hmodule hnames hk
  have hfile : String.ofList (pathOf ["pkg".toList, "sub".toList] "mod.py".toList) =
      "pkg/sub/mod.py" := by decide +kernel
  have htarget : String.ofList (pathOf (["pkg".toList, "sub".toList].rdrop 1)
      ("util".toList ++ ".py".toList)) = "pkg/util.py" := by decide +kernel
  have himported : String.ofList (List.replicate (1 + 1) '.') ++ String.ofList "util".toList ++
      "." ++ "x" = "..util.x" := by decide +kernel
  rw [hfile, htarget, himported] at hagree
  exact ⟨hmodule, hnames, hk, hagree⟩

end SourceCorpus.Naming
