import Mathlib.Algebra.Ring.Nat
import SourceCorpus.Graph.Build
import SourceCorpus.Proofs.Extraction.Calls
import SourceCorpus.Proofs.Syntax.Spelling.Statements

/-!
The names of callees and bases. Main statement: calls and bases are recorded under the identifiers
of their names, however these are laid out, exactly if the layout inside the names is made of blanks.
-/

namespace SourceCorpus.Extraction

open Syntax Tree

/-- What a tree names: the identifiers of a dotted name, and otherwise the text without blanks. -/
def nameOf (source : List Char) (t : Tree) : String :=
  match t.identifiers? with
  | some names => String.ofList (dotted source names)
  | none => compactText source t

def namedSite? (source : List Char) (call : Tree) : Option CallSite :=
  (callSite? source call).map fun site =>
    { site with callee := ((call.child? .function).map (nameOf source)).getD site.callee }

def baseTrees (owner : Tree) : List Tree :=
  if owner.isKind .classDefinition then
    match owner.child? .superclasses with
    | some arguments =>
      (withoutComments arguments.children).filter fun t => t.isKind .keywordArgument == false
    | none => []
  else []

/-- The object records the calls and the bases of its owner under their names. -/
structure IsNamed (source : List Char) (owner : Tree) (o : CodeObject) : Prop where
  calls : (o.calls.map some).Perm ((ownCalls isRecorded owner).map (namedSite? source))
  bases : CodeModel.basesOf o = (baseTrees owner).map (nameOf source)

def RecordsNames (source : List Char) (tree : Tree) (m : CodeModel) : Prop :=
  List.Forall₂ (IsNamed source) (owners tree) m.objects.toList

instance (source : List Char) (owner : Tree) (o : CodeObject) :
    Decidable (IsNamed source owner o) :=
  decidable_of_iff ((o.calls.map some).Perm ((ownCalls isRecorded owner).map (namedSite? source)) ∧
      CodeModel.basesOf o = (baseTrees owner).map (nameOf source))
    ⟨fun h => ⟨h.1, h.2⟩, fun h => ⟨h.calls, h.bases⟩⟩

instance (source : List Char) (tree : Tree) (m : CodeModel) :
    Decidable (RecordsNames source tree m) :=
  decidable_of_iff ((owners tree).length = m.objects.toList.length ∧
      ∀ pair ∈ (owners tree).zip m.objects.toList, IsNamed source pair.1 pair.2)
    (by
      rw [RecordsNames, List.forall₂_iff_zip]
      exact and_congr_right fun _ => ⟨fun h _ _ => h _, fun h pair => h⟩)

def namedTrees (owner : Tree) : List Tree :=
  (ownCalls isRecorded owner).filterMap (·.child? .function) ++ baseTrees owner

/-- Nothing but a dot and blanks stands between the identifiers of a dotted name. -/
def HasBlankGaps (source : List Char) (t : Tree) : Prop :=
  ∀ names ∈ t.identifiers?, IsSpaced source names

instance (source : List Char) (t : Tree) : Decidable (HasBlankGaps source t) :=
  inferInstanceAs (Decidable (∀ names ∈ t.identifiers?, IsSpaced source names))

variable {source : List Char} {tree owner t c : Tree}

/-! ### Calls and bases in a tree -/

theorem mem_preorder_of_mem_callsVia {pass : Pass} (hc : c ∈ callsVia pass t) :
    c ∈ t.preorder := by
  induction t using Tree.induction with
  | node kind role extent children ih =>
    rw [callsVia_node] at hc
    rcases List.mem_append.1 hc with hself | hpart
    · split at hself
      · rw [List.mem_singleton] at hself
        rw [hself]
        exact self_mem_preorder _
      · cases hself
    · obtain ⟨a, ha, hca⟩ := List.mem_flatMap.1 hpart
      rw [partCalls] at hca
      split at hca
      · exact mem_preorder_of_mem_children (t := .node kind role extent children) ha (ih a ha hca)
      · cases hca
  | error => cases hc
  | missing => cases hc

theorem mem_preorder_of_mem_ownCalls {pass : Pass} (hc : c ∈ ownCalls pass owner) :
    c ∈ owner.preorder := by
  obtain ⟨region, hregion, hc⟩ := List.mem_flatMap.1 hc
  have hcalls := mem_preorder_of_mem_callsVia hc
  rw [regionOf] at hregion
  split at hregion
  · exact mem_preorder_of_mem_children (List.mem_filter.1 hregion).1 hcalls
  · rwa [List.mem_singleton.1 hregion] at hcalls

theorem mem_preorder_of_mem_baseTrees (h : t ∈ baseTrees owner) : t ∈ owner.preorder := by
  rw [baseTrees] at h
  split at h
  · split at h
    next arguments harguments =>
      have ht : t ∈ arguments.children := (List.mem_filter.1 (List.mem_filter.1 h).1).1
      refine mem_preorder_of_mem_children (List.mem_of_find?_eq_some harguments) ?_
      exact mem_preorder_of_mem_children ht (self_mem_preorder t)
    next => cases h
  · cases h

/-! ### Texts and names -/

theorem length_nameOf_le (h : IsSpelled source t) :
    (nameOf source t).length ≤ (compactText source t).length := by
  rw [nameOf]
  split
  next names hnames =>
    rw [compactText, String.length_ofList, String.length_ofList]
    exact (h.isWritten hnames).length_le
  next => exact Nat.le_refl _

/-- The name is the text without blanks if it is as long, and exactly if the gaps are blank. -/
theorem compactText_eq_nameOf_iff (h : IsSpelled source t) :
    compactText source t = nameOf source t ↔ HasBlankGaps source t := by
  rw [nameOf, HasBlankGaps]
  split
  next names hnames =>
    rw [hnames, compactText, String.ofList_inj, h.compactChars_eq_iff hnames]
    exact ⟨fun hspaced _ hmem => Option.some.inj hmem ▸ hspaced, fun hall => hall names rfl⟩
  next hnames =>
    rw [hnames]
    exact iff_of_true rfl nofun

theorem compactText_eq_nameOf_of_length_le (h : IsSpelled source t)
    (hlength : (compactText source t).length ≤ (nameOf source t).length) :
    compactText source t = nameOf source t := by
  rw [compactText_eq_nameOf_iff h]
  intro names hnames
  rw [Option.mem_def] at hnames
  rw [nameOf, hnames, compactText, String.length_ofList, String.length_ofList] at hlength
  exact (h.isWritten hnames).isSpaced hlength

theorem namedSite?_eq_iff {call : Tree} :
    callSite? source call = namedSite? source call ↔
      ∀ function, call.child? .function = some function →
        compactText source function = nameOf source function := by
  rw [namedSite?, callSite?]
  cases call.child? .function with
  | none => simp
  | some function => simp [CallSite.mk.injEq]

def siteLength (site : Option CallSite) : Nat := (site.map (·.callee.length)).getD 0

theorem eq_of_sum_le {α : Type} {f g : α → Nat} {l : List α} (hle : ∀ a ∈ l, g a ≤ f a)
    (hsum : (l.map f).sum ≤ (l.map g).sum) :
    (∀ a ∈ l, f a ≤ g a) ∧ (l.map g).sum ≤ (l.map f).sum := by
  induction l with
  | nil => exact ⟨List.forall_mem_nil _, Nat.le_refl _⟩
  | cons a l ih =>
    rw [List.forall_mem_cons] at hle ⊢
    simp only [List.map_cons, List.sum_cons] at hsum ⊢
    obtain ⟨hall, hrest⟩ := ih hle.2 (by omega)
    exact ⟨⟨by omega, hall⟩, by omega⟩

theorem IsSpelled.function {call function : Tree} (h : IsSpelled source call)
    (hfunction : call.child? .function = some function) : IsSpelled source function :=
  h.of_mem_preorder (mem_preorder_of_mem_children (List.mem_of_find?_eq_some hfunction)
    (self_mem_preorder function))

/-- The sites have the names of their functions, in whatever order, if each has. -/
theorem perm_namedSite?_iff {calls : List Tree} (h : ∀ call ∈ calls, IsSpelled source call) :
    (calls.map (callSite? source)).Perm (calls.map (namedSite? source)) ↔
      ∀ call ∈ calls, callSite? source call = namedSite? source call := by
  refine ⟨fun hperm => ?_, fun hall => .of_eq (List.map_congr_left hall)⟩
  -- Names are not longer than texts, so if all together are as long, each is as long as its text.
  have hlength : ∀ call ∈ calls,
      siteLength (namedSite? source call) ≤ siteLength (callSite? source call) := by
    intro call hcall
    rw [namedSite?, callSite?]
    cases hfunction : call.child? .function with
    | none => exact Nat.le_refl _
    | some function => exact length_nameOf_le (IsSpelled.function (h call hcall) hfunction)
  have hsum := (hperm.map siteLength).sum_nat
  rw [List.map_map, List.map_map] at hsum
  intro call hcall
  rw [namedSite?_eq_iff]
  intro function hfunction
  refine compactText_eq_nameOf_of_length_le (IsSpelled.function (h call hcall) hfunction) ?_
  have hle := (eq_of_sum_le hlength (Nat.le_of_eq hsum)).1 call hcall
  simpa [siteLength, namedSite?, callSite?, hfunction] using hle

/-- What is recorded for an owner are the names if the gaps in them are blank. -/
theorem isNamed_iff {o : CodeObject} (h : IsSpelled source owner)
    (hcalls : AreSitesOf source o.calls (ownCalls isRecorded owner))
    (hbases : CodeModel.basesOf o = (baseTrees owner).map (compactText source)) :
    IsNamed source owner o ↔ ∀ t ∈ namedTrees owner, HasBlankGaps source t := by
  have hspelled {t : Tree} (ht : t ∈ owner.preorder) : IsSpelled source t := h.of_mem_preorder ht
  have hcall : ∀ call ∈ ownCalls isRecorded owner, IsSpelled source call := fun call hcall =>
    hspelled (mem_preorder_of_mem_ownCalls hcall)
  -- What is recorded are the texts, so the question is which of them are names.
  have hnames : (o.calls.map some).Perm ((ownCalls isRecorded owner).map (namedSite? source)) ↔
      ∀ t ∈ (ownCalls isRecorded owner).filterMap (·.child? .function), HasBlankGaps source t := by
    rw [List.Perm.congr_left hcalls, perm_namedSite?_iff hcall]
    constructor
    · intro hall t ht
      obtain ⟨call, hmem, hfunction⟩ := List.mem_filterMap.1 ht
      have hspelled := IsSpelled.function (hcall call hmem) hfunction
      exact (compactText_eq_nameOf_iff hspelled).1 (namedSite?_eq_iff.1 (hall call hmem) t hfunction)
    · intro hall call hmem
      refine namedSite?_eq_iff.2 fun function hfunction => ?_
      have hspelled := IsSpelled.function (hcall call hmem) hfunction
      exact (compactText_eq_nameOf_iff hspelled).2
        (hall function (List.mem_filterMap.2 ⟨call, hmem, hfunction⟩))
  have hsame : CodeModel.basesOf o = (baseTrees owner).map (nameOf source) ↔
      ∀ t ∈ baseTrees owner, HasBlankGaps source t := by
    rw [hbases, List.map_inj_left]
    refine forall₂_congr fun t ht => compactText_eq_nameOf_iff (hspelled ?_)
    exact mem_preorder_of_mem_baseTrees ht
  rw [namedTrees, List.forall_mem_append, ← hnames, ← hsame]
  exact ⟨fun hnamed => ⟨hnamed.calls, hnamed.bases⟩, fun hall => ⟨hall.1, hall.2⟩⟩

/-- Bases are recorded in the order of the class statement, as their text without blanks. -/
theorem basesOf_modelOf (file : String) (h : IsStatement tree) (hmodule : tree.isKind .module) :
    List.Forall₂ (fun owner o =>
        CodeModel.basesOf o = (baseTrees owner).map (compactText source)) (owners tree)
      (modelOf file source tree).objects.toList := by
  have hclass {owner : Tree} (hkind : owner.isKind .classDefinition = false) :
      baseTrees owner = [] := by
    rw [baseTrees, hkind, if_neg Bool.false_ne_true]
  refine forall₂_owners_modelOf file h hmodule (fun _ _ _ ho => ho) ?_ fun entry d o _ hentry ho => ?_
  · rw [hclass]
    · rfl
    · rw [isKind, beq_iff_eq] at hmodule
      rw [isKind, hmodule]
      decide
  · have hpayload : o.payload = payloadOf entry.1 entry.2 := ho.payload
    rw [CodeModel.basesOf, CodeObject.classData?, hpayload, payloadOf]
    cases hkind : d.isKind .classDefinition with
    | true =>
      rw [hentry.isClass.2 hkind, baseTrees, if_pos hkind]
      change entry.1.bases = _
      rw [hentry.bases, classArguments]
      cases d.child? .superclasses <;> rfl
    | false =>
      rw [hclass hkind]
      have hnot : entry.1.kind ≠ .class := fun hclass => by
        rw [hentry.isClass.1 hclass] at hkind
        cases hkind
      cases hentryKind : entry.1.kind
      case «class» => exact absurd hentryKind hnot
      all_goals rfl

/-- Calls and bases are recorded under their names exactly if there are only blanks and a dot between
the identifiers of a callee or a base. -/
theorem recordsNames_iff {file source : String} {m : CodeModel}
    (h : extract file source = .ok m) :
    RecordsNames source.toList (parse source.toList) m ↔
      ∀ owner ∈ owners (parse source.toList), ∀ t ∈ namedTrees owner,
        HasBlankGaps source.toList t := by
  let tree := parse source.toList
  obtain ⟨hproblem, hm⟩ := extract_eq_ok_iff.1 h
  obtain ⟨hstatement, hmodule⟩ := isStatement_parse hproblem
  have hspelled : IsSpelled source.toList tree := isSpelled_parse hproblem
  subst hm
  have hcalls : RecordsCalls isRecorded source.toList tree
      (modelOf file source.toList tree).objects.toList :=
    recordsCalls_modelOf file hstatement hmodule
  have hrecorded : List.Forall₂ _ (owners tree) (modelOf file source.toList tree).objects.toList :=
    .mp (fun _ _ ho hbases => And.intro ho.2 hbases) hcalls
      (basesOf_modelOf file hstatement hmodule)
  refine forall₂_congr_left hrecorded fun owner howner o ho => isNamed_iff ?_ ho.1 ho.2
  exact hspelled.of_mem_preorder (mem_preorder_of_mem_owners howner)

/-- Blanks and line breaks in brackets leave the names as they are. -/
theorem recordsNames_of_blank_layout :
    let source := "f(a . b\n  .c(x))\nclass C(p .\n q, r):\n    pass\n"
    ∃ m, extract "t.py" source = .ok m ∧
      RecordsNames source.toList (parse source.toList) m ∧
      m.objects.toList.map (fun o => (o.calls.map (·.callee), CodeModel.basesOf o)) =
        [(["f", "a.b.c"], []), ([], ["p.q", "r"])] := by
  intro source
  have hextract : extract "t.py" source =
      .ok (modelOf "t.py" source.toList (parse source.toList)) :=
    extract_eq_ok_iff.2 ⟨by decide +kernel, rfl⟩
  exact ⟨_, hextract, (recordsNames_iff hextract).2 (by decide +kernel), by decide +kernel⟩

/-- The backslash of a joined line stays in the name, which is another one than on a single line. -/
theorem not_recordsNames_of_joined_line :
    let source := "a.\\\nb(x)\n"
    ∃ m m', extract "t.py" source = .ok m ∧ extract "t.py" "a.b(x)\n" = .ok m' ∧
      ¬RecordsNames source.toList (parse source.toList) m ∧
      m.objects.toList.map (fun o => o.calls.map (·.callee)) = [["a.\\b"]] ∧
      m'.objects.toList.map (fun o => o.calls.map (·.callee)) = [["a.b"]] := by
  intro source
  have hextract {source : String} (hproblem : (parse source.toList).hasProblem = false) :
      extract "t.py" source = .ok (modelOf "t.py" source.toList (parse source.toList)) :=
    extract_eq_ok_iff.2 ⟨hproblem, rfl⟩
  refine ⟨_, _, hextract (by decide +kernel), hextract (by decide +kernel), ?_⟩
  decide +kernel

end SourceCorpus.Extraction
