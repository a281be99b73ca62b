import Mathlib.Data.Finset.Card
import Mathlib.Data.Finset.Range
import Mathlib.Data.Finset.SDiff
import Mathlib.Order.WellFounded
import SourceCorpus.Graph.Resolution
import SourceCorpus.Proofs.Extraction.Hierarchy

/-!
Members that a class inherits, whatever the base lists look like. Main statement: if the parents of
every object end somewhere, the search for a member ends, finds something exactly if a class that is
reached through bases has the member, and finds what the first one has in the order of a depth-first
traversal.
-/

namespace SourceCorpus

namespace CodeModel

def IsParent (m : CodeModel) (p c : ObjectId) : Prop := (m.get? c).bind (·.parent) = some p

/-- No chain of parents goes on for ever. -/
def ParentsEnd (m : CodeModel) : Prop := WellFounded m.IsParent

inductive WalksOut (m : CodeModel) : Option ObjectId → List ObjectId → Prop where
  | outside : m.WalksOut none []
  | missing {id : ObjectId} (hnone : m.get? id = none) : m.WalksOut (some id) []
  | inClass {id : ObjectId} {o : CodeObject} {scopes : List ObjectId} (ho : m.get? id = some o)
      (hkind : o.kind = .class) (houter : m.WalksOut o.parent scopes) : m.WalksOut (some id) scopes
  | inScope {id : ObjectId} {o : CodeObject} {scopes : List ObjectId} (ho : m.get? id = some o)
      (hkind : o.kind ≠ .class) (houter : m.WalksOut o.parent scopes) :
      m.WalksOut (some id) (id :: scopes)

def classNamed? (m : CodeModel) (scopes : List ObjectId) (base : String) : Option ObjectId :=
  (m.resolvePath? scopes (stripSubscript base)).bind fun found =>
    if m.kindOf? found.id == some .class then some found.id else none

/-- The classes that stand for the bases of one, each looked up after a walk to the outermost
scope. -/
inductive NamesBases (m : CodeModel) (id : ObjectId) : List ObjectId → Prop where
  | noClass (hnone : (m.get? id).bind (·.classData?) = none) : m.NamesBases id []
  | ofClass {o : CodeObject} {data : ClassData} {outer : List ObjectId} (ho : m.get? id = some o)
      (hdata : o.classData? = some data)
      (houter : m.WalksOut ((m.get? (scopeOfStatement o)).bind (·.parent)) outer) :
      m.NamesBases id (data.bases.filterMap (m.classNamed? (scopeOfStatement o :: outer)))

/-- The search for a path in classes one after the other, with the visited classes before and after
it. A class is searched in its own body and then in its bases; it is left out if it was visited. -/
inductive Searches (m : CodeModel) (path : String) :
    List ObjectId → List ObjectId → Option Found → List ObjectId → Prop where
  | finish {visited : List ObjectId} : m.Searches path [] visited none visited
  | again {id : ObjectId} {ids visited visited' : List ObjectId} {r : Option Found}
      (hid : id ∈ visited) (hrest : m.Searches path ids visited r visited') :
      m.Searches path (id :: ids) visited r visited'
  | own {id : ObjectId} {ids visited : List ObjectId} {found : Found} (hid : id ∉ visited)
      (hown : m.resolvePath? [id] path = some found) :
      m.Searches path (id :: ids) visited (some found) (id :: visited)
  | inherited {id : ObjectId} {ids bases visited visited' : List ObjectId} {found : Found}
      (hid : id ∉ visited) (hown : m.resolvePath? [id] path = none) (hbases : m.NamesBases id bases)
      (hfound : m.Searches path bases (id :: visited) (some found) visited') :
      m.Searches path (id :: ids) visited (some found) visited'
  | lacking {id : ObjectId} {ids bases visited visited' visited'' : List ObjectId}
      {r : Option Found} (hid : id ∉ visited) (hown : m.resolvePath? [id] path = none)
      (hbases : m.NamesBases id bases)
      (hnone : m.Searches path bases (id :: visited) none visited')
      (hrest : m.Searches path ids visited' r visited'') :
      m.Searches path (id :: ids) visited r visited''

def countOutside (m : CodeModel) (ids : List ObjectId) : Nat :=
  (Finset.range m.size \ ids.toFinset).card

/-! ### Walks to the outermost scope -/

variable {m : CodeModel} {id : ObjectId} {o : CodeObject} {path : String}
  {ids visited visited' above bases : List ObjectId} {r : Option Found}

theorem lt_size_of_get? (ho : m.get? id = some o) : id < m.size :=
  (Array.getElem?_eq_some_iff.1 ho).1

theorem lt_size_of_mem_baseClasses {base : ObjectId} (h : base ∈ m.baseClasses id) :
    id < m.size := by
  rw [baseClasses] at h
  cases ho : m.get? id with
  | none => simp [ho] at h
  | some o => exact lt_size_of_get? ho

theorem countOutside_cons_lt (hid : id ∉ visited) (hlt : id < m.size) :
    m.countOutside (id :: visited) < m.countOutside visited := by
  refine Finset.card_lt_card (Finset.ssubset_iff_of_subset ?_ |>.2 ⟨id, ?_, ?_⟩)
  · exact Finset.sdiff_subset_sdiff (Finset.Subset.refl _) fun _ h => by simp_all
  · simp [hid, hlt]
  · simp

theorem countOutside_le_of_subset (h : visited ⊆ visited') :
    m.countOutside visited' ≤ m.countOutside visited :=
  Finset.card_le_card (Finset.sdiff_subset_sdiff (Finset.Subset.refl _)
    fun _ hid => List.mem_toFinset.2 (h (List.mem_toFinset.1 hid)))

/-- What the walk has passed is below the object where it stands, so it does not pass it again. -/
theorem walksOut_outerScopes_some (h : m.ParentsEnd) (id : ObjectId) (below : List ObjectId)
    (steps : Nat) (hbelow : ∀ c ∈ below, Relation.TransGen m.IsParent id c)
    (hsteps : m.countOutside below < steps) :
    m.WalksOut (some id) (m.outerScopes steps (some id)) := by
  induction id using h.induction generalizing below steps with
  | _ id ih =>
    obtain ⟨steps, rfl⟩ := Nat.exists_eq_succ_of_ne_zero (Nat.ne_zero_of_lt hsteps)
    cases ho : m.get? id with
    | none =>
      rw [outerScopes, ho]
      exact .missing ho
    | some o =>
      -- The object is not below itself, so that the steps left still cover the objects not yet met.
      have hnew : id ∉ below := fun hmem => h.transGen.irrefl.irrefl id (hbelow id hmem)
      have hleft := countOutside_cons_lt hnew (lt_size_of_get? ho)
      have houter : m.WalksOut o.parent (m.outerScopes steps o.parent) := by
        cases hparent : o.parent with
        | none =>
          cases steps with
          | zero => exact .outside
          | succ steps => exact .outside
        | some p =>
          have hp : m.IsParent p id := by rw [IsParent, ho, Option.bind_some, hparent]
          refine ih p hp (id :: below) steps (fun c hc => ?_) (by omega)
          rcases List.mem_cons.1 hc with rfl | hc
          · exact .single hp
          · exact .head hp (hbelow c hc)
      rw [outerScopes, ho]
      by_cases hkind : o.kind = .class
      · simp only [hkind, beq_self_eq_true, if_true]
        exact .inClass ho hkind houter
      · simp only [beq_eq_false_iff_ne.2 hkind, Bool.false_eq_true, if_false]
        exact .inScope ho hkind houter

theorem walksOut_outerScopes (h : m.ParentsEnd) (p : Option ObjectId) :
    m.WalksOut p (m.outerScopes (m.size + 1) p) := by
  cases p with
  | none => exact .outside
  | some id =>
    refine walksOut_outerScopes_some h id [] _ (fun c hc => nomatch hc) ?_
    simp [countOutside]

theorem WalksOut.unique {p : Option ObjectId} {scopes scopes' : List ObjectId}
    (h : m.WalksOut p scopes) (h' : m.WalksOut p scopes') : scopes = scopes' := by
  induction h generalizing scopes' with
  | outside =>
    cases h'
    rfl
  | missing hnone =>
    cases h' with
    | missing => rfl
    | inClass ho => cases hnone.symm.trans ho
    | inScope ho => cases hnone.symm.trans ho
  | inClass ho hkind _ ih =>
    cases h' with
    | missing hnone => cases hnone.symm.trans ho
    | inClass ho' _ houter' =>
      obtain rfl := Option.some.inj (ho.symm.trans ho')
      exact ih houter'
    | inScope ho' hkind' =>
      obtain rfl := Option.some.inj (ho.symm.trans ho')
      exact absurd hkind hkind'
  | inScope ho hkind _ ih =>
    cases h' with
    | missing hnone => cases hnone.symm.trans ho
    | inClass ho' hkind' =>
      obtain rfl := Option.some.inj (ho.symm.trans ho')
      exact absurd hkind' hkind
    | inScope ho' _ houter' =>
      obtain rfl := Option.some.inj (ho.symm.trans ho')
      rw [ih houter']

/-! ### Bases -/

theorem namesBases_baseClasses (h : m.ParentsEnd) (id : ObjectId) :
    m.NamesBases id (m.baseClasses id) := by
  rw [baseClasses]
  cases ho : m.get? id with
  | none => exact .noClass (by rw [ho, Option.bind_none])
  | some o =>
    cases hdata : o.classData? with
    | none =>
      simp only [Option.bind_some, hdata, Option.map_none]
      exact .noClass (by rw [ho, Option.bind_some, hdata])
    | some data =>
      simp only [Option.bind_some, hdata, Option.map_some]
      exact .ofClass ho hdata (walksOut_outerScopes h _)

theorem namesBases_iff (h : m.ParentsEnd) : m.NamesBases id bases ↔ bases = m.baseClasses id := by
  refine ⟨fun hbases => ?_, fun heq => heq ▸ namesBases_baseClasses h id⟩
  have hknown := namesBases_baseClasses h id
  revert hknown
  generalize m.baseClasses id = bases'
  intro hknown
  cases hbases with
  | noClass hnone =>
    cases hknown with
    | noClass => rfl
    | ofClass ho hdata => rw [ho, Option.bind_some, hdata] at hnone; cases hnone
  | ofClass ho hdata houter =>
    cases hknown with
    | noClass hnone => rw [ho, Option.bind_some, hdata] at hnone; cases hnone
    | ofClass ho' hdata' houter' =>
      obtain rfl := Option.some.inj (ho.symm.trans ho')
      obtain rfl := Option.some.inj (hdata.symm.trans hdata')
      rw [houter.unique houter']

def HasBase (m : CodeModel) (id base : ObjectId) : Prop := base ∈ m.baseClasses id

/-- The class and those above it in the order of a depth-first traversal, along all lines of bases
that come back to no class on them. -/
def lineage (m : CodeModel) (below : List ObjectId) (id : ObjectId) : List ObjectId :=
  if id ∈ below then [] else
    id :: (m.baseClasses id).attach.flatMap fun base => m.lineage (id :: below) base.1
termination_by m.countOutside below
decreasing_by exact countOutside_cons_lt ‹_› (lt_size_of_mem_baseClasses base.2)

theorem lineage_of_mem (h : id ∈ above) : m.lineage above id = [] := by
  rw [lineage, if_pos h]

theorem lineage_of_not_mem (h : id ∉ above) :
    m.lineage above id = id :: (m.baseClasses id).flatMap (m.lineage (id :: above)) := by
  rw [lineage, if_neg h, List.flatMap_subtype (fun base _ => rfl), List.unattach_attach]

/-- What holds of a class and is handed on to the bases of all classes outside `below` holds in the
whole lineage. -/
theorem forall_mem_lineage {P : ObjectId → Prop} (hid : P id)
    (hstep : ∀ d, P d → d ∉ above → ∀ b ∈ m.baseClasses d, P b) (below : List ObjectId)
    (hbelow : above ⊆ below) : ∀ d ∈ m.lineage below id, P d := by
  induction below, id using lineage.induct m with
  | case1 below id hmem => simp [lineage_of_mem hmem]
  | case2 below id hmem ih =>
    rw [lineage_of_not_mem hmem]
    intro d hd
    rcases List.mem_cons.1 hd with rfl | hd
    · exact hid
    · obtain ⟨base, hbase, hd⟩ := List.mem_flatMap.1 hd
      have hnew : id ∉ above := fun h => hmem (hbelow h)
      exact ih ⟨base, hbase⟩ (hstep id hid hnew base hbase)
        (List.subset_cons_of_subset _ hbelow) d hd

theorem reflTransGen_of_mem_lineage {c : ObjectId} (h : id ∈ m.lineage [] c) :
    Relation.ReflTransGen m.HasBase c id :=
  forall_mem_lineage (P := Relation.ReflTransGen m.HasBase c) .refl
    (fun _ hd _ _ hbase => hd.tail hbase) [] (List.Subset.refl []) id h

/-! ### The search -/

theorem Searches.subset (h : m.Searches path ids visited r visited') : visited ⊆ visited' := by
  induction h with
  | finish => exact List.Subset.refl _
  | again _ _ ih => exact ih
  | own => exact List.subset_cons_self _ _
  | inherited _ _ _ _ ih => exact List.Subset.trans (List.subset_cons_self _ _) ih
  | lacking _ _ _ _ _ ihbases ihrest =>
    exact List.Subset.trans (List.Subset.trans (List.subset_cons_self _ _) ihbases) ihrest

/-- No class that the search has left behind has the member, and it has visited their bases. -/
structure IsExhausted (m : CodeModel) (path : String) (above visited : List ObjectId) : Prop where
  subset : above ⊆ visited
  own : ∀ d ∈ visited, m.resolvePath? [d] path = none
  bases : ∀ d ∈ visited, d ∉ above → m.baseClasses d ⊆ visited

theorem IsExhausted.cons (h : m.IsExhausted path above visited)
    (hown : m.resolvePath? [id] path = none) :
    m.IsExhausted path (id :: above) (id :: visited) := by
  refine ⟨List.cons_subset_cons _ h.subset, fun d hd => ?_, fun d hd hnew => ?_⟩
  · rcases List.mem_cons.1 hd with rfl | hd
    · exact hown
    · exact h.own d hd
  · rw [List.mem_cons, not_or] at hnew
    rcases List.mem_cons.1 hd with rfl | hd
    · exact absurd rfl hnew.1
    · exact List.subset_cons_of_subset _ (h.bases d hd hnew.2)

theorem IsExhausted.of_cons (h : m.IsExhausted path (id :: above) visited)
    (hbases : m.baseClasses id ⊆ visited) : m.IsExhausted path above visited := by
  refine ⟨(List.cons_subset.1 h.subset).2, h.own, fun d hd hnew => ?_⟩
  by_cases heq : d = id
  · exact heq ▸ hbases
  · exact h.bases d hd (List.not_mem_cons_of_ne_of_not_mem heq hnew)

theorem IsExhausted.mem_of_reflTransGen {c d : ObjectId} (h : m.IsExhausted path [] visited)
    (hc : c ∈ visited) (hreach : Relation.ReflTransGen m.HasBase c d) : d ∈ visited := by
  induction hreach with
  | refl => exact hc
  | @tail d base _ hbase ih => exact h.bases d ih List.not_mem_nil hbase

/-- There is nothing to be found from a class that was visited before. -/
theorem IsExhausted.findSome?_lineage (h : m.IsExhausted path above visited) (hid : id ∈ visited) :
    (m.lineage above id).findSome? (m.resolvePath? [·] path) = none := by
  rw [List.findSome?_eq_none_iff]
  intro d hd
  exact h.own d (forall_mem_lineage hid (fun d hd hnew _ hbase => h.bases d hd hnew hbase) above
    (List.Subset.refl _) d hd)

/-- A search below classes without the member finds what is first in the lineages of the classes, and
if there is nothing, it leaves only such classes behind. -/
theorem Searches.spec (hparents : m.ParentsEnd) (h : m.Searches path ids visited r visited')
    (hvisited : m.IsExhausted path above visited) :
    r = (ids.flatMap (m.lineage above)).findSome? (m.resolvePath? [·] path) ∧
      (r = none → m.IsExhausted path above visited' ∧ ids ⊆ visited') := by
  induction h generalizing above with
  | finish => exact ⟨rfl, fun _ => ⟨hvisited, List.nil_subset _⟩⟩
  | again hid hrest ih =>
    -- The class was visited before, so that nothing is found in its lineage.
    obtain ⟨hr, hnone⟩ := ih hvisited
    refine ⟨?_, fun h => ⟨(hnone h).1, List.cons_subset.2 ⟨hrest.subset hid, (hnone h).2⟩⟩⟩
    rw [List.flatMap_cons, List.findSome?_append, hvisited.findSome?_lineage hid, Option.none_or, hr]
  | own hid hown =>
    have hnew := fun h => hid (hvisited.subset h)
    refine ⟨?_, fun h => nomatch h⟩
    rw [List.flatMap_cons, lineage_of_not_mem hnew, List.cons_append, List.findSome?_cons, hown]
  | @inherited id ids bases visited visited' found hid hown hbases _ ih =>
    have hnew := fun h => hid (hvisited.subset h)
    obtain rfl := (namesBases_iff hparents).1 hbases
    obtain ⟨hr, -⟩ := ih (hvisited.cons hown)
    refine ⟨?_, fun h => nomatch h⟩
    rw [List.flatMap_cons, lineage_of_not_mem hnew, List.cons_append, List.findSome?_cons, hown,
      List.findSome?_append, ← hr, Option.some_or]
  | @lacking id ids bases visited visited' visited'' r hid hown hbases _ hrest ihbases ihrest =>
    have hnew := fun h => hid (hvisited.subset h)
    obtain rfl := (namesBases_iff hparents).1 hbases
    obtain ⟨hr, hnone⟩ := ihbases (hvisited.cons hown)
    obtain ⟨hbelow, hsubset⟩ := hnone rfl
    obtain ⟨hr', hnone'⟩ := ihrest (hbelow.of_cons hsubset)
    refine ⟨?_, fun h => ⟨(hnone' h).1, List.cons_subset.2 ⟨hrest.subset ?_, (hnone' h).2⟩⟩⟩
    · rw [List.flatMap_cons, lineage_of_not_mem hnew, List.cons_append, List.findSome?_cons, hown,
        List.findSome?_append, ← hr, Option.none_or, hr']
    · exact hbelow.subset List.mem_cons_self

/-! ### The search by depth -/

theorem Searches.append_some {found : Found} (h : m.Searches path [id] visited (some found) visited') :
    m.Searches path (id :: ids) visited (some found) visited' := by
  cases h with
  | again _ hrest => cases hrest
  | own hid hown => exact .own hid hown
  | inherited hid hown hbases hfound => exact .inherited hid hown hbases hfound
  | lacking _ _ _ _ hrest => cases hrest

theorem Searches.append_none {visited'' : List ObjectId}
    (h : m.Searches path [id] visited none visited') (h' : m.Searches path ids visited' r visited'') :
    m.Searches path (id :: ids) visited r visited'' := by
  cases h with
  | again hid hrest =>
    cases hrest
    exact .again hid h'
  | lacking hid hown hbases hnone hrest =>
    cases hrest
    exact .lacking hid hown hbases hnone h'

theorem Searches.ofBases (hid : id ∉ visited) (hown : m.resolvePath? [id] path = none)
    (hbases : m.NamesBases id bases) (h : m.Searches path bases (id :: visited) r visited') :
    m.Searches path [id] visited r visited' := by
  cases r with
  | some found => exact .inherited hid hown hbases h
  | none => exact .lacking hid hown hbases h .finish

def searchBases (m : CodeModel) (path : String) (depth : Nat) (visited ids : List ObjectId) :
    Option Found × List ObjectId :=
  ids.foldl (fun state base =>
    if state.1.isSome then state else m.searchMember path depth state.2 base) (none, visited)

theorem searchBases_cons {depth : Nat} : m.searchBases path depth visited (id :: ids) =
    match m.searchMember path depth visited id with
    | (some found, visited) => (some found, visited)
    | (none, visited) => m.searchBases path depth visited ids := by
  rw [searchBases, List.foldl_cons]
  change List.foldl _ (m.searchMember path depth visited id) ids = _
  cases m.searchMember path depth visited id with
  | mk r visited' =>
    cases r with
    | none => rfl
    | some found =>
      refine List.foldlRecOn (motive := (· = (some found, visited'))) ids _ rfl ?_
      rintro _ rfl base -
      rfl

theorem searchMember_succ {depth : Nat} : m.searchMember path (depth + 1) visited id =
    if id ∈ visited then (none, visited)
    else match m.resolvePath? [id] path with
      | some found => (some found, id :: visited)
      | none => m.searchBases path depth (id :: visited) (m.baseClasses id) := by
  rw [searchMember]
  simp only [List.contains_iff_mem]
  rfl

theorem searches_searchBases {depth : Nat}
    (hdepth : ∀ visited id, m.countOutside visited < depth →
      m.Searches path [id] visited (m.searchMember path depth visited id).1
        (m.searchMember path depth visited id).2)
    (ids visited : List ObjectId) (hvisited : m.countOutside visited < depth) :
    m.Searches path ids visited (m.searchBases path depth visited ids).1
      (m.searchBases path depth visited ids).2 := by
  induction ids generalizing visited with
  | nil => exact .finish
  | cons id ids ih =>
    have hfirst := hdepth visited id hvisited
    rw [searchBases_cons]
    revert hfirst
    cases m.searchMember path depth visited id with
    | mk r visited' =>
      intro hfirst
      cases r with
      | some found => exact hfirst.append_some
      | none =>
        have hle := countOutside_le_of_subset (m := m) hfirst.subset
        exact hfirst.append_none (ih visited' (Nat.lt_of_le_of_lt hle hvisited))

/-- A depth of more than the number of objects that are not visited yet is never used up. -/
theorem searches_searchMember (hparents : m.ParentsEnd) (depth : Nat) (visited : List ObjectId)
    (id : ObjectId) (hdepth : m.countOutside visited < depth) :
    m.Searches path [id] visited (m.searchMember path depth visited id).1
      (m.searchMember path depth visited id).2 := by
  induction depth generalizing visited id with
  | zero => exact absurd hdepth (Nat.not_lt_zero _)
  | succ depth ih =>
    rw [searchMember_succ]
    by_cases hid : id ∈ visited
    · rw [if_pos hid]
      exact .again hid .finish
    rw [if_neg hid]
    cases hown : m.resolvePath? [id] path with
    | some found => exact .own hid hown
    | none =>
      refine .ofBases hid hown (namesBases_baseClasses hparents id) ?_
      by_cases hlt : id < m.size
      · have hleft := countOutside_cons_lt hid hlt
        exact searches_searchBases ih _ _ (by omega)
      · have hnil : m.baseClasses id = [] :=
          List.eq_nil_iff_forall_not_mem.2 fun base hbase => hlt (lt_size_of_mem_baseClasses hbase)
        rw [hnil]
        exact .finish

/-! ### Members -/

theorem isExhausted_nil : m.IsExhausted path [] [] :=
  ⟨List.Subset.refl _, fun _ hd => (nomatch hd), fun _ hd => nomatch hd⟩

/-- What a search finds is the first that the lineage has. -/
theorem Searches.eq_findSome? (h : m.ParentsEnd) (hsearch : m.Searches path [c] [] r visited) :
    r = (m.lineage [] c).findSome? (m.resolvePath? [·] path) := by
  rw [(hsearch.spec h isExhausted_nil).1, List.flatMap_singleton]

theorem searches_member? (h : m.ParentsEnd) (c : ObjectId) (path : String) :
    ∃ visited, m.Searches path [c] [] (m.member? c path) visited :=
  ⟨_, searches_searchMember h (m.size + 1) [] c (by simp [countOutside])⟩

/-- The search for a member ends and finds it, wherever in the bases it stands. -/
structure FindsMember (m : CodeModel) (c : ObjectId) (path : String) : Prop where
  /-- The bases are looked up in all scopes up to the outermost. -/
  bases : ∀ d bases, m.NamesBases d bases ↔ bases = m.baseClasses d
  ends : ∃ visited, m.Searches path [c] [] (m.member? c path) visited
  only : ∀ r visited, m.Searches path [c] [] r visited → r = m.member? c path
  complete : (m.member? c path).isSome ↔
    ∃ d, Relation.ReflTransGen m.HasBase c d ∧ (m.resolvePath? [d] path).isSome
  first : m.member? c path = (m.lineage [] c).findSome? (m.resolvePath? [·] path)

/-- Cycles and diamonds in the bases do no harm. -/
theorem findsMember (h : m.ParentsEnd) (c : ObjectId) (path : String) : m.FindsMember c path := by
  obtain ⟨visited, hends⟩ := searches_member? h c path
  have hfirst := hends.eq_findSome? h
  refine ⟨fun d bases => namesBases_iff h, ⟨visited, hends⟩, fun r visited hsearch => ?_, ⟨?_, ?_⟩,
    hfirst⟩
  · rw [hsearch.eq_findSome? h, hfirst]
  · rw [hfirst, List.findSome?_isSome_iff]
    rintro ⟨d, hd, hown⟩
    exact ⟨d, reflTransGen_of_mem_lineage hd, hown⟩
  · rintro ⟨d, hreach, hown⟩
    by_contra hnone
    obtain ⟨hexhausted, hc⟩ := (hends.spec h isExhausted_nil).2 (Option.not_isSome_iff_eq_none.1 hnone)
    rw [hexhausted.own d (hexhausted.mem_of_reflTransGen (hc List.mem_cons_self) hreach)] at hown
    cases hown

end CodeModel

namespace Extraction

theorem IsHierarchy.parentsEnd {m : CodeModel} (h : IsHierarchy m) : m.ParentsEnd := by
  refine Subrelation.wf (r := (· < ·)) (fun {p c} hparent => ?_) Nat.lt_wfRel.wf
  obtain ⟨o, ho, hp⟩ := Option.bind_eq_some_iff.1 hparent
  by_cases hc : c = CodeModel.moduleId
  · obtain ⟨root, hroot, -, hnone, -⟩ := h.root
    rw [hc, hroot, Option.some_inj] at ho
    rw [← ho, hnone] at hp
    cases hp
  · obtain ⟨p', _, hlt, hp', -⟩ := h.parent c o ho hc
    rw [hp', Option.some_inj] at hp
    exact hp ▸ hlt

/-- A class is its own base, others are bases of each other, and two share one. The member is that of
the last base. -/
theorem findsMember_of_cycles :
    let source := "class A(A, B, C):\n    pass\nclass B(D, A):\n    pass\n" ++
      "class C(D):\n    def f(self): pass\nclass D(B):\n    def g(self): pass\n"
    ∃ m, extract "t.py" source = .ok m ∧ m.ParentsEnd ∧ m.FindsMember 1 "f" ∧
      (List.range m.size).map m.baseClasses = [[], [1, 2, 3], [5, 1], [5], [], [2], []] ∧
      m.lineage [] 1 = [1, 2, 5, 3, 5, 2] ∧ m.member? 1 "f" = some ⟨4, false⟩ := by
  intro source
  let m := modelOf "t.py" source.toList (Syntax.parse source.toList)
  obtain ⟨hproblem, hbases, hlineage, hmember⟩ : (Syntax.parse source.toList).hasProblem = false ∧
      (List.range m.size).map m.baseClasses = [[], [1, 2, 3], [5, 1], [5], [], [2], []] ∧
      m.lineage [] 1 = [1, 2, 5, 3, 5, 2] ∧ m.member? 1 "f" = some ⟨4, false⟩ := by
    decide +kernel
  have hextract : extract "t.py" source = .ok m := extract_eq_ok_iff.2 ⟨hproblem, rfl⟩
  have hparents := (hierarchy_of_extract hextract).parentsEnd
  exact ⟨m, hextract, hparents, CodeModel.findsMember hparents 1 "f", hbases, hlineage, hmember⟩

end Extraction

end SourceCorpus
