import SourceCorpus.Proofs.Extraction.NameCharacters
import SourceCorpus.Proofs.Graph.PlainCalls

/-!
Classes and their own names. The bases of a class are looked up in the scope that the class is defined
in, where it may be found itself. Main statement: no class is marked as its own base, and a base with
the name of its class refers to what the name means besides the class, exactly if the class is not the
first definition of that name in its scope, and the first of its bases with its full name does not
lead back to it.
-/

namespace SourceCorpus

namespace CodeModel

def targetFound? (m : CodeModel) (id : ObjectId) (name : String) : Option (String × Bool) :=
  (m.get? id).map fun target =>
    if target.kind == .class then (target.qualifiedName, true) else (name, false)

/-- What the name of the class means where the class is defined, the class itself left out: the first
other definition, the innermost scope first, or something outside the file. -/
def targetBesides? (m : CodeModel) (id : ObjectId) (o : CodeObject) : Option (String × Bool) :=
  match ((m.scopeChain (scopeOfStatement o)).flatMap (m.members · o.name)).find? (· ≠ id) with
  | some other => m.targetFound? other o.name
  | none => some (m.externalName o.name, false)

/-- No class inherits from itself, its name among its bases notwithstanding. -/
structure InheritsFromOthers (m : CodeModel) : Prop where
  edges : ∀ e ∈ (Graph.ofModel m).edges, e.kind = .inherits → e.resolved = true →
    e.source ≠ e.target
  ownName : ∀ id o, m.get? id = some o → ∀ base ∈ basesOf o, stripSubscript base = o.name →
    m.baseTarget? (scopeOfStatement o) base = m.targetBesides? id o

def LeadsBack (m : CodeModel) (id : ObjectId) (o : CodeObject) (base : String) : Prop :=
  (m.resolveInFile? (scopeOfStatement o) (stripSubscript base)).map (·.id) = some id

instance (m : CodeModel) (id : ObjectId) (o : CodeObject) (base : String) :
    Decidable (m.LeadsBack id o base) := inferInstanceAs (Decidable (_ = _))

def firstBaseToItself? (m : CodeModel) (o : CodeObject) : Option String :=
  (basesOf o).find? fun base =>
    (m.baseTarget? (scopeOfStatement o) base).any (·.1 == o.qualifiedName)

/-- The class is not taken for what its bases mean. -/
structure IsPassedOver (m : CodeModel) (id : ObjectId) (o : CodeObject) : Prop where
  ownName : o.name ∈ (basesOf o).map stripSubscript →
    (m.members (scopeOfStatement o) o.name).head? ≠ some id
  /-- The first base with a target decides how the edge to the target is marked. -/
  first : ∀ base ∈ m.firstBaseToItself? o, ¬m.LeadsBack id o base

variable {m : CodeModel} {id : ObjectId} {o : CodeObject} {base file source : String} {r : Relation}

/-! ### The edge to itself -/

/-- A base whose target has the name of the class is found in the file if it leads back to the class.
-/
theorem resolved_iff_leadsBack (ho : m.get? id = some o) (hbase : base ∈ basesOf o)
    (hr : m.baseRelation? o base = some r) (htarget : r.target = o.qualifiedName) :
    r.resolved = true ↔ m.LeadsBack id o base := by
  unfold LeadsBack
  rcases m.baseRelation?_cases o base with ⟨hnone, hcases⟩ | ⟨found, hin, hkind, hcases⟩ |
    ⟨found, target, hin, hfound, -, hcases⟩
  · obtain rfl := Option.some.inj (hcases.symm.trans hr)
    rw [hnone]
    exact iff_of_false Bool.false_ne_true nofun
  · obtain rfl := Option.some.inj (hcases.symm.trans hr)
    rw [hin, Option.map_some, Option.some_inj]
    refine iff_of_false Bool.false_ne_true ?_
    rintro rfl
    rw [kindOf?, ho, Option.map_some, kind_eq_class_of_mem_basesOf hbase] at hkind
    exact hkind rfl
  · obtain rfl := Option.some.inj (hcases.symm.trans hr)
    rw [hin, Option.map_some, Option.some_inj]
    refine iff_of_true rfl ?_
    have hname := ObjectTable.idOf?_qualifiedName hfound
    rw [show target.qualifiedName = o.qualifiedName from htarget,
      ObjectTable.idOf?_qualifiedName ho, Option.some_inj] at hname
    exact hname.symm

theorem find?_relations_to_itself (ho : m.get? id = some o) :
    m.relations.find? (·.key == ⟨o.qualifiedName, o.qualifiedName, .inherits⟩) =
      (m.firstBaseToItself? o).bind (m.baseRelation? o) := by
  have hcalls : (o.calls.filterMap (m.callRelation? id o)).find?
      (·.key == ⟨o.qualifiedName, o.qualifiedName, .inherits⟩) = none := by
    apply Graph.find?_eq_none_of_kind
    intro r hr hkind
    obtain ⟨call, -, hr⟩ := List.mem_filterMap.1 hr
    have hcall := (spec_of_callRelation? hr).2.1
    rw [hkind] at hcall
    cases hcall
  have hfirst : (fun base => (m.baseRelation? o base).any
      (·.key == ⟨o.qualifiedName, o.qualifiedName, .inherits⟩)) = fun base =>
        (m.baseTarget? (scopeOfStatement o) base).any (·.1 == o.qualifiedName) := by
    funext base
    rw [baseRelation?, Option.any_map]
    congr 1
    funext target
    rw [Bool.eq_iff_iff]
    simp [Relation.key]
  rw [Graph.find?_relations_of_source ho rfl (by simp), objectRelations, List.find?_append, hcalls,
    Option.none_or, List.find?_filterMap, hfirst]
  rfl

/-- The edge of a class to itself is marked as found if the first base that leads to its name leads
back to it. -/
theorem exists_edge_to_itself_iff (ho : m.get? id = some o) :
    (∃ e ∈ (Graph.ofModel m).edges, e.key = ⟨o.qualifiedName, o.qualifiedName, .inherits⟩ ∧
      e.resolved = true) ↔ ∃ base ∈ m.firstBaseToItself? o, m.LeadsBack id o base := by
  have hrelation : ∀ base ∈ m.firstBaseToItself? o, ∃ r, m.baseRelation? o base = some r ∧
      (r.resolved = true ↔ m.LeadsBack id o base) := by
    intro base hbase
    have hmem := List.mem_of_find?_eq_some hbase
    have hleads := List.find?_some hbase
    obtain ⟨⟨target, resolved⟩, htarget, hname⟩ := (Option.any_eq_true _ _).1 hleads
    have hr : m.baseRelation? o base = some
        ⟨o.qualifiedName, target, .inherits, resolved, o.span.startLine⟩ := by
      rw [baseRelation?, htarget]
      rfl
    exact ⟨_, hr, resolved_iff_leadsBack ho hmem hr (eq_of_beq hname)⟩
  rw [Graph.exists_marked_edge_iff, find?_relations_to_itself ho]
  constructor
  · rintro ⟨first, hfirst, hresolved⟩
    obtain ⟨base, hbase, hr⟩ := Option.bind_eq_some_iff.1 hfirst
    obtain ⟨r, hr', hiff⟩ := hrelation base hbase
    obtain rfl := Option.some.inj (hr'.symm.trans hr)
    exact ⟨base, hbase, hiff.1 hresolved⟩
  · rintro ⟨base, hbase, hback⟩
    obtain ⟨r, hr, hiff⟩ := hrelation base hbase
    exact ⟨r, Option.bind_eq_some_iff.2 ⟨base, hbase, hr⟩, hiff.2 hback⟩

theorem edges_iff : (∀ e ∈ (Graph.ofModel m).edges, e.kind = .inherits → e.resolved = true →
      e.source ≠ e.target) ↔
    ∀ id o, m.get? id = some o → ∀ base ∈ m.firstBaseToItself? o, ¬m.LeadsBack id o base := by
  constructor
  · intro h id o ho base hbase hback
    obtain ⟨e, he, hkey, hresolved⟩ := (exists_edge_to_itself_iff ho).2 ⟨base, hbase, hback⟩
    obtain ⟨hsource, htarget, hkind⟩ := EdgeKey.mk.inj hkey
    exact h e he hkind hresolved (hsource.trans htarget.symm)
  · intro h e he hkind hresolved hsame
    obtain ⟨r, hr, hkey, -⟩ := (Graph.hasEdges_ofModel m).exists_relation he
    have hinherits : r.kind = .inherits := (congrArg EdgeKey.kind hkey).trans hkind
    rcases mem_relations_iff.1 hr with ⟨id, o, -, call, -, hcall⟩ | ⟨id, o, ho, base, hbase, hr'⟩ |
      ⟨i, -, target, -, rfl⟩
    · have hiscall := (spec_of_callRelation? hcall).2.1
      rw [hinherits] at hiscall
      cases hiscall
    · have hsource := (spec_of_baseRelation? ho hbase hr').1
      have hname : e.source = o.qualifiedName := (congrArg EdgeKey.source hkey).symm.trans hsource
      have hitself : e.key = ⟨o.qualifiedName, o.qualifiedName, .inherits⟩ := by
        rw [GraphEdge.key, ← hsame, hname, hkind]
      obtain ⟨base', hbase', hback⟩ :=
        (exists_edge_to_itself_iff ho).1 ⟨e, he, hitself, hresolved⟩
      exact h id o ho base' hbase' hback
    · cases hinherits

/-! ### Bases with the name of their class -/

theorem baseTarget?_of_found {scope : ObjectId} {found : Found}
    (h : m.resolveInFile? scope (stripSubscript base) = some found) :
    m.baseTarget? scope base = m.targetFound? found.id (stripSubscript base) := by
  obtain ⟨target, htarget⟩ := Option.isSome_iff_exists.1 (isObject_of_resolveInFile? h)
  rw [baseTarget?, resolve, h, targetFound?]
  simp only [kindOf?, htarget, Option.map_some]
  by_cases hclass : target.kind = .class
  · simp [hclass]
  · simp [hclass]

/-- Nothing besides an object has its name as a target that was found. -/
theorem targetFound?_ne {other : ObjectId} {name : String} (ho : m.get? id = some o)
    (hother : other ≠ id) : m.targetFound? other name ≠ some (o.qualifiedName, true) := by
  unfold targetFound?
  intro h
  obtain ⟨target, htarget, hsame⟩ := Option.map_eq_some_iff.1 h
  split at hsame
  next =>
    have hname := ObjectTable.idOf?_qualifiedName htarget
    rw [(Prod.mk.inj hsame).1, ObjectTable.idOf?_qualifiedName ho, Option.some_inj] at hname
    exact hother hname.symm
  next => cases (Prod.mk.inj hsame).2

/-! ### Bases that lead back -/

variable {found first : Found} {scopes : List ObjectId} {name path : String}

theorem splitString_of_memberPath? (h : memberPath? name = some path) :
    ∃ head, Text.splitString '.' name = head :: Text.splitString '.' path := by
  unfold memberPath? at h
  split at h
  · next rest hname =>
    obtain rfl := Option.some.inj h
    rw [Text.splitString, Text.splitString, hname, String.toList_ofList]
    exact ⟨"self", rfl⟩
  · next rest hname =>
    obtain rfl := Option.some.inj h
    rw [Text.splitString, Text.splitString, hname, String.toList_ofList]
    exact ⟨"cls", rfl⟩
  · cases h

theorem exists_members_of_follow? {head : String} {names : List String}
    (hfirst : ∃ scope, (m.members scope head).head? = some first.id)
    (h : m.follow? first names = some found) : ∃ scope last,
      (m.members scope last).head? = some found.id ∧ (head :: names).getLast? = some last := by
  induction names generalizing head first with
  | nil =>
    obtain rfl := Option.some.inj h
    exact hfirst.imp fun scope hscope => ⟨head, hscope, rfl⟩
  | cons name names ih =>
    rw [follow?] at h
    split at h
    next => cases h
    next i is hmembers =>
      have hnext : ∃ scope, (m.members scope name).head? = some i :=
        ⟨first.id, by rw [hmembers]; rfl⟩
      rw [List.getLast?_cons_cons]
      exact ih hnext h

/-- What a path leads to is the first definition of its last part in some scope. -/
theorem exists_members_of_resolvePath? (h : m.resolvePath? scopes path = some found) :
    ∃ scope last, (m.members scope last).head? = some found.id ∧
      (Text.splitString '.' path).getLast? = some last := by
  rw [resolvePath?] at h
  split at h
  next => cases h
  next head names hsplit =>
    obtain ⟨first, hfirst, hfollow⟩ := Option.bind_eq_some_iff.1 h
    rw [hsplit]
    apply exists_members_of_follow? _ hfollow
    obtain ⟨t, ht, rfl⟩ := Option.map_eq_some_iff.1 hfirst
    rw [List.head?_flatMap] at ht
    obtain ⟨scope, -, hscope⟩ := List.exists_of_findSome?_eq_some ht
    exact ⟨scope, hscope⟩

/-- What a name is found to be has it for its full name, or is the first definition of its last part in
some scope. -/
theorem exists_members_of_resolveInFile? (hparents : m.ParentsEnd)
    (h : m.resolveInFile? id name = some found) : m.byFullName? name = some found ∨
    ∃ scope last, (m.members scope last).head? = some found.id ∧
      (Text.splitString '.' name).getLast? = some last := by
  rw [resolveInFile?, Option.orElse_eq_orElse, Option.orElse_eq_or, Option.or_eq_some_iff] at h
  rcases h with h | ⟨-, h⟩
  · right
    split at h
    next path hpath =>
      obtain ⟨cls, -, h⟩ := Option.bind_eq_some_iff.1 h
      obtain ⟨_, hends⟩ := searches_member? hparents cls path
      rw [hends.eq_findSome? hparents] at h
      obtain ⟨c, -, hfound⟩ := List.exists_of_findSome?_eq_some h
      obtain ⟨scope, last, hscope, hlast⟩ := exists_members_of_resolvePath? hfound
      obtain ⟨head, hsplit⟩ := splitString_of_memberPath? hpath
      refine ⟨scope, last, hscope, ?_⟩
      rw [hsplit, List.getLast?_cons, hlast]
      rfl
    next => exact exists_members_of_resolvePath? h
  · exact .inl h

theorem qualifiedName_of_byFullName? (h : m.byFullName? name = some found)
    (ho : m.get? found.id = some o) : o.qualifiedName = name := by
  rw [byFullName?] at h
  split at h
  next i hid =>
    rw [Option.ite_none_left_eq_some] at h
    obtain rfl := Option.some.inj h.2
    obtain ⟨hlt, hname, -⟩ := Array.findIdx?_eq_some_iff_getElem.1 hid
    obtain rfl := Option.some.inj ((Array.getElem?_eq_getElem hlt).symm.trans ho)
    exact eq_of_beq hname
  next => cases h

theorem name_of_mem_members {scope : ObjectId} (h : id ∈ m.members scope name)
    (ho : m.get? id = some o) : o.name = name := by
  rw [members] at h
  split at h
  next =>
    have hname := (List.mem_filter.1 h).2
    rw [ho, Option.any_some] at hname
    exact eq_of_beq hname
  next => cases h

end CodeModel

namespace Extraction

open CodeModel Syntax

variable {m : CodeModel} {id : ObjectId} {o : CodeObject} {base file source : String}

theorem isWord_name_of_base (h : extract file source = .ok m) (ho : m.get? id = some o)
    (hbase : base ∈ basesOf o) : IsWord o.name.toList := by
  apply isWord_name h (mem_toList_iff.2 ⟨id, ho⟩)
  rw [kind_eq_class_of_mem_basesOf hbase]
  exact nofun

theorem baseTarget?_eq_targetBesides?_iff (h : extract file source = .ok m)
    (ho : m.get? id = some o) (hbase : base ∈ basesOf o) (hname : stripSubscript base = o.name) :
    m.baseTarget? (scopeOfStatement o) base = m.targetBesides? id o ↔
      (m.members (scopeOfStatement o) o.name).head? ≠ some id := by
  have hclass := kind_eq_class_of_mem_basesOf hbase
  have hhierarchy := hierarchy_of_extract h
  have hid : id ≠ moduleId := by
    rintro rfl
    obtain ⟨root, hroot, hmodule, -⟩ := hhierarchy.root
    rw [ho, Option.some_inj] at hroot
    rw [← hroot, hclass] at hmodule
    cases hmodule
  obtain ⟨p, owner, -, hparent, howner, -⟩ := hhierarchy.parent id o ho hid
  have hscope : scopeOfStatement o = p := by rw [scopeOfStatement, hparent, Option.getD_some]
  have hmember := mem_members_scopeOfStatement h ho hid
  rw [hscope] at hmember ⊢
  -- The scope of the class defines its name, so nothing further out is found.
  obtain ⟨t, ts, hmembers⟩ := List.exists_cons_of_ne_nil (List.ne_nil_of_mem hmember)
  have hfound : m.resolveInFile? p (stripSubscript base) =
      some ⟨t, m.areClasses ((m.scopeChain p).flatMap (m.members · o.name))⟩ := by
    rw [hname, resolveInFile?_eq_lookup? h howner (isWord_name_of_base h ho hbase), scopeChain]
    exact lookup?_of_innermost (List.nil_append _).symm (fun _ hs => absurd hs List.not_mem_nil) hmembers
  rw [baseTarget?_of_found hfound, hname, hmembers, List.head?_cons, ne_eq, Option.some_inj,
    targetBesides?, hscope, scopeChain, List.flatMap_cons, hmembers, List.cons_append]
  by_cases ht : t = id
  · subst ht
    have hitself : m.targetFound? t o.name = some (o.qualifiedName, true) := by
      rw [targetFound?, ho, Option.map_some, hclass]
      rfl
    rw [hitself]
    refine iff_of_false (fun heq => ?_) (not_not_intro rfl)
    split at heq
    next other hother =>
      have hne : other ≠ t := by simpa using List.find?_some hother
      exact targetFound?_ne ho hne heq.symm
    next => cases (Prod.mk.inj (Option.some.inj heq)).2
  · rw [List.find?_cons_of_pos (by simpa using ht)]
    exact iff_of_true rfl ht

/-- A base leads back to its class only under the full name of the class, or under a name that ends in
that of the class, if the class is the first definition of its name in its scope. -/
theorem leadsBack_cases (h : extract file source = .ok m) (ho : m.get? id = some o)
    (hback : m.LeadsBack id o base) : stripSubscript base = o.qualifiedName ∨
      (m.members (scopeOfStatement o) o.name).head? = some id ∧
        (Text.splitString '.' (stripSubscript base)).getLast? = some o.name := by
  obtain ⟨found, hfound, rfl⟩ := Option.map_eq_some_iff.1 hback
  rcases exists_members_of_resolveInFile? (hierarchy_of_extract h).parentsEnd hfound with
    hfull | ⟨scope, last, hscope, hlast⟩
  · exact .inl (qualifiedName_of_byFullName? hfull ho).symm
  · have hmember := List.mem_of_head? hscope
    obtain rfl := name_of_mem_members hmember ho
    rw [scopeOfStatement, parent_of_mem_members h hmember ho, Option.getD_some]
    exact .inr ⟨hscope, hlast⟩

/-- A class whose bases have other names, or that another definition of its name comes before, is not
taken for what its bases mean. -/
theorem isPassedOver_of_names (h : extract file source = .ok m) (ho : m.get? id = some o)
    (hfull : ∀ base ∈ basesOf o, stripSubscript base ≠ o.qualifiedName)
    (hlast : (m.members (scopeOfStatement o) o.name).head? = some id → ∀ base ∈ basesOf o,
      (Text.splitString '.' (stripSubscript base)).getLast? ≠ some o.name) : m.IsPassedOver id o := by
  constructor
  · intro hmem hfirst
    obtain ⟨base, hbase, hname⟩ := List.mem_map.1 hmem
    have hdot := (Syntax.not_mem_of_isWord (isWord_name_of_base h ho hbase)).1
    apply hlast hfirst base hbase
    rw [hname, splitString_of_not_mem hdot, List.getLast?_singleton]
  · intro base hbase hback
    have hmem := List.mem_of_find?_eq_some hbase
    rcases leadsBack_cases h ho hback with hname | ⟨hfirst, hname⟩
    · exact hfull base hmem hname
    · exact hlast hfirst base hmem hname

/-- No class inherits from itself, and its name among its bases stands for something else, exactly if
no class is taken for what its bases mean. -/
theorem inheritsFromOthers_iff (h : extract file source = .ok m) :
    m.InheritsFromOthers ↔ ∀ id o, m.get? id = some o → m.IsPassedOver id o := by
  constructor
  · rintro ⟨hedges, hown⟩ id o ho
    refine ⟨fun hmem => ?_, edges_iff.1 hedges id o ho⟩
    obtain ⟨base, hbase, hname⟩ := List.mem_map.1 hmem
    exact (baseTarget?_eq_targetBesides?_iff h ho hbase hname).1 (hown id o ho base hbase hname)
  · intro hpassed
    refine ⟨edges_iff.2 fun id o ho => (hpassed id o ho).first, fun id o ho base hbase hname => ?_⟩
    rw [baseTarget?_eq_targetBesides?_iff h ho hbase hname]
    exact (hpassed id o ho).ownName (hname ▸ List.mem_map_of_mem hbase)

/-- The second definition of a class has the first for its base. -/
theorem inheritsFromOthers_of_earlier_definition :
    let source := "class A:\n    pass\nclass A(A):\n    pass\n"
    ∃ m, extract "t.py" source = .ok m ∧ m.InheritsFromOthers ∧
      (Graph.ofModel m).edge? "A#2" "A" .inherits = some ⟨"A#2", "A", .inherits, true, 1, 3⟩ := by
  intro source
  let m := modelOf "t.py" source.toList (parse source.toList)
  have hextract : extract "t.py" source = .ok m := extract_eq_ok_iff.2 ⟨by decide +kernel, rfl⟩
  have hpassed : ∀ entry ∈ m.entries,
      (entry.2.name ∈ (basesOf entry.2).map stripSubscript →
        (m.members (scopeOfStatement entry.2) entry.2.name).head? ≠ some entry.1) ∧
      ∀ base ∈ m.firstBaseToItself? entry.2, ¬m.LeadsBack entry.1 entry.2 base := by decide +kernel
  refine ⟨m, hextract, (inheritsFromOthers_iff hextract).2 fun id o ho => ?_, by decide +kernel⟩
  obtain ⟨hown, hfirst⟩ := hpassed (id, o) (mem_entries_iff.2 ho)
  exact ⟨hown, hfirst⟩

/-- A class that is made from an imported one of its name is taken for its own base. -/
theorem not_inheritsFromOthers_of_imported_base :
    let source := "from base import A\nclass A(A):\n    pass\n"
    ∃ m o, extract "t.py" source = .ok m ∧ m.get? 1 = some o ∧ basesOf o = ["A"] ∧
      (Graph.ofModel m).edge? "A" "A" .inherits = some ⟨"A", "A", .inherits, true, 1, 2⟩ ∧
      m.targetBesides? 1 o = some ("base.A", false) ∧ ¬m.InheritsFromOthers := by
  intro source
  let m := modelOf "t.py" source.toList (parse source.toList)
  have hextract : extract "t.py" source = .ok m := extract_eq_ok_iff.2 ⟨by decide +kernel, rfl⟩
  obtain ⟨o, ho, hfacts⟩ := Option.map_eq_some_iff.1 (show (m.get? 1).map
    (fun o => (basesOf o, m.targetBesides? 1 o)) = some (["A"], some ("base.A", false)) by
      decide +kernel)
  obtain ⟨hbases, htarget⟩ := Prod.mk.inj hfacts
  have hedge : (Graph.ofModel m).edge? "A" "A" .inherits =
      some ⟨"A", "A", .inherits, true, 1, 2⟩ := by decide +kernel
  refine ⟨m, o, hextract, ho, hbases, hedge, htarget, fun hothers => ?_⟩
  obtain ⟨hmem, -⟩ := (Graph.hasEdges_ofModel m).indexed.edge?_eq_some_iff.1 hedge
  exact hothers.edges _ hmem rfl rfl rfl

end Extraction

end SourceCorpus
