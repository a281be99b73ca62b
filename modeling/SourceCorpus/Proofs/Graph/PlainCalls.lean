import SourceCorpus.Proofs.Extraction.QualifiedNames
import SourceCorpus.Proofs.Graph.ForeignNames
import SourceCorpus.Proofs.Graph.Inheritance
import SourceCorpus.Proofs.Syntax.Spelling.Places

/-!
Calls of plain names. Main statement: such a call refers to the first definition of the name in the
innermost scope that has one, and in the graph it goes there, or to an external node if there is none,
exactly if no import brings in the name of an object.
-/

namespace SourceCorpus

open Syntax

namespace CodeModel

/-- The kind of a call of the name: it makes an instance if the scopes define nothing but classes under
the name. -/
def callKind (m : CodeModel) (scopes : List ObjectId) (name : String) : EdgeKind :=
  if ∀ scope ∈ scopes, ∀ id ∈ m.members scope name, m.kindOf? id = some .class then .instantiates
  else .calls

/-- The relationship is what the definitions in the scopes make of a call in the object. -/
structure RefersInScopes (m : CodeModel) (id : ObjectId) (o : CodeObject) (call : CallSite)
    (scopes : List ObjectId) (r : Relation) : Prop where
  /-- The scopes are the object and what is around it without the classes. -/
  walk : ∃ outer, m.WalksOut o.parent outer ∧ scopes = id :: outer
  outermost : scopes.getLast? = some moduleId
  inside : ∀ before scope after t ts target, scopes = before ++ scope :: after →
    (∀ inner ∈ before, m.members inner call.callee = []) →
    m.members scope call.callee = t :: ts → m.get? t = some target →
    r = ⟨o.qualifiedName, target.qualifiedName, m.callKind scopes call.callee, true, call.line⟩
  outside : (∀ scope ∈ scopes, m.members scope call.callee = []) →
    r = ⟨o.qualifiedName, m.externalName call.callee, .calls, false, call.line⟩
  /-- From inside a function, nothing is found that a class lists. -/
  nonmember : o.kind ≠ .class → ∀ found target, m.resolveInFile? id call.callee = some found →
    m.get? found.id = some target → target.parent.bind m.kindOf? ≠ some .class
  /-- Where the scopes have no definition, there is no object with the name for its whole name. -/
  fallback : m.resolvePath? scopes call.callee = none → m.byFullName? call.callee = none

end CodeModel

/-- The edge of the relationship tells whether its target was found in the file, and what was not found
is an external node. -/
structure Graph.Shows (g : Graph) (r : Relation) : Prop where
  edge : ∃ e, g.edge? r.source r.target r.kind = some e ∧ e.resolved = r.resolved
  external : r.resolved = false → g.node? r.target = some ⟨r.target, .external⟩

namespace CodeModel

def ResolvesPlainCall (m : CodeModel) (id : ObjectId) (o : CodeObject) (call : CallSite) : Prop :=
  ∃ scopes r, m.callRelation? id o call = some r ∧ m.RefersInScopes id o call scopes r ∧
    (Graph.ofModel m).Shows r

/-- The first call in the object that leads to the name without making an instance. -/
def firstCallTo? (m : CodeModel) (id : ObjectId) (o : CodeObject) (target : String) :
    Option CallSite :=
  o.calls.find? fun call =>
    (m.callRelation? id o call).any (·.key == ⟨o.qualifiedName, target, .calls⟩)

/-- No import gets in the way of the call. One that is found inside the file shares its edge with other
calls of the object, of which the first must not lead there by an import; one to the outside must not
lead to the name of an object. -/
def IsUnobstructed (m : CodeModel) (id : ObjectId) (o : CodeObject) (call : CallSite)
    (r : Relation) : Prop :=
  if r.resolved then
    r.kind = .calls → ∀ first ∈ m.firstCallTo? id o r.target, m.foreignName? id first.callee = none
  else ∀ name ∈ m.foreignName? id call.callee, ¬m.HasObject name

/-! ### Plain names -/

variable {m : CodeModel} {id i : ObjectId} {o : CodeObject} {call : CallSite} {r : Relation}
  {name file source : String} {scopes outer : List ObjectId}

theorem splitString_of_not_mem {sep : Char} (h : sep ∉ name.toList) :
    Text.splitString sep name = [name] := by
  have hchars : ∀ cs : List Char, sep ∉ cs → Text.splitChar sep cs = [cs] := by
    intro cs
    induction cs with
    | nil => exact fun _ => rfl
    | cons c cs ih =>
      intro hcs
      rw [List.mem_cons, not_or] at hcs
      rw [Text.splitChar, if_neg (Ne.symm hcs.1), ih hcs.2]
  rw [Text.splitString, hchars _ h, List.map_singleton, String.ofList_toList]

theorem memberPath?_of_not_mem (h : '.' ∉ name.toList) : memberPath? name = none := by
  rw [memberPath?]
  split
  next hchars => simp [hchars] at h
  next hchars => simp [hchars] at h
  next => rfl

theorem resolvePath?_of_not_mem (h : '.' ∉ name.toList) :
    m.resolvePath? scopes name = m.lookup? scopes name := by
  rw [resolvePath?, splitString_of_not_mem h]
  simp [follow?]

theorem resolveInFile?_of_not_mem (h : '.' ∉ name.toList) : m.resolveInFile? id name =
    (m.lookup? (m.scopeChain id) name <|> m.byFullName? name) := by
  rw [resolveInFile?, memberPath?_of_not_mem h]
  simp only [resolvePath?_of_not_mem h]

/-! ### Definitions in scopes -/

theorem lookup?_eq_none_iff :
    m.lookup? scopes name = none ↔ ∀ scope ∈ scopes, m.members scope name = [] := by
  rw [lookup?, Option.map_eq_none_iff, List.head?_eq_none_iff, List.flatMap_eq_nil_iff]

theorem areClasses_iff : m.areClasses (scopes.flatMap (m.members · name)) ↔
    ∀ scope ∈ scopes, ∀ id ∈ m.members scope name, m.kindOf? id = some .class := by
  simp only [areClasses, List.all_eq_true, List.mem_flatMap, beq_iff_eq]
  exact ⟨fun h scope hscope id hid => h id ⟨scope, hscope, hid⟩,
    fun h id ⟨scope, hscope, hid⟩ => h scope hscope id hid⟩

/-- The innermost scope with a definition decides what is found. -/
theorem lookup?_of_innermost {before after ts : List ObjectId} {scope t : ObjectId}
    (hscopes : scopes = before ++ scope :: after) (hbefore : ∀ s ∈ before, m.members s name = [])
    (hscope : m.members scope name = t :: ts) :
    m.lookup? scopes name = some ⟨t, m.areClasses (scopes.flatMap (m.members · name))⟩ := by
  have hhead : (scopes.flatMap (m.members · name)).head? = some t := by
    rw [hscopes, List.flatMap_append, List.flatMap_eq_nil_iff.2 hbefore, List.flatMap_cons, hscope]
    rfl
  rw [lookup?, hhead]
  rfl

/-- The kind of the target is looked at for nothing when all definitions are classes. -/
theorem callInside_eq {found : Found} {target : CodeObject}
    (hfound : m.lookup? scopes call.callee = some found) (htarget : m.get? found.id = some target) :
    callInside o call found target =
      ⟨o.qualifiedName, target.qualifiedName, m.callKind scopes call.callee, true, call.line⟩ := by
  obtain ⟨t, ht, rfl⟩ := Option.map_eq_some_iff.1 hfound
  have hmem := List.mem_of_head? ht
  rw [callInside, callKind]
  by_cases hall : m.areClasses (scopes.flatMap (m.members · call.callee))
  · obtain ⟨scope, hscope, hid⟩ := List.mem_flatMap.1 hmem
    have hclass : m.kindOf? t = some .class := areClasses_iff.1 hall scope hscope t hid
    rw [kindOf?, htarget, Option.map_some, Option.some_inj] at hclass
    rw [if_pos (areClasses_iff.1 hall)]
    simp [hall, hclass]
  · rw [if_neg (fun h => hall (areClasses_iff.2 h))]
    simp [hall]

/-! ### Scopes -/

theorem WalksOut.kind_ne_class {p : Option ObjectId} (h : m.WalksOut p scopes) :
    ∀ scope ∈ scopes, m.kindOf? scope ≠ some .class := by
  induction h with
  | outside | missing => exact fun _ h => nomatch h
  | inClass _ _ _ ih => exact ih
  | inScope ho hkind _ ih =>
    intro scope hscope
    rcases List.mem_cons.1 hscope with rfl | hscope
    · rw [kindOf?, ho, Option.map_some, ne_eq, Option.some_inj]
      exact hkind
    · exact ih scope hscope

end CodeModel

namespace Extraction

open CodeModel

variable {m : CodeModel} {id i : ObjectId} {o : CodeObject} {call : CallSite} {r : Relation}
  {name file source : String} {scopes outer : List ObjectId}

/-- The walk from a parent ends at the module. -/
theorem IsHierarchy.getLast?_walksOut (h : IsHierarchy m) {p : Option ObjectId}
    (hwalk : m.WalksOut p scopes) (hp : ∀ q ∈ p, (m.get? q).isSome) (hsome : p.isSome) :
    scopes.getLast? = some moduleId := by
  have hup : ∀ {q : ObjectId} {o : CodeObject}, m.get? q = some o → q ≠ moduleId →
      (∀ q' ∈ o.parent, (m.get? q').isSome) ∧ o.parent.isSome := by
    intro q o ho hq
    obtain ⟨q', owner, -, hparent, howner, -⟩ := h.parent q o ho hq
    rw [hparent]
    refine ⟨fun q'' hq'' => ?_, rfl⟩
    rw [← Option.some.inj hq'', howner]
    rfl
  -- A walk can only end at the module, because every other object has a parent.
  induction hwalk with
  | outside => cases hsome
  | missing hnone =>
    have hfound := hp _ rfl
    rw [hnone] at hfound
    cases hfound
  | @inClass q o scopes ho hkind _ ih =>
    have hq : q ≠ moduleId := by
      rintro rfl
      obtain ⟨root, hroot, hmodule, -⟩ := h.root
      rw [hroot, Option.some_inj] at ho
      rw [← ho, hmodule] at hkind
      cases hkind
    exact ih (hup ho hq).1 (hup ho hq).2
  | @inScope q o scopes ho hkind houter ih =>
    by_cases hq : q = moduleId
    · obtain ⟨root, hroot, -, hparent, -⟩ := h.root
      rw [hq, hroot, Option.some_inj] at ho
      rw [← ho, hparent] at houter
      cases houter
      rw [hq]
      rfl
    · rw [List.getLast?_cons, ih (hup ho hq).1 (hup ho hq).2]
      rfl

theorem getLast?_scopeChain (h : IsHierarchy m) (ho : m.get? id = some o) :
    (m.scopeChain id).getLast? = some moduleId := by
  have hwalk := walksOut_outerScopes h.parentsEnd o.parent
  rw [scopeChain, ho, Option.bind_some]
  by_cases hid : id = moduleId
  · obtain ⟨root, hroot, -, hparent, -⟩ := h.root
    rw [hid, hroot, Option.some_inj] at ho
    rw [← ho, hparent, hid]
    rfl
  · obtain ⟨p, owner, -, hparent, howner, -⟩ := h.parent id o ho hid
    have hlast : (m.outerScopes (m.size + 1) o.parent).getLast? = some moduleId := by
      refine h.getLast?_walksOut hwalk (fun q hq => ?_) (by rw [hparent]; rfl)
      rw [hparent] at hq
      rw [← Option.some.inj hq, howner]
      rfl
    rw [List.getLast?_cons, hlast]
    rfl

/-- The parent of a definition in a scope is the scope. -/
theorem parent_of_mem_members (h : extract file source = .ok m) {scope : ObjectId}
    (hid : id ∈ m.members scope name) (ho : m.get? id = some o) : o.parent = some scope := by
  obtain ⟨-, rfl⟩ := extract_eq_ok_iff.1 h
  have hchildren : ListsChildren (modelOf file source.toList (parse source.toList)).objects.toList := by
    rw [toList_objects_modelOf]
    exact listsChildren_withChildren _
  rw [members] at hid
  split at hid
  next owner howner =>
    rw [get?_eq] at howner ho
    obtain ⟨c, hc, hparent⟩ := (hchildren.mem_iff scope owner howner id).1 (List.mem_filter.1 hid).1
    rw [ho, Option.some_inj] at hc
    rw [hc, hparent]
  next => cases hid

/-- An object is a definition of its name in the scope that its statement is executed in. -/
theorem mem_members_scopeOfStatement (h : extract file source = .ok m) (ho : m.get? id = some o)
    (hid : id ≠ moduleId) : id ∈ m.members (scopeOfStatement o) o.name := by
  obtain ⟨p, owner, -, hparent, howner, hlisted, -⟩ :=
    (hierarchy_of_extract h).parent id o ho hid
  rw [scopeOfStatement, hparent, Option.getD_some, members, howner]
  refine List.mem_filter.2 ⟨hlisted, ?_⟩
  rw [ho, Option.any_some, beq_self_eq_true]

/-- An object whose qualified name has no dots and no number is a definition in the module. -/
theorem mem_members_of_plain (h : extract file source = .ok m) (ho : m.get? i = some o)
    (hi : i ≠ moduleId) (hdot : '.' ∉ o.qualifiedName.toList)
    (hnumber : '#' ∉ o.qualifiedName.toList) : i ∈ m.members moduleId o.qualifiedName := by
  have hmember := mem_members_scopeOfStatement h ho hi
  obtain ⟨i, rfl⟩ := Nat.exists_eq_succ_of_ne_zero hi
  obtain ⟨p, owner, hp, howner, hnamed⟩ := areNamed_of_extract h i o (by rw [← get?_eq]; exact ho)
  obtain ⟨hmodule, hname⟩ := hnamed.cases_of_plain hdot hnumber
  rw [← get?_eq] at howner
  have hfirst := (hierarchy_of_extract h).module _ _ howner hmodule
  rwa [scopeOfStatement, hp, Option.getD_some, hfirst, hname] at hmember

/-- An object that has a plain name for its whole name is found in the outermost scope already. -/
theorem byFullName?_eq_none (h : extract file source = .ok m) (hdot : '.' ∉ name.toList)
    (hnumber : '#' ∉ name.toList) (hlast : scopes.getLast? = some moduleId)
    (hnone : m.lookup? scopes name = none) : m.byFullName? name = none := by
  rw [byFullName?]
  split
  next i hid =>
    split
    next => rfl
    next hi =>
      obtain ⟨hlt, hname, -⟩ := Array.findIdx?_eq_some_iff_getElem.1 hid
      have ho : m.get? i = some m.objects.objects[i] := Array.getElem?_eq_getElem hlt
      obtain rfl := eq_of_beq hname
      have hmember := mem_members_of_plain h ho hi hdot hnumber
      rw [lookup?_eq_none_iff.1 hnone _ (List.mem_of_getLast? hlast)] at hmember
      cases hmember
  next => rfl

/-- Only the scopes matter to a plain name. -/
theorem resolveInFile?_eq_lookup? (h : extract file source = .ok m) (ho : m.get? id = some o)
    (hname : IsWord name.toList) :
    m.resolveInFile? id name = m.lookup? (m.scopeChain id) name := by
  obtain ⟨hdot, hnumber⟩ := not_mem_of_isWord hname
  have hlast := getLast?_scopeChain (hierarchy_of_extract h) ho
  rw [resolveInFile?_of_not_mem hdot]
  cases hfound : m.lookup? (m.scopeChain id) name with
  | none => exact byFullName?_eq_none h hdot hnumber hlast hfound
  | some found => rfl

theorem refersInScopes (h : extract file source = .ok m) (ho : m.get? id = some o)
    (hname : IsWord call.callee.toList) (hr : m.callRelation? id o call = some r) :
    m.RefersInScopes id o call (m.scopeChain id) r := by
  obtain ⟨hdot, hnumber⟩ := not_mem_of_isWord hname
  have hhierarchy := hierarchy_of_extract h
  have hlast := getLast?_scopeChain hhierarchy ho
  have hlookup := resolveInFile?_eq_lookup? h ho hname
  have hwalk := walksOut_outerScopes hhierarchy.parentsEnd o.parent
  have hchain : m.scopeChain id = id :: m.outerScopes (m.size + 1) o.parent := by
    rw [scopeChain, ho, Option.bind_some]
  -- In turn: what is found in a scope, what is found in none, where it is, and full names.
  refine ⟨⟨_, hwalk, hchain⟩, hlast, ?_, fun hnone => ?_, ?_, fun hnone => ?_⟩
  · intro before scope after t ts target hscopes hbefore hscope htarget
    have hfound := lookup?_of_innermost hscopes hbefore hscope
    rcases m.callRelation?_cases id o call with ⟨hnone, -⟩ | ⟨found, target', hin, htarget', hcall⟩
    · rw [hlookup, hfound] at hnone
      cases hnone
    · rw [hlookup, hfound, Option.some_inj] at hin
      subst hin
      rw [htarget, Option.some_inj] at htarget'
      rw [hr, Option.some_inj] at hcall
      rw [hcall, ← htarget', callInside_eq hfound htarget]
  · rcases m.callRelation?_cases id o call with ⟨-, hcall⟩ | ⟨found, -, hin, -⟩
    · exact Option.some.inj (hr.symm.trans hcall)
    · rw [hlookup, lookup?_eq_none_iff.2 hnone] at hin
      cases hin
  · intro hkind found target hin htarget
    rw [hlookup] at hin
    obtain ⟨t, ht, rfl⟩ := Option.map_eq_some_iff.1 hin
    obtain ⟨scope, hscope, hmember⟩ := List.mem_flatMap.1 (List.mem_of_head? ht)
    rw [parent_of_mem_members h hmember htarget, Option.bind_some]
    rw [hchain] at hscope
    rcases List.mem_cons.1 hscope with rfl | hscope
    · rw [kindOf?, ho, Option.map_some, ne_eq, Option.some_inj]
      exact hkind
    · exact hwalk.kind_ne_class scope hscope
  · rw [resolvePath?_of_not_mem hdot] at hnone
    exact byFullName?_eq_none h hdot hnumber hlast hnone

end Extraction

/-! ### Edges -/

namespace Graph

variable {m : CodeModel} {id : ObjectId} {o : CodeObject} {call : CallSite} {r : Relation}

theorem find?_eq_none_of_kind {rs : List Relation} {key : EdgeKey}
    (h : ∀ r ∈ rs, r.kind ≠ key.kind) : rs.find? (·.key == key) = none := by
  rw [List.find?_eq_none]
  intro r hr hkey
  exact h r hr (congrArg EdgeKey.kind (eq_of_beq hkey))

/-- The edges that start at an object, imports aside, come from its calls and its bases. -/
theorem find?_relations_of_source (ho : m.get? id = some o) {key : EdgeKey}
    (hsource : key.source = o.qualifiedName) (hkind : key.kind ≠ .imports) :
    m.relations.find? (·.key == key) = (m.objectRelations id o).find? (·.key == key) := by
  have hobjects : (m.entries.flatMap fun entry => m.objectRelations entry.1 entry.2).find?
      (·.key == key) = (m.objectRelations id o).find? (·.key == key) := by
    rw [← CodeModel.filter_source_objectRelations ho, List.find?_filter]
    refine congrArg (List.find? · _) (funext fun r => ?_)
    by_cases hkey : r.key = key
    · have hr : r.source = o.qualifiedName := hsource ▸ congrArg EdgeKey.source hkey
      simp [hkey, hr]
    · simp [hkey]
  have himports : (m.imports.flatMap m.importRelations).find? (·.key == key) = none := by
    apply find?_eq_none_of_kind
    intro r hr
    obtain ⟨i, -, hr⟩ := List.mem_flatMap.1 hr
    obtain ⟨target, -, rfl⟩ := List.mem_map.1 hr
    exact hkind.symm
  rw [CodeModel.relations_eq, List.find?_append, hobjects, himports, Option.or_none]

/-- The edges of the calls in an object come from its calls alone. -/
theorem find?_relations_of_isCall (ho : m.get? id = some o) {key : EdgeKey}
    (hsource : key.source = o.qualifiedName) (hkind : key.kind.isCall) :
    m.relations.find? (·.key == key) =
      (o.calls.filterMap (m.callRelation? id o)).find? (·.key == key) := by
  have hkey : ∀ kind, ¬kind.isCall → key.kind ≠ kind := fun kind hno heq => hno (heq ▸ hkind)
  have hbases : ((CodeModel.basesOf o).filterMap (m.baseRelation? o)).find? (·.key == key) = none := by
    apply find?_eq_none_of_kind
    intro r hr
    obtain ⟨base, hbase, hr⟩ := List.mem_filterMap.1 hr
    rw [(CodeModel.spec_of_baseRelation? ho hbase hr).2.1]
    exact (hkey .inherits Bool.false_ne_true).symm
  rw [find?_relations_of_source ho hsource (hkey .imports Bool.false_ne_true), CodeModel.objectRelations,
    List.find?_append, hbases, Option.or_none]

/-- The edge of a relationship has the mark of the first one that shares it. -/
theorem exists_edge?_of_mem (hr : r ∈ m.relations) : ∃ e first,
    (ofModel m).edge? r.source r.target r.kind = some e ∧
      m.relations.find? (·.key == r.key) = some first ∧ e.resolved = first.resolved := by
  rw [(hasEdges_ofModel m).edge?_eq, ← List.head?_filter]
  change ∃ e first, edgeOf? (m.relations.filter (·.key == r.key)) = some e ∧ _
  cases hoccurred : m.relations.filter (·.key == r.key) with
  | nil => exact absurd (beq_self_eq_true _) (List.filter_eq_nil_iff.1 hoccurred r hr)
  | cons first rest => exact ⟨_, first, rfl, rfl, rfl⟩

/-- The edge with a key is marked as the first relationship with it. -/
theorem exists_marked_edge_iff {key : EdgeKey} {mark : Bool} :
    (∃ e ∈ (ofModel m).edges, e.key = key ∧ e.resolved = mark) ↔
      ∃ first, m.relations.find? (·.key == key) = some first ∧ first.resolved = mark := by
  have hindexed := (hasEdges_ofModel m).indexed
  constructor
  · rintro ⟨e, he, rfl, rfl⟩
    obtain ⟨r, hr, hkey, -⟩ := (hasEdges_ofModel m).exists_relation he
    obtain ⟨e', first, he', hfirst, hmark⟩ := exists_edge?_of_mem hr
    have hfound := hindexed.edge?_eq_some_iff.2 ⟨he, hkey.symm⟩
    obtain rfl := Option.some.inj (hfound.symm.trans he')
    exact ⟨first, hkey ▸ hfirst, hmark.symm⟩
  · rintro ⟨first, hfirst, rfl⟩
    have hkey : first.key = key := by simpa using List.find?_some hfirst
    obtain ⟨e, first', he, hfirst', hmark⟩ := exists_edge?_of_mem (List.mem_of_find?_eq_some hfirst)
    rw [hkey, hfirst, Option.some_inj] at hfirst'
    obtain ⟨hedge, hedgekey⟩ := hindexed.edge?_eq_some_iff.1 he
    exact ⟨e, hedge, hedgekey.trans hkey, hfirst' ▸ hmark⟩

theorem shows_iff (hr : r ∈ m.relations) : (ofModel m).Shows r ↔
    (∀ first ∈ m.relations.find? (·.key == r.key), first.resolved = r.resolved) ∧
      (r.resolved = false → ¬m.HasObject r.target) := by
  obtain ⟨e, first, he, hfirst, hresolved⟩ := exists_edge?_of_mem hr
  constructor
  · rintro ⟨⟨e', he', hsame⟩, hexternal⟩
    obtain rfl := Option.some.inj (he.symm.trans he')
    refine ⟨fun first' hfirst' => ?_, fun hout hobject => ?_⟩
    · obtain rfl := Option.some.inj (hfirst.symm.trans hfirst')
      exact hresolved.symm.trans hsame
    · exact node?_ofModel_of_hasObject hobject (hexternal hout)
  · rintro ⟨hsame, hexternal⟩
    exact ⟨⟨e, he, hresolved.trans (hsame first hfirst)⟩,
      fun hout => node?_ofModel_of_not_hasObject hr (hexternal hout)⟩

/-- A call to the outside is shown unless an import leads it to an object. -/
theorem shows_callOutside_iff
    (hmodule : ∀ o, m.get? CodeModel.moduleId = some o → o.qualifiedName = moduleName)
    (hr : m.callOutside o call ∈ m.relations) (hnone : m.resolveInFile? id call.callee = none) :
    (ofModel m).Shows (m.callOutside o call) ↔
      ∀ name ∈ m.foreignName? id call.callee, ¬m.HasObject name := by
  rw [shows_iff hr]
  constructor
  · rintro ⟨-, houtside⟩ name hname
    obtain ⟨-, rfl⟩ := CodeModel.foreignName?_eq_some hname
    exact houtside rfl
  · intro hforeign
    have hobject : ¬m.HasObject (m.externalName call.callee) := fun hobject =>
      hforeign _ (CodeModel.foreignName?_of_hasObject hmodule hnone hobject) hobject
    refine ⟨fun first hfirst => ?_, fun _ => hobject⟩
    have hkey : first.key = (m.callOutside o call).key := by simpa using List.find?_some hfirst
    have htyped := CodeModel.isTyped_of_mem_relations (List.mem_of_find?_eq_some hfirst)
    rw [hkey] at htyped
    exact Bool.eq_false_iff.2 fun hresolved => hobject (htyped.target hresolved)

/-- A plain call into the file is shown unless an import leads an earlier one to its target. -/
theorem shows_callInside_iff
    (hmodule : ∀ o, m.get? CodeModel.moduleId = some o → o.qualifiedName = moduleName)
    (ho : m.get? id = some o) {found : Found} {target : CodeObject}
    (htarget : m.get? found.id = some target)
    (hr : CodeModel.callInside o call found target ∈ m.relations) :
    (ofModel m).Shows (CodeModel.callInside o call found target) ↔
      ((CodeModel.callInside o call found target).kind = .calls →
        ∀ first ∈ m.firstCallTo? id o target.qualifiedName,
          m.foreignName? id first.callee = none) := by
  have hobject : m.HasObject target.qualifiedName := CodeModel.hasObject_of_get? htarget
  have hedge : (ofModel m).Shows (CodeModel.callInside o call found target) ↔
      ∀ first ∈ m.relations.find? (·.key == (CodeModel.callInside o call found target).key),
        first.resolved = true :=
    (shows_iff hr).trans (and_iff_left fun h => by cases h)
  rw [hedge]
  by_cases hkind : (CodeModel.callInside o call found target).kind = .calls
  · have hkey : (CodeModel.callInside o call found target).key =
        ⟨o.qualifiedName, target.qualifiedName, .calls⟩ := by
      rw [Relation.key, hkind]
      rfl
    rw [forall_prop_of_true hkind, hkey, find?_relations_of_isCall ho rfl rfl,
      List.find?_filterMap, CodeModel.firstCallTo?]
    cases hfirst : o.calls.find? fun call => (m.callRelation? id o call).any
        (·.key == ⟨o.qualifiedName, target.qualifiedName, .calls⟩) with
    | none => simp
    | some first =>
      have hsame := List.find?_some hfirst
      simp only [Option.bind_some, Option.mem_def, Option.some_inj, forall_eq']
      rcases m.callRelation?_cases id o first with ⟨hnone, hcall⟩ | ⟨found', _, hin, -, hcall⟩
      · rw [hcall, Option.any_some, beq_iff_eq] at hsame
        have hname : m.externalName first.callee = target.qualifiedName :=
          congrArg EdgeKey.target hsame
        have hforeign := CodeModel.foreignName?_of_hasObject hmodule hnone (hname ▸ hobject)
        rw [hcall, hforeign]
        exact iff_of_false (fun h => Bool.false_ne_true (h _ rfl)) (Option.some_ne_none _)
      · rw [hcall, CodeModel.foreignName?, hin]
        exact iff_of_true (fun _ h => Option.some.inj h ▸ rfl) rfl
  -- Only what was found in the file makes an instance.
  · refine iff_of_true (fun first hfirst => ?_) (fun h => absurd h hkind)
    have hkey : first.key = (CodeModel.callInside o call found target).key := by
      simpa using List.find?_some hfirst
    have htyped := CodeModel.isTyped_of_mem_relations (List.mem_of_find?_eq_some hfirst)
    refine (htyped.instantiates ?_).1
    rw [hkey]
    exact (ite_eq_or_eq _ EdgeKind.instantiates EdgeKind.calls).resolve_right hkind

end Graph

namespace Extraction

open CodeModel

variable {m : CodeModel} {id : ObjectId} {o : CodeObject} {call : CallSite} {file source : String}

/-- A call of a plain name refers to what the scopes define, and the graph shows it so exactly if it
meets no obstacle among the imports. -/
theorem resolvesPlainCall_iff (h : extract file source = .ok m) (ho : m.get? id = some o)
    (hcall : call ∈ o.calls) (hname : IsWord call.callee.toList) :
    ∃ scopes r, m.callRelation? id o call = some r ∧ m.RefersInScopes id o call scopes r ∧
      (m.ResolvesPlainCall id o call ↔ m.IsUnobstructed id o call r) := by
  have hmodule : ∀ o, m.get? moduleId = some o → o.qualifiedName = moduleName :=
    fun _ => qualifiedName_module h
  obtain ⟨r, hr, -⟩ := m.callRelation?_spec id o call
  have hrefers := refersInScopes h ho hname hr
  have hmem := mem_relations_of_call ho hcall hr
  have hshown : m.ResolvesPlainCall id o call ↔ (Graph.ofModel m).Shows r := by
    constructor
    · rintro ⟨-, r', hr', -, hshows⟩
      exact Option.some.inj (hr'.symm.trans hr) ▸ hshows
    · exact fun hshows => ⟨_, r, hr, hrefers, hshows⟩
  refine ⟨_, r, hr, hrefers, hshown.trans ?_⟩
  rcases m.callRelation?_cases id o call with ⟨hnone, hcases⟩ | ⟨found, target, -, htarget, hcases⟩
  · obtain rfl := Option.some.inj (hcases.symm.trans hr)
    exact Graph.shows_callOutside_iff hmodule hmem hnone
  · obtain rfl := Option.some.inj (hcases.symm.trans hr)
    exact Graph.shows_callInside_iff hmodule ho htarget hmem

/-- A method calls the function of its own name, which a class shadows in part. -/
theorem resolvesPlainCall_of_shadowed_function :
    let source := "class C:\n    def f(self):\n        f()\ndef f(): pass\nclass f: pass\n"
    let call : CallSite := ⟨"f", 0, 3⟩
    ∃ m o, extract "t.py" source = .ok m ∧ m.get? 2 = some o ∧ call ∈ o.calls ∧
      IsWord call.callee.toList ∧ m.ResolvesPlainCall 2 o call ∧
      m.callRelation? 2 o call = some ⟨"C.f", "f", .calls, true, 3⟩ := by
  intro source call
  let m := modelOf "t.py" source.toList (parse source.toList)
  have hextract : extract "t.py" source = .ok m := extract_eq_ok_iff.2 ⟨by decide +kernel, rfl⟩
  obtain ⟨o, ho, hfacts⟩ := Option.map_eq_some_iff.1 (show (m.get? 2).map
    (fun o => (o.calls, m.callRelation? 2 o call)) =
      some ([call], some ⟨"C.f", "f", .calls, true, 3⟩) by decide +kernel)
  obtain ⟨hcalls, hrelation⟩ := Prod.mk.inj hfacts
  have hcall : call ∈ o.calls := hcalls ▸ List.mem_singleton_self call
  have hword : IsWord call.callee.toList :=
    isWord_of_all (by decide) (by decide +kernel)
  obtain ⟨-, r, hr, -, hiff⟩ := resolvesPlainCall_iff hextract ho hcall hword
  obtain rfl := Option.some.inj (hrelation.symm.trans hr)
  refine ⟨m, o, hextract, ho, hcall, hword, hiff.2 fun _ first hfirst => ?_, hrelation⟩
  rw [firstCallTo?, hcalls] at hfirst
  obtain rfl := List.mem_singleton.1 (List.mem_of_find?_eq_some hfirst)
  decide +kernel

/-- A call of a name that nothing in the file has, but that an import binds to one that something
has. -/
theorem not_resolvesPlainCall_of_same_name :
    let source := "import g as h\ndef g():\n    pass\ndef f():\n    h()\n"
    let call : CallSite := ⟨"h", 0, 5⟩
    ∃ m o, extract "t.py" source = .ok m ∧ m.get? 2 = some o ∧ call ∈ o.calls ∧
      IsWord call.callee.toList ∧ (∀ scope ∈ m.scopeChain 2, m.members scope "h" = []) ∧
      ¬m.ResolvesPlainCall 2 o call ∧
      (Graph.ofModel m).node? "g" = some ⟨"g", .object .function⟩ := by
  intro source call
  let m := modelOf "t.py" source.toList (parse source.toList)
  have hextract : extract "t.py" source = .ok m := extract_eq_ok_iff.2 ⟨by decide +kernel, rfl⟩
  obtain ⟨o, ho, hfacts⟩ := Option.map_eq_some_iff.1 (show (m.get? 2).map
    (fun o => (o.calls, m.callRelation? 2 o call)) =
      some ([call], some ⟨"f", "g", .calls, false, 5⟩) by decide +kernel)
  obtain ⟨hcalls, hrelation⟩ := Prod.mk.inj hfacts
  obtain ⟨hscopes, hforeign, hobject, hnode⟩ :
      (∀ scope ∈ m.scopeChain 2, m.members scope "h" = []) ∧
      m.foreignName? 2 "h" = some "g" ∧ m.HasObject "g" ∧
      (Graph.ofModel m).node? "g" = some ⟨"g", .object .function⟩ := by decide +kernel
  have hcall : call ∈ o.calls := hcalls ▸ List.mem_singleton_self call
  have hword : IsWord call.callee.toList :=
    isWord_of_all (by decide) (by decide +kernel)
  refine ⟨m, o, hextract, ho, hcall, hword, hscopes, ?_, hnode⟩
  rintro ⟨-, r, hr, -, hshows⟩
  obtain rfl := Option.some.inj (hrelation.symm.trans hr)
  exact Graph.node?_ofModel_of_hasObject hobject (hshows.external rfl)

end Extraction

end SourceCorpus
