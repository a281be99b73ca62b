import SourceCorpus.Proofs.Extraction.Calls
import SourceCorpus.Proofs.Graph.Edges
import SourceCorpus.Proofs.Graph.Relations

/-!
The imports behind the calls that leave a file. Main statement: such a call goes to what the
innermost scope that binds its head has imported, and no import of another function matters to it,
exactly if the first binding of the head in the file agrees with those around the call.
-/

namespace SourceCorpus

def withHead (name head : String) : String :=
  match (splitHead name).2 with
  | some rest => head ++ "." ++ rest
  | none => head

namespace Import

/-- The names that the statement binds, each with the dotted name behind it as it is written. -/
def bound (i : Import) : List (String × String) :=
  if i.names = [] then i.asName.toList.map fun name => (name, i.module)
  else (i.names.filter (·.name ≠ "*")).map fun n =>
    (n.asName.getD n.name, qualify i.module n.name)

def Binds (file : String) (i : Import) (name target : String) : Prop :=
  ∃ b ∈ i.bound, b.1 = name ∧ target = Naming.absoluteName file b.2

instance (file : String) (i : Import) (name target : String) :
    Decidable (i.Binds file name target) :=
  inferInstanceAs (Decidable (∃ _ ∈ _, _))

end Import

namespace CodeModel

/-- The innermost scope around the object in which an import binds the name. -/
def bindingScope? (m : CodeModel) (id : ObjectId) (name : String) : Option ObjectId :=
  (m.scopeChain id).find? fun scope =>
    m.imports.any fun i => i.scope == scope && i.bound.any (·.1 == name)

/-- What a name inside the object stands for outside the file. Its head is replaced by the target of
the edge of an import that binds it in the innermost scope where one does; if none does, the name
stands for itself. -/
def IsLexicalTarget (m : CodeModel) (id : ObjectId) (name target : String) : Prop :=
  match m.bindingScope? id (splitHead name).1 with
  | none => target = name
  | some scope => ∃ i ∈ m.imports, i.scope = scope ∧ ∃ r ∈ m.importRelations i,
      i.Binds m.file (splitHead name).1 r.target ∧ target = withHead name r.target

instance (m : CodeModel) (id : ObjectId) (name target : String) :
    Decidable (m.IsLexicalTarget id name target) :=
  match h : m.bindingScope? id (splitHead name).1 with
  | none => decidable_of_iff (target = name) (by rw [IsLexicalTarget, h])
  | some scope =>
    decidable_of_iff (∃ i ∈ m.imports, i.scope = scope ∧ ∃ r ∈ m.importRelations i,
      i.Binds m.file (splitHead name).1 r.target ∧ target = withHead name r.target)
      (by rw [IsLexicalTarget, h])

def isForeign (m : CodeModel) (id : ObjectId) (i : Import) : Bool :=
  !(m.scopeChain id).contains i.scope && (m.kindOf? i.scope).any (·.isCallable)

def withImports (m : CodeModel) (imports : List Import) : CodeModel := { m with imports := imports }

/-- The model without the imports of functions that are not around the object. -/
def withoutForeign (m : CodeModel) (id : ObjectId) : CodeModel :=
  m.withImports (m.imports.filter fun i => !m.isForeign id i)

/-- The call of the object goes where the imports around it lead, and those of other functions have
no part in that. -/
structure FollowsImports (m : CodeModel) (id : ObjectId) (o : CodeObject) (call : CallSite) :
    Prop where
  target : ∃ target, m.IsLexicalTarget id call.callee target ∧
    let r : Relation := ⟨o.qualifiedName, target, .calls, false, call.line⟩
    m.callRelation? id o call = some r ∧ (Graph.ofModel m).Has r
  apart : (m.withoutForeign id).callRelation? id o call = m.callRelation? id o call

/-- What the first import in the file that binds the name makes of it, wherever it stands. -/
def firstTarget (m : CodeModel) (name : String) : String :=
  (m.importBindings.lookup name).getD name

def IsBoundAround (m : CodeModel) (id : ObjectId) (name target : String) : Prop :=
  match m.bindingScope? id name with
  | none => target = name
  | some scope => ∃ i ∈ m.imports, i.scope = scope ∧ i.Binds m.file name target

instance (m : CodeModel) (id : ObjectId) (name target : String) :
    Decidable (m.IsBoundAround id name target) :=
  match h : m.bindingScope? id name with
  | none => decidable_of_iff (target = name) (by rw [IsBoundAround, h])
  | some scope =>
    decidable_of_iff (∃ i ∈ m.imports, i.scope = scope ∧ i.Binds m.file name target)
      (by rw [IsBoundAround, h])

/-- The first binding of the name in the file agrees with the innermost one around the object, and
with the first one that does not stand in a foreign function. -/
structure AgreesAround (m : CodeModel) (id : ObjectId) (name : String) : Prop where
  innermost : m.IsBoundAround id name (m.firstTarget name)
  apart : (m.withoutForeign id).firstTarget name = m.firstTarget name

instance (m : CodeModel) (id : ObjectId) (name : String) : Decidable (m.AgreesAround id name) :=
  decidable_of_iff (m.IsBoundAround id name (m.firstTarget name) ∧
      (m.withoutForeign id).firstTarget name = m.firstTarget name)
    ⟨fun h => ⟨h.1, h.2⟩, fun h => ⟨h.innermost, h.apart⟩⟩

end CodeModel

/-! ### Heads of names -/

theorem withHead_self (name : String) : withHead name (splitHead name).1 = name := by
  have hsplit : name.toList.takeWhile (· ≠ '.') ++ name.toList.dropWhile (· ≠ '.') = name.toList :=
    List.takeWhile_append_dropWhile
  rw [withHead, splitHead]
  cases hrest : name.toList.dropWhile (· ≠ '.') with
  | nil =>
    rw [hrest, List.append_nil] at hsplit
    exact (congrArg String.ofList hsplit).trans String.ofList_toList
  | cons c rest =>
    have hdot := List.head?_dropWhile_not (· ≠ '.') name.toList
    rw [hrest] at hdot
    obtain rfl : c = '.' := by simpa using hdot
    rw [hrest] at hsplit
    have hname := (congrArg String.ofList hsplit).trans String.ofList_toList
    rw [← List.singleton_append, ← List.append_assoc, String.ofList_append,
      String.ofList_append] at hname
    exact hname

theorem withHead_inj {name head head' : String} :
    withHead name head = withHead name head' ↔ head = head' := by
  rw [withHead, withHead]
  split
  · rw [String.append_left_inj, String.append_left_inj]
  · rfl

/-! ### Names in the file -/

namespace CodeModel

variable {m : CodeModel} {id : ObjectId} {o : CodeObject} {call : CallSite}

section WithImports

variable (m : CodeModel) (imports : List Import)

theorem outerScopes_withImports (steps : Nat) (id : Option ObjectId) :
    (m.withImports imports).outerScopes steps id = m.outerScopes steps id := by
  induction steps generalizing id with
  | zero => rfl
  | succ steps ih =>
    cases id with
    | none => rfl
    | some id =>
      simp only [outerScopes, ih]
      rfl

theorem scopeChain_withImports (id : ObjectId) :
    (m.withImports imports).scopeChain id = m.scopeChain id :=
  congrArg (id :: ·) (outerScopes_withImports m imports _ _)

theorem classAbove?_withImports (steps : Nat) (id : ObjectId) :
    (m.withImports imports).classAbove? steps id = m.classAbove? steps id := by
  induction steps generalizing id with
  | zero => rfl
  | succ steps ih =>
    simp only [classAbove?, ih]
    rfl

theorem follow?_withImports (found : Found) (names : List String) :
    (m.withImports imports).follow? found names = m.follow? found names := by
  induction names generalizing found with
  | nil => rfl
  | cons name names ih =>
    simp only [follow?, ih]
    rfl

theorem resolvePath?_withImports (scopes : List ObjectId) (path : String) :
    (m.withImports imports).resolvePath? scopes path = m.resolvePath? scopes path := by
  simp only [resolvePath?, follow?_withImports]
  rfl

theorem baseClasses_withImports (id : ObjectId) :
    (m.withImports imports).baseClasses id = m.baseClasses id := by
  simp only [baseClasses, resolvePath?_withImports, scopeChain_withImports]
  rfl

theorem searchMember_withImports (path : String) (depth : Nat) (visited : List ObjectId)
    (id : ObjectId) :
    (m.withImports imports).searchMember path depth visited id =
      m.searchMember path depth visited id := by
  induction depth generalizing visited id with
  | zero => rfl
  | succ depth ih =>
    simp only [searchMember, ih, resolvePath?_withImports, baseClasses_withImports]

/-- The imports have no say in what a name means inside the file. -/
theorem resolveInFile?_withImports (id : ObjectId) (name : String) :
    (m.withImports imports).resolveInFile? id name = m.resolveInFile? id name := by
  have hmember (cls : ObjectId) (path : String) :
      (m.withImports imports).member? cls path = m.member? cls path :=
    congrArg Prod.fst (searchMember_withImports m imports path _ [] cls)
  have hclass : (m.withImports imports).enclosingClass? id = m.enclosingClass? id :=
    classAbove?_withImports m imports _ id
  simp only [resolveInFile?, hmember, hclass, resolvePath?_withImports, scopeChain_withImports]
  rfl

end WithImports

/-! ### Names outside the file -/

theorem externalName_eq (name : String) :
    m.externalName name = withHead name (m.firstTarget (splitHead name).1) := by
  rw [externalName, firstTarget]
  cases hlookup : m.importBindings.lookup (splitHead name).1 with
  | none =>
    simp only [hlookup, Option.getD_none, withHead_self]
  | some target =>
    simp only [hlookup, Option.getD_some, withHead]
    cases (splitHead name).2 <;> rfl

/-- A call that leaves the file goes by the first binding of its head. -/
theorem callRelation?_eq_of_external (h : m.resolveInFile? id call.callee = none) :
    m.callRelation? id o call =
      some ⟨o.qualifiedName, withHead call.callee (m.firstTarget (splitHead call.callee).1),
        .calls, false, call.line⟩ := by
  rw [callRelation?, resolve, h, externalName_eq]

/-- What an import binds a name to is the target of one of its edges. -/
theorem mem_importRelations_of_binds {i : Import} {name target : String}
    (h : i.Binds m.file name target) :
    (⟨moduleName, target, .imports, false, i.line⟩ : Relation) ∈ m.importRelations i := by
  obtain ⟨b, hb, -, rfl⟩ := h
  refine List.mem_map.2 ⟨b.2, ?_, rfl⟩
  rw [Import.bound] at hb
  simp only [Import.targets, List.isEmpty_iff]
  split at hb
  next hnames =>
    obtain ⟨name, -, rfl⟩ := List.mem_map.1 hb
    rw [if_pos hnames]
    exact List.mem_singleton_self _
  next hnames =>
    obtain ⟨n, hn, rfl⟩ := List.mem_map.1 hb
    rw [if_neg hnames]
    exact List.mem_map_of_mem (List.mem_filter.1 hn).1

theorem isLexicalTarget_withHead_iff {name head : String} :
    m.IsLexicalTarget id name (withHead name head) ↔
      m.IsBoundAround id (splitHead name).1 head := by
  rw [IsLexicalTarget, IsBoundAround]
  split
  next =>
    have hinj : withHead name head = withHead name (splitHead name).1 ↔ head = (splitHead name).1 :=
      withHead_inj
    rwa [withHead_self] at hinj
  next scope _ =>
    constructor
    · rintro ⟨i, hi, hscope, r, -, hbinds, heq⟩
      rw [withHead_inj.1 heq]
      exact ⟨i, hi, hscope, hbinds⟩
    · rintro ⟨i, hi, hscope, hbinds⟩
      exact ⟨i, hi, hscope, _, mem_importRelations_of_binds hbinds, hbinds, rfl⟩

/-- A call that leaves the file follows the imports around it exactly if the first binding of its
head in the file agrees with these, and with the first one outside foreign functions. -/
theorem followsImports_iff (ho : m.get? id = some o) (hcall : call ∈ o.calls)
    (h : m.resolveInFile? id call.callee = none) :
    m.FollowsImports id o call ↔ m.AgreesAround id (splitHead call.callee).1 := by
  have hrelation := callRelation?_eq_of_external (o := o) h
  have hhas := Graph.has_ofModel (mem_relations_of_call ho hcall hrelation)
  -- The first binding decides where the call goes, in the file as it is and without foreign imports.
  have htarget : (∃ target, m.IsLexicalTarget id call.callee target ∧
      m.callRelation? id o call =
        some ⟨o.qualifiedName, target, .calls, false, call.line⟩) ↔
      m.IsLexicalTarget id call.callee
        (withHead call.callee (m.firstTarget (splitHead call.callee).1)) := by
    constructor
    · rintro ⟨target, hlexical, heq⟩
      rw [hrelation, Option.some_inj, Relation.mk.injEq] at heq
      exact heq.2.1 ▸ hlexical
    · exact fun hlexical => ⟨_, hlexical, hrelation⟩
  have hforeign := callRelation?_eq_of_external (o := o) (m := m.withoutForeign id)
    ((resolveInFile?_withImports m _ id call.callee).trans h)
  have hapart : (m.withoutForeign id).callRelation? id o call = m.callRelation? id o call ↔
      (m.withoutForeign id).firstTarget (splitHead call.callee).1 =
        m.firstTarget (splitHead call.callee).1 := by
    rw [hrelation, hforeign, Option.some_inj, Relation.mk.injEq]
    simp only [true_and, and_true, withHead_inj]
  rw [isLexicalTarget_withHead_iff] at htarget
  constructor
  · rintro ⟨⟨target, hlexical, heq, -⟩, hsame⟩
    exact ⟨htarget.1 ⟨target, hlexical, heq⟩, hapart.1 hsame⟩
  · rintro ⟨hinnermost, hsame⟩
    obtain ⟨target, hlexical, heq⟩ := htarget.2 hinnermost
    refine ⟨⟨target, hlexical, heq, ?_⟩, hapart.2 hsame⟩
    rw [hrelation, Option.some_inj] at heq
    exact heq ▸ hhas

open Extraction Syntax in
/-- An import of the module serves the functions in it, besides what they import themselves. -/
theorem followsImports_of_module_import :
    let source := "import numpy as np\ndef f():\n    from a import h\n    h(np.array(1))\n"
    ∃ m o, extract "t.py" source = .ok m ∧ m.get? 1 = some o ∧
      o.calls.map (·.callee) = ["h", "np.array"] ∧
      (∀ call ∈ o.calls, m.resolveInFile? 1 call.callee = none ∧ m.FollowsImports 1 o call) ∧
      (Graph.ofModel m).callees "f" = ["a.h", "numpy.array"] := by
  intro source
  let m := modelOf "t.py" source.toList (parse source.toList)
  let calls : List CallSite := [⟨"h", 1, 4⟩, ⟨"np.array", 1, 4⟩]
  obtain ⟨hproblem, hcalls, hagrees, hcallees⟩ : (parse source.toList).hasProblem = false ∧
      (m.get? 1).map (·.calls) = some calls ∧
      (∀ call ∈ calls, m.resolveInFile? 1 call.callee = none ∧
        m.AgreesAround 1 (splitHead call.callee).1) ∧
      (Graph.ofModel m).callees "f" = ["a.h", "numpy.array"] := by decide +kernel
  obtain ⟨o, ho, hcalls⟩ := Option.map_eq_some_iff.1 hcalls
  refine ⟨m, o, extract_eq_ok_iff.2 ⟨hproblem, rfl⟩, ho, by rw [hcalls]; rfl, fun call hcall => ?_,
    hcallees⟩
  obtain ⟨hnone, hagrees⟩ := hagrees call (hcalls ▸ hcall)
  exact ⟨hnone, (followsImports_iff ho hcall hnone).2 hagrees⟩

open Extraction Syntax in
/-- Of two functions that import the same name, the second one calls what the first has imported. -/
theorem not_followsImports_of_same_name :
    let source := "def f():\n    from a import h\n    h()\ndef g():\n    from b import h\n    h()\n"
    ∃ m o call, extract "t.py" source = .ok m ∧ m.get? 2 = some o ∧ o.calls = [call] ∧
      m.resolveInFile? 2 call.callee = none ∧ ¬m.FollowsImports 2 o call ∧
      m.IsLexicalTarget 2 call.callee "b.h" ∧ (Graph.ofModel m).callees "g" = ["a.h"] := by
  intro source
  let m := modelOf "t.py" source.toList (parse source.toList)
  obtain ⟨hproblem, hcalls, hnone, hfirst, hlexical, hlexical', hcallees⟩ :
      (parse source.toList).hasProblem = false ∧ (m.get? 2).map (·.calls) = some [⟨"h", 0, 6⟩] ∧
      m.resolveInFile? 2 "h" = none ∧ m.firstTarget (splitHead "h").1 = "a.h" ∧
      ¬m.IsLexicalTarget 2 "h" "a.h" ∧ m.IsLexicalTarget 2 "h" "b.h" ∧
      (Graph.ofModel m).callees "g" = ["a.h"] := by decide +kernel
  have hextract : extract "t.py" source = .ok m := extract_eq_ok_iff.2 ⟨hproblem, rfl⟩
  clear_value m
  obtain ⟨o, ho, hcalls⟩ := Option.map_eq_some_iff.1 hcalls
  refine ⟨m, o, ⟨"h", 0, 6⟩, hextract, ho, hcalls, hnone, ?_, hlexical', hcallees⟩
  rintro ⟨⟨target, htarget, hrelation, -⟩, -⟩
  rw [callRelation?_eq_of_external hnone, Option.some_inj, Relation.mk.injEq, hfirst] at hrelation
  obtain rfl : "a.h" = target := hrelation.2.1
  exact hlexical htarget

end CodeModel

end SourceCorpus
