import SourceCorpus.Proofs.Extraction.Hierarchy

/-!
Qualified names. Main statements: an object has the name for its place in the object around it, with a
number if that was taken, and a name without dots and numbers is that of an object at the top level.
-/

namespace SourceCorpus.Extraction

variable {a : Arena} {objects : List CodeObject} {owner o : CodeObject} {p i : ObjectId}
  {name file source : String} {m : CodeModel}

def IsNamedIn (owner o : CodeObject) : Prop :=
  o.qualifiedName = nameInside owner o.name ∨
    ∃ number, o.qualifiedName = Arena.candidate (nameInside owner o.name) number

def AreNamed (objects : List CodeObject) : Prop :=
  ∀ (i : ObjectId) (o : CodeObject), objects[i + 1]? = some o →
    ∃ p owner, o.parent = some p ∧ objects[p]? = some owner ∧ IsNamedIn owner o

/-- The object has the first of the numbered names for its place in the owner that none of those
before it has. -/
structure HasNumber (before : List CodeObject) (owner o : CodeObject) (number : Nat) : Prop where
  pos : 1 ≤ number
  name : o.qualifiedName = Arena.numbered (nameInside owner o.name) number
  free : o.qualifiedName ∉ before.map (·.qualifiedName)
  taken : ∀ i, 1 ≤ i → i < number →
    Arena.numbered (nameInside owner o.name) i ∈ before.map (·.qualifiedName)

def AreNumbered (objects : List CodeObject) : Prop :=
  ∀ (i : ObjectId) (o : CodeObject), objects[i + 1]? = some o →
    ∃ p owner number, o.parent = some p ∧ objects[p]? = some owner ∧
      HasNumber (objects.take (i + 1)) owner o number

theorem HasNumber.isNamedIn {before : List CodeObject} {number : Nat}
    (h : HasNumber before owner o number) : IsNamedIn owner o := by
  have hname := h.name
  rw [Arena.numbered] at hname
  split at hname
  · exact .inl hname
  · exact .inr ⟨number, hname⟩

theorem AreNumbered.areNamed (h : AreNumbered objects) : AreNamed objects := by
  intro i o ho
  obtain ⟨p, owner, number, hp, howner, hnumber⟩ := h i o ho
  exact ⟨p, owner, hp, howner, hnumber.isNamedIn⟩

/-! ### Names in an arena -/

theorem hasNumber_objectOf (a : Arena) (p : ObjectId) (owner : CodeObject) (header : Header)
    (body : List Fact) :
    ∃ number, HasNumber a.objects.toList owner (objectOf a p owner header body) number := by
  obtain ⟨number, hpos, hname, htaken⟩ :=
    a.exists_uniqueName_eq (nameInside owner header.name)
  exact ⟨number, hpos, hname, a.uniqueName_not_mem _, htaken⟩

theorem AreNumbered.push {number : Nat} (h : AreNumbered objects) (howner : objects[p]? = some owner)
    (hparent : o.parent = some p) (hnumber : HasNumber objects owner o number) :
    AreNumbered (objects ++ [o]) := by
  have hkeep : ∀ (q : ObjectId) c, objects[q]? = some c → (objects ++ [o])[q]? = some c :=
    fun q c hc => (List.getElem?_append_left (List.getElem?_eq_some_iff.1 hc).1).trans hc
  intro i c hc
  rcases Nat.lt_trichotomy (i + 1) objects.length with hlt | heq | hgt
  · rw [List.getElem?_append_left hlt] at hc
    obtain ⟨q, outer, k, hq, houter, hk⟩ := h i c hc
    rw [List.take_append_of_le_length (Nat.le_of_lt hlt)]
    exact ⟨q, outer, k, hq, hkeep q outer houter, hk⟩
  · rw [heq, List.getElem?_concat_length, Option.some_inj] at hc
    subst hc
    rw [heq, List.take_left]
    exact ⟨p, owner, number, hparent, hkeep p owner howner, hnumber⟩
  · have hlength := (List.getElem?_eq_some_iff.1 hc).1
    rw [List.length_append, List.length_singleton] at hlength
    omega

theorem Grows.getElem? {a a' : Arena} {entries : List (Header × List Fact)}
    (h : Grows a a' entries) (ho : a.objects.toList[p]? = some owner) :
    a'.objects.toList[p]? = some owner := by
  obtain ⟨added, hadded, -⟩ := h.objects
  rw [hadded]
  exact (List.getElem?_append_left (List.getElem?_eq_some_iff.1 ho).1).trans ho

mutual

/-- A fact of the body of an object adds objects that are numbered in it or in one another. -/
theorem areNumbered_addFact {p : ObjectId} {owner : CodeObject} {a : Arena} (fact : Fact)
    (h : AreNumbered a.objects.toList) (howner : a.objects.toList[p]? = some owner) :
    AreNumbered (addFact p owner a fact).objects.toList := by
  cases fact with
  | defined header body =>
    let o := objectOf a p owner header body
    let a' : Arena := { a with objects := a.objects.push o }
    have hobjects : a'.objects.toList = a.objects.toList ++ [o] := Array.toList_push
    have hnumbered : AreNumbered a'.objects.toList := by
      obtain ⟨number, hnumber⟩ := hasNumber_objectOf a p owner header body
      rw [hobjects]
      exact h.push howner rfl hnumber
    have ho : a'.objects.toList[a.objects.size]? = some o := by
      rw [hobjects]
      exact List.getElem?_concat_length
    exact areNumbered_addFacts body hnumbered ho
  | imported | called | named | assigned | returned | instanceAttribute => exact h

theorem areNumbered_addFacts {p : ObjectId} {owner : CodeObject} {a : Arena} (facts : List Fact)
    (h : AreNumbered a.objects.toList) (howner : a.objects.toList[p]? = some owner) :
    AreNumbered (addFacts p owner a facts).objects.toList := by
  cases facts with
  | nil => exact h
  | cons fact facts =>
    exact areNumbered_addFacts facts (areNumbered_addFact fact h howner)
      ((grows_addFact p owner a fact).getElem? howner)

end

/-! ### Names in a model -/

theorem AreNumbered.withChildren (h : AreNumbered objects) : AreNumbered (withChildren objects) := by
  intro i o ho
  rw [getElem?_withChildren, Option.map_eq_some_iff] at ho
  obtain ⟨o', ho', rfl⟩ := ho
  obtain ⟨p, owner, number, hp, howner, hnumber⟩ := h i o' ho'
  have houter := getElem?_withChildren objects p
  rw [howner] at houter
  have hnames : ((Extraction.withChildren objects).take (i + 1)).map (·.qualifiedName) =
      (objects.take (i + 1)).map (·.qualifiedName) := by
    rw [List.map_take, map_qualifiedName_withChildren, List.map_take]
  refine ⟨p, _, number, hp, houter, hnumber.pos, hnumber.name, ?_, ?_⟩
  · rw [hnames]
    exact hnumber.free
  · rw [hnames]
    exact hnumber.taken

theorem areNumbered_of_extract (h : extract file source = .ok m) :
    AreNumbered m.objects.toList := by
  obtain ⟨-, rfl⟩ := extract_eq_ok_iff.1 h
  rw [toList_objects_modelOf]
  refine AreNumbered.withChildren (areNumbered_addFacts _ ?_ rfl)
  intro i o ho
  cases ho

/-- The objects of a source are named in their parents. -/
theorem areNamed_of_extract (h : extract file source = .ok m) : AreNamed m.objects.toList :=
  (areNumbered_of_extract h).areNamed

theorem qualifiedName_module (h : extract file source = .ok m)
    (ho : m.get? CodeModel.moduleId = some o) : o.qualifiedName = moduleName := by
  obtain ⟨-, rfl⟩ := extract_eq_ok_iff.1 h
  obtain ⟨added, hadded, -⟩ := objects_modelOf file source.toList (Syntax.parse source.toList)
  rw [get?_eq, hadded, getElem?_withChildren, CodeModel.moduleId, List.getElem?_cons_zero,
    Option.map_some, Option.some_inj] at ho
  rw [← ho]
  rfl

theorem IsNamedIn.cases_of_plain (h : IsNamedIn owner o) (hdot : '.' ∉ o.qualifiedName.toList)
    (hnumber : '#' ∉ o.qualifiedName.toList) : owner.kind = .module ∧ o.name = o.qualifiedName := by
  rcases h with h | ⟨number, h⟩
  · rw [nameInside] at h
    split at h
    next hkind => exact ⟨hkind, h.symm⟩
    next => simp [h] at hdot
  · simp [h, Arena.candidate] at hnumber

end SourceCorpus.Extraction
