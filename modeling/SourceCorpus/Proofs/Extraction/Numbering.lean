import SourceCorpus.Graph.Resolution
import SourceCorpus.Proofs.Extraction.NameCharacters
import SourceCorpus.Proofs.Question.Templates

/-!
The numbers of definitions that share a name. Main statement: the definitions of a name directly in an
object are numbered one by one in the order of the source, whatever else is defined between them.
-/

namespace SourceCorpus.Extraction

open Syntax Tree

def isSibling (p : ObjectId) (name : String) (o : CodeObject) : Bool :=
  o.parent == some p && o.name == name

/-- The definitions of the name directly in an object are those objects, in the order of the source,
and the names tell which one each of them is. -/
structure CountsDefinitions (m : CodeModel) (p : ObjectId) (base name : String) : Prop where
  inOrder : (m.members p name).Pairwise (· < ·)
  mem_iff : ∀ i, i ∈ m.members p name ↔
    ∃ o, m.get? i = some o ∧ o.parent = some p ∧ o.name = name
  first : ∀ i, (m.members p name)[0]? = some i → (m.get? i).map (·.qualifiedName) = some base
  later : ∀ k i, (m.members p name)[k + 1]? = some i →
    (m.get? i).map (·.qualifiedName) = some (base ++ "#" ++ toString (k + 2))

/-! ### The last part of a qualified name -/

section Parts

variable {name name' : String} {number number' : Nat} {owner owner' : CodeObject}

def numberMark (number : Nat) : List Char :=
  if number ≤ 1 then [] else '#' :: Nat.toDigits 10 number

theorem toList_numbered (base : String) (number : Nat) :
    (Arena.numbered base number).toList = base.toList ++ numberMark number := by
  rw [Arena.numbered, numberMark]
  split
  · rw [List.append_nil]
  · simp [Arena.candidate]

theorem toList_nameInside (owner : CodeObject) (name : String) :
    (nameInside owner name).toList = if owner.kind = .module then name.toList
      else owner.qualifiedName.toList ++ '.' :: name.toList := by
  rw [nameInside]
  split
  · rfl
  · simp

theorem dot_not_mem_numberMark (number : Nat) : '.' ∉ numberMark number := by
  rw [numberMark]
  split
  · exact List.not_mem_nil
  · intro hmem
    rcases List.mem_cons.1 hmem with heq | hdigit
    · cases heq
    · exact absurd (Nat.isDigit_of_mem_toDigits (by decide) (by decide) hdigit) (by decide)

theorem numberMark_inj (h : 1 ≤ number) (h' : 1 ≤ number')
    (heq : numberMark number = numberMark number') : number = number' := by
  rw [numberMark, numberMark] at heq
  split at heq <;> split at heq
  · omega
  · cases heq
  · cases heq
  · exact Nat.repr_injective (String.toList_inj.1 (by simpa [Nat.toList_repr] using heq))

/-- A word and the mark behind it are told apart by the sign that the mark begins with. -/
theorem append_numberMark_inj (hname : IsWord name.toList) (hname' : IsWord name'.toList)
    (h : 1 ≤ number) (h' : 1 ≤ number')
    (heq : name.toList ++ numberMark number = name'.toList ++ numberMark number') :
    name = name' ∧ number = number' := by
  have hsign := (not_mem_of_isWord hname).2
  have hsign' := (not_mem_of_isWord hname').2
  have hparts : name.toList = name'.toList ∧ numberMark number = numberMark number' := by
    unfold numberMark at heq ⊢
    by_cases hone : number ≤ 1 <;> by_cases hone' : number' ≤ 1 <;>
      simp only [hone, hone', if_true, if_false, List.append_nil] at heq ⊢
    · exact ⟨heq, trivial⟩
    · exact absurd (heq ▸ List.mem_append_right _ List.mem_cons_self) hsign
    · exact absurd (heq ▸ List.mem_append_right _ List.mem_cons_self) hsign'
    · obtain ⟨hfront, hdigits⟩ := append_cons_inj hsign hsign' heq
      exact ⟨hfront, congrArg _ hdigits⟩
  exact ⟨String.toList_inj.1 hparts.1, numberMark_inj h h' hparts.2⟩

/-- What stands behind the last point is determined, and what stands before it. -/
theorem append_cons_inj_of_last {α : Type} {a : α} {xs ys us vs : List α} (hus : a ∉ us)
    (hvs : a ∉ vs) (h : xs ++ a :: us = ys ++ a :: vs) : xs = ys ∧ us = vs := by
  have hreverse := congrArg List.reverse h
  rw [List.reverse_append, List.reverse_cons, List.append_assoc, List.singleton_append,
    List.reverse_append, List.reverse_cons, List.append_assoc, List.singleton_append] at hreverse
  obtain ⟨hback, hfront⟩ := append_cons_inj (by simpa using hus) (by simpa using hvs) hreverse
  exact ⟨List.reverse_injective hfront, List.reverse_injective hback⟩

/-- A numbered name tells the object around its definition, the name of the definition, and its
number. -/
theorem numbered_nameInside_inj (hname : IsWord name.toList) (hname' : IsWord name'.toList)
    (h : 1 ≤ number) (h' : 1 ≤ number')
    (heq : Arena.numbered (nameInside owner name) number =
      Arena.numbered (nameInside owner' name') number') :
    (owner.kind = .module ↔ owner'.kind = .module) ∧
      (owner.kind ≠ .module → owner.qualifiedName = owner'.qualifiedName) ∧
      name = name' ∧ number = number' := by
  have hchars := congrArg String.toList heq
  rw [toList_numbered, toList_numbered, toList_nameInside, toList_nameInside] at hchars
  have hdot : '.' ∉ name.toList ++ numberMark number := by
    rw [List.mem_append, not_or]
    exact ⟨(not_mem_of_isWord hname).1, dot_not_mem_numberMark number⟩
  have hdot' : '.' ∉ name'.toList ++ numberMark number' := by
    rw [List.mem_append, not_or]
    exact ⟨(not_mem_of_isWord hname').1, dot_not_mem_numberMark number'⟩
  -- Inside the module there is no dot in the name, inside any other owner there is one.
  by_cases hmodule : owner.kind = .module <;> by_cases hmodule' : owner'.kind = .module
  · rw [if_pos hmodule, if_pos hmodule'] at hchars
    exact ⟨iff_of_true hmodule hmodule', fun hne => absurd hmodule hne,
      append_numberMark_inj hname hname' h h' hchars⟩
  · rw [if_pos hmodule, if_neg hmodule'] at hchars
    rw [hchars] at hdot
    simp at hdot
  · rw [if_neg hmodule, if_pos hmodule'] at hchars
    rw [← hchars] at hdot'
    simp at hdot'
  · rw [if_neg hmodule, if_neg hmodule', List.append_assoc, List.append_assoc, List.cons_append,
      List.cons_append] at hchars
    obtain ⟨hfront, hback⟩ := append_cons_inj_of_last hdot hdot' hchars
    exact ⟨iff_of_false hmodule hmodule', fun _ => String.toList_inj.1 hfront,
      append_numberMark_inj hname hname' h h' hback⟩

/-- The name of the module is not that of a definition. -/
theorem numbered_nameInside_ne_moduleName (hname : IsWord name.toList) :
    Arena.numbered (nameInside owner name) number ≠ moduleName := by
  intro heq
  have hchars := congrArg String.toList heq
  rw [toList_numbered, toList_nameInside] at hchars
  obtain ⟨c, cs, hcons⟩ := List.exists_cons_of_ne_nil hname.ne_nil
  split at hchars
  next =>
    rw [hcons, List.cons_append] at hchars
    have hfirst : c = '<' := (List.cons.inj hchars).1
    exact absurd (hname.continues c (hcons ▸ List.mem_cons_self)) (by rw [hfirst]; decide +kernel)
  next =>
    have hdot : '.' ∈ moduleName.toList := by
      rw [← hchars]
      simp
    exact absurd hdot (by decide)

end Parts

/-! ### Counting -/

section Counting

variable {α : Type} {P : α → Bool} {l : List α} {a : α} {i k : Nat}

theorem countP_take_lt (ha : l[i]? = some a) (hP : P a) : (l.take i).countP P < l.countP P := by
  have hnext : (l.take (i + 1)).countP P = (l.take i).countP P + 1 := by
    rw [List.take_add_one, ha, Option.toList_some, List.countP_append, List.countP_singleton,
      if_pos hP]
  have hle : (l.take (i + 1)).countP P ≤ l.countP P := (List.take_sublist _ _).countP_le
  omega

/-- Each number below the count is that of the members before some member. -/
theorem exists_of_lt_countP (h : k < l.countP P) :
    ∃ i a, l[i]? = some a ∧ P a ∧ (l.take i).countP P = k := by
  induction l generalizing k with
  | nil => exact absurd h (Nat.not_lt_zero k)
  | cons x xs ih =>
    by_cases hx : P x
    · cases k with
      | zero => exact ⟨0, x, rfl, hx, rfl⟩
      | succ k =>
        rw [List.countP_cons_of_pos hx] at h
        obtain ⟨i, a, ha, hP, hcount⟩ := ih (Nat.lt_of_succ_lt_succ h)
        exact ⟨i + 1, a, ha, hP, by rw [List.take_succ_cons, List.countP_cons_of_pos hx, hcount]⟩
    · rw [List.countP_cons_of_neg hx] at h
      obtain ⟨i, a, ha, hP, hcount⟩ := ih h
      exact ⟨i + 1, a, ha, hP, by rw [List.take_succ_cons, List.countP_cons_of_neg hx, hcount]⟩

/-- Before the place with the number, there are as many members. -/
theorem countP_take_of_getElem?_zipIdx {start : Nat}
    (h : (((l.zipIdx start).filter fun a => P a.1).map (·.2))[k]? = some (start + i)) :
    (l.take i).countP P = k := by
  induction l generalizing start i k with
  | nil => cases h
  | cons x xs ih =>
    rw [List.zipIdx_cons, List.filter_cons] at h
    have hlater : ∀ k : Nat, (((xs.zipIdx (start + 1)).filter fun a => P a.1).map (·.2))[k]? =
        some (start + i) → ∃ j, i = j + 1 ∧ start + i = start + 1 + j := by
      intro k hk
      obtain ⟨c, hc, hplace⟩ := List.mem_map.1 (List.mem_of_getElem? hk)
      have hle := List.le_snd_of_mem_zipIdx (List.mem_filter.1 hc).1
      exact ⟨i - 1, by omega, by omega⟩
    split at h
    next hx =>
      cases k with
      | zero =>
        have hi : i = 0 := by simpa using h.symm
        rw [hi]
        rfl
      | succ k =>
        rw [List.map_cons, List.getElem?_cons_succ] at h
        obtain ⟨j, rfl, hj⟩ := hlater k h
        rw [hj] at h
        rw [List.take_succ_cons, List.countP_cons_of_pos hx, ih h]
    next hx =>
      obtain ⟨j, rfl, hj⟩ := hlater k h
      rw [hj] at h
      rw [List.take_succ_cons, List.countP_cons_of_neg hx, ih h]

end Counting

/-! ### The number of a definition -/

section Models

variable {file source name : String} {m : CodeModel} {o owner : CodeObject} {p i : ObjectId}

/-- Objects that are called alike are the same, and there is only one module. -/
theorem eq_of_qualifiedName_eq (h : extract file source = .ok m) {q : ObjectId} {outer : CodeObject}
    (howner : m.objects.toList[p]? = some owner) (houter : m.objects.toList[q]? = some outer)
    (hmodule : owner.kind = .module ↔ outer.kind = .module)
    (hname : owner.kind ≠ .module → owner.qualifiedName = outer.qualifiedName) : p = q := by
  have hhierarchy := hierarchy_of_extract h
  rw [← get?_eq] at howner houter
  by_cases hkind : owner.kind = .module
  · rw [hhierarchy.module _ _ howner hkind, hhierarchy.module _ _ houter (hmodule.1 hkind)]
  · have hid := hhierarchy.name p owner howner
    rw [hname hkind, hhierarchy.name q outer houter] at hid
    exact (Option.some.inj hid).symm

/-- The number in the name of the object is one more than the number of definitions of its name that
come before it in the same object. -/
def IsCounted (objects : List CodeObject) (i : ObjectId) : Prop :=
  ∀ o p owner, objects[i]? = some o → o.parent = some p → objects[p]? = some owner →
    o.qualifiedName = Arena.numbered (nameInside owner o.name)
      ((objects.take i).countP (isSibling p o.name) + 1)

/-- As long as the numbers are counted, those that a name has taken are as many as its definitions. -/
theorem numbered_mem_iff (h : extract file source = .ok m)
    (howner : m.objects.toList[p]? = some owner) (hword : IsWord name.toList)
    (hcounted : ∀ j < i, IsCounted m.objects.toList j) (k : Nat) :
    Arena.numbered (nameInside owner name) (k + 1) ∈
        (m.objects.toList.take i).map (·.qualifiedName) ↔
      k < (m.objects.toList.take i).countP (isSibling p name) := by
  have hbefore : ∀ j c, (m.objects.toList.take i)[j]? = some c → j < i ∧
      m.objects.toList[j]? = some c ∧
      (m.objects.toList.take i).take j = m.objects.toList.take j := by
    intro j c hc
    rw [List.getElem?_take] at hc
    split at hc
    next hj => exact ⟨hj, hc, by rw [List.take_take, Nat.min_eq_left (Nat.le_of_lt hj)]⟩
    next => cases hc
  constructor
  -- An object with the name is a definition in the same object, which was counted.
  · intro hmem
    obtain ⟨c, hc, hname⟩ := List.mem_map.1 hmem
    obtain ⟨j, hj⟩ := List.getElem?_of_mem hc
    obtain ⟨hlt, hc', htake⟩ := hbefore j c hj
    cases j with
    | zero =>
      rw [qualifiedName_module h ((get?_eq m _).trans hc')] at hname
      exact absurd hname.symm (numbered_nameInside_ne_moduleName hword)
    | succ j =>
      obtain ⟨q, outer, hstands⟩ := (isNested_of_extract h).inside j c hc'
      have hword' : IsWord c.name.toList :=
        isWord_name h (List.mem_of_getElem? hc') (kind_ne_module_of_admits hstands.kind)
      rw [hcounted (j + 1) hlt c q outer hc' hstands.parent hstands.found] at hname
      obtain ⟨hmodule, hsame, hcname, hnumber⟩ := numbered_nameInside_inj hword' hword
        (Nat.le_add_left 1 _) (Nat.le_add_left 1 _) hname
      obtain rfl : q = p := eq_of_qualifiedName_eq h hstands.found howner hmodule hsame
      have hsibling : isSibling q name c := by
        rw [isSibling, hstands.parent, hcname, beq_self_eq_true, beq_self_eq_true, Bool.and_self]
      rw [← Nat.succ.inj hnumber, hcname, ← htake]
      exact countP_take_lt hj hsibling
  -- One of the definitions that are counted has the number.
  · intro hlt
    obtain ⟨j, c, hc, hsibling, hcount⟩ := exists_of_lt_countP hlt
    obtain ⟨hj, hc', htake⟩ := hbefore j c hc
    rw [isSibling, Bool.and_eq_true, beq_iff_eq, beq_iff_eq] at hsibling
    have hname := hcounted j hj c p owner hc' hsibling.1 howner
    rw [hsibling.2, ← htake, hcount] at hname
    exact List.mem_map.2 ⟨c, List.mem_of_getElem? hc, hname⟩

/-- The number of an object is the first that is free, which is that of the definitions before it. -/
theorem isCounted_of_extract (h : extract file source = .ok m) (i : ObjectId) :
    IsCounted m.objects.toList i := by
  induction i using Nat.strong_induction_on with
  | _ i ih =>
    intro o p owner ho hparent howner
    obtain ⟨_, hstands⟩ := (isNested_of_extract h).standsIn ho hparent
    obtain ⟨i, rfl⟩ := Nat.exists_eq_succ_of_ne_zero (Nat.ne_zero_of_lt hstands.lt)
    obtain ⟨q, outer, number, hq, houter, hnumber⟩ := areNumbered_of_extract h i o ho
    obtain rfl : p = q := Option.some.inj (hparent.symm.trans hq)
    obtain rfl : owner = outer := Option.some.inj (howner.symm.trans houter)
    obtain ⟨k, rfl⟩ := Nat.exists_eq_add_of_le' hnumber.pos
    have hword : IsWord o.name.toList :=
      isWord_name h (List.mem_of_getElem? ho) (kind_ne_module_of_admits hstands.kind)
    have htaken := numbered_mem_iff h howner hword ih
    have hfree : ¬k < (m.objects.toList.take (i + 1)).countP (isSibling p o.name) :=
      fun hlt => hnumber.free (hnumber.name ▸ (htaken k).2 hlt)
    have hbelow : k ≤ (m.objects.toList.take (i + 1)).countP (isSibling p o.name) := by
      cases k with
      | zero => exact Nat.zero_le _
      | succ k =>
        exact (htaken k).1 (hnumber.taken (k + 1) (Nat.le_add_left 1 k) (Nat.lt_succ_self _))
    rw [hnumber.name, Nat.le_antisymm hbelow (Nat.le_of_not_lt hfree)]

theorem mem_members_iff (h : extract file source = .ok m) (howner : m.get? p = some owner) :
    i ∈ m.members p name ↔ ∃ o, m.get? i = some o ∧ o.parent = some p ∧ o.name = name := by
  have hchildren : i ∈ owner.children ↔ ∃ o, m.get? i = some o ∧ o.parent = some p := by
    rw [get?_eq] at howner ⊢
    exact (listsChildren_of_extract h).mem_iff p owner howner i
  rw [CodeModel.members, howner, List.mem_filter, hchildren]
  constructor
  · rintro ⟨⟨o, ho, hparent⟩, hname⟩
    rw [ho, Option.any_some, beq_iff_eq] at hname
    exact ⟨o, ho, hparent, hname⟩
  · rintro ⟨o, ho, hparent, rfl⟩
    rw [ho, Option.any_some]
    exact ⟨⟨o, rfl, hparent⟩, beq_self_eq_true _⟩

theorem pairwise_members (h : extract file source = .ok m) (p : ObjectId) (name : String) :
    (m.members p name).Pairwise (· < ·) := by
  rw [CodeModel.members]
  split
  next owner howner => exact ((hierarchy_of_extract h).children p owner howner).1.filter _
  next => exact .nil

/-- The definitions of a name in an object, taken from all objects. -/
theorem members_eq (h : extract file source = .ok m) (howner : m.get? p = some owner) :
    m.members p name =
      (m.objects.toList.zipIdx.filter fun o => isSibling p name o.1).map (·.2) := by
  have hmembers := pairwise_members h p name
  have hplaces : ((m.objects.toList.zipIdx.filter fun o => isSibling p name o.1).map
      (·.2)).Pairwise (· < ·) := by
    refine List.Pairwise.sublist (List.filter_sublist.map _) ?_
    rw [List.zipIdx_map_snd]
    exact List.pairwise_lt_range' 1
  have hnodup {ids : List ObjectId} (hids : ids.Pairwise (· < ·)) : ids.Nodup :=
    hids.imp Nat.ne_of_lt
  refine List.Perm.eq_of_pairwise (fun i j _ _ hij hji => absurd hij (Nat.lt_asymm hji)) hmembers
    hplaces ((List.perm_ext_iff_of_nodup (hnodup hmembers) (hnodup hplaces)).2 fun i => ?_)
  rw [mem_members_iff h howner, get?_eq]
  simp [isSibling, List.mem_zipIdx_iff_getElem?]

/-- The definitions of a name in an object are numbered one by one, whatever else is defined between
them. -/
theorem countsDefinitions (h : extract file source = .ok m) (howner : m.get? p = some owner)
    (name : String) :
    List.Forall₂ (IsObjectOf source.toList) (owners (parse source.toList)) m.objects.toList ∧
      CountsDefinitions m p
        (if owner.kind = .module then name else owner.qualifiedName ++ "." ++ name) name := by
  have hnumber : ∀ k i, (m.members p name)[k]? = some i → (m.get? i).map (·.qualifiedName) =
      some (Arena.numbered (nameInside owner name) (k + 1)) := by
    intro k i hk
    obtain ⟨o, ho, hparent, rfl⟩ := (mem_members_iff h howner).1 (List.mem_of_getElem? hk)
    rw [members_eq h howner, ← Nat.zero_add i] at hk
    rw [ho, Option.map_some, Option.some_inj, ← countP_take_of_getElem?_zipIdx hk]
    rw [get?_eq] at ho howner
    exact isCounted_of_extract h i o p owner ho hparent howner
  refine ⟨(haveKinds_of_extract h).imp fun _ _ ho => ho.1, pairwise_members h p name,
    fun i => mem_members_iff h howner, fun i hi => hnumber 0 i hi, fun k i hk => ?_⟩
  rw [hnumber (k + 1) i hk, Arena.numbered, if_neg (by omega)]
  rfl

/-- The first of two methods of a name has a function of that name inside, and a function beside the
class has the name of the class. -/
theorem countsDefinitions_of_redefined_method :
    let source := "class C:\n    def f(self):\n        def f(): pass\n    x = 1\n" ++
      "    def f(self): pass\n    def g(self): pass\n    if x:\n        def f(self): pass\n" ++
      "def C(): pass\n"
    ∃ m owner, extract "t.py" source = .ok m ∧ m.get? 1 = some owner ∧
      List.Forall₂ (IsObjectOf source.toList) (owners (parse source.toList)) m.objects.toList ∧
      CountsDefinitions m 1 "C.f" "f" ∧ m.members 1 "f" = [2, 4, 6] ∧
      m.objects.toList.map (·.qualifiedName) =
        ["<module>", "C", "C.f", "C.f.f", "C.f#2", "C.g", "C.f#3", "C#2"] := by
  intro source
  let m := modelOf "t.py" source.toList (parse source.toList)
  obtain ⟨hproblem, howner, hmembers, hnames⟩ : (parse source.toList).hasProblem = false ∧
      (m.get? 1).map (fun o => (o.kind, o.qualifiedName)) = some (.class, "C") ∧
      m.members 1 "f" = [2, 4, 6] ∧ m.objects.toList.map (·.qualifiedName) =
        ["<module>", "C", "C.f", "C.f.f", "C.f#2", "C.g", "C.f#3", "C#2"] := by
    decide +kernel
  have hextract : extract "t.py" source = .ok m := extract_eq_ok_iff.2 ⟨hproblem, rfl⟩
  obtain ⟨owner, howner, hkind⟩ := Option.map_eq_some_iff.1 howner
  obtain ⟨hclass, hname⟩ := Prod.mk.inj hkind
  obtain ⟨hobjects, hcounts⟩ := countsDefinitions hextract howner "f"
  rw [hclass, hname] at hcounts
  exact ⟨m, owner, hextract, howner, hobjects, hcounts, hmembers, hnames⟩

end Models

end SourceCorpus.Extraction
