import Mathlib.Logic.Relation
import SourceCorpus.Proofs.Extraction.Walk
import SourceCorpus.Proofs.Extraction.Objects

/-!
How definitions are nested. Main statements: the definitions in a body are of kinds that its owner
admits, and the arena puts every object directly into one that is still open, so that no object
between the two is outside the latter.
-/

namespace SourceCorpus.Extraction

open Syntax Tree

/-! ### Kinds of definitions -/

/-- A definition in an object of the one kind may be an object of the other. -/
def Admits (owner kind : ObjectKind) : Prop :=
  kind = .class ∨ kind = if owner = .class then .method else .function

mutual

def BelongsIn (owner : ObjectKind) : Fact → Prop
  | .defined header body => Admits owner header.kind ∧ AllBelongIn header.kind body
  | _ => True

def AllBelongIn (owner : ObjectKind) : List Fact → Prop
  | [] => True
  | fact :: facts => BelongsIn owner fact ∧ AllBelongIn owner facts

end

def isAtom : Fact → Bool
  | .assigned _ | .defined .. => false
  | _ => true

/-- What holds of the facts that a node adds to those of its parts, and of facts put together from
such facts. -/
structure IsClosed (C : ObjectKind → List Fact → Prop) : Prop where
  nil : ∀ owner, C owner []
  append : ∀ {owner facts facts'}, C owner facts → C owner facts' → C owner (facts ++ facts')
  atom : ∀ {owner fact}, isAtom fact → C owner [fact]
  bound : ∀ {owner} (v : Variable), C owner [write v.name, .assigned v]
  defined : ∀ {owner header body}, Admits owner header.kind → C header.kind body →
    C owner [.defined header body]

def HoldsOf (C : ObjectKind → List Fact → Prop) (source : List Char) (t : Tree) : Prop :=
  ∀ reading place, C place.owner (factsOf source reading place t)

theorem admits_definitionKind (owner : ObjectKind) (t : Tree) :
    Admits owner (definitionKind owner t) := by
  rw [definitionKind]
  split
  · exact .inl rfl
  · exact .inr rfl

theorem kind_ne_module_of_admits {owner kind : ObjectKind} (h : Admits owner kind) :
    kind ≠ .module := by
  rcases h with rfl | rfl
  · decide
  · split <;> decide

namespace IsClosed

variable {C : ObjectKind → List Fact → Prop} (hC : IsClosed C) {source : List Char}
  {owner : ObjectKind} {facts facts' : List Fact}
include hC

theorem flatMap {α : Type} {f : α → List Fact} {parts : List α}
    (h : ∀ part ∈ parts, C owner (f part)) : C owner (parts.flatMap f) := by
  induction parts with
  | nil => exact hC.nil owner
  | cons part parts ih =>
    rw [List.forall_mem_cons] at h
    rw [List.flatMap_cons]
    exact hC.append h.1 (ih h.2)

theorem map {α : Type} {f : α → Fact} (h : ∀ a, isAtom (f a)) (l : List α) :
    C owner (l.map f) := by
  rw [List.map_eq_flatMap]
  exact hC.flatMap fun a _ => hC.atom (h a)

theorem toList_map {α : Type} {f : α → Fact} (h : ∀ a, isAtom (f a)) (o : Option α) :
    C owner (o.map f).toList := by
  rw [Option.toList_map]
  exact hC.map h _

theorem definition {header : Option Header} (hheader : ∀ h ∈ header, Admits owner h.kind)
    (hbefore : C owner facts) (hbody : ∀ h ∈ header, C h.kind facts') :
    C owner (definitionFacts header facts facts') := by
  cases header with
  | none => exact hC.nil owner
  | some header => exact hC.append hbefore (hC.defined (hheader header rfl) (hbody header rfl))

/-! The parts of a node of which it holds. -/

variable {ts : List Tree} (h : ∀ t ∈ ts, HoldsOf C source t)
include h

theorem all (reading : Reading) (place : Place) :
    C place.owner (factsOfAll source reading place ts) := by
  rw [factsOfAll_eq_flatMap]
  exact hC.flatMap fun t ht => h t ht reading place

theorem inRole (reading : Reading) (place : Place) (role : Role) :
    C place.owner (factsInRole source reading place role ts) := by
  rw [factsInRole_eq_flatMap]
  refine hC.flatMap fun t ht => ?_
  split
  · exact h t ht reading place
  · exact hC.nil _

theorem targets (b : Binding) (target : TargetKind) (place : Place) :
    C place.owner (targetFacts source b target place ts) := by
  rw [targetFacts_eq_flatMap]
  refine hC.flatMap fun t ht => ?_
  split
  · exact h t ht _ place
  · split
    · exact h t ht _ place
    · exact hC.nil _

theorem aliases (place : Place) : C place.owner (aliasFacts source place ts) := by
  rw [aliasFacts_eq_flatMap]
  exact hC.flatMap fun t ht => h t ht _ place

theorem first (place : Place) : C place.owner (firstFacts source place ts) := by
  rw [firstFacts_eq]
  cases hfirst : (withoutComments ts).head? with
  | none => exact hC.nil _
  | some t => exact h t (List.mem_filter.1 (List.mem_of_head? hfirst)).1 .value place

theorem loop (place : Place) :
    C place.owner
      (factsInRole source .bound place .left ts ++ factsInRole source .value place .right ts ++
        factsInRole source .value place .body ts ++
        factsInRole source .value place .alternative ts) :=
  hC.append (hC.append (hC.append (hC.inRole h .bound place .left)
    (hC.inRole h .value place .right)) (hC.inRole h .value place .body))
    (hC.inRole h .value place .alternative)

variable {kind : Kind} {role : Option Role} {extent : Extent}

theorem value {reading : Reading} (hreading : reading.at kind = .value) (place : Place) :
    C place.owner (factsOf source reading place (.node kind role extent ts)) := by
  have hall := hC.all h
  have hrole := hC.inRole h
  simp only [factsOf, hreading]
  cases kind
  case comment | globalStatement | nonlocalStatement => exact hC.nil _
  case decoratedDefinition => exact hC.append (hall .decorator place) (hrole _ place .definition)
  case importStatement | importFromStatement | futureImportStatement =>
    exact hC.map (fun _ => rfl) _
  case call | returnStatement =>
    exact hC.append (hC.toList_map (fun _ => rfl) _) (hall .value place)
  case identifier => exact hC.atom rfl
  case memberAccess => exact hrole .value place .object
  case keywordArgument => exact hrole .value place .value
  case lambda => exact hrole .value place .body
  case namedExpression =>
    exact hC.append (hC.toList_map (fun _ => rfl) _) (hrole .value place .value)
  case asPattern => exact hC.aliases h place
  case assignment =>
    exact hC.append (hrole .rightSide place .right) (hC.targets h _ _ place)
  case augmentedAssignment =>
    exact hC.append (hC.append (hrole .value place .right) (hC.map (fun _ => rfl) _))
      (hrole _ place .left)
  case forStatement => exact hC.loop h place.branch
  case forInClause => exact hC.loop h place
  case ifStatement | whileStatement | tryStatement | withStatement | matchStatement =>
    exact hall .value place.branch
  all_goals exact hall .value place

theorem node : HoldsOf C source (.node kind role extent ts) := by
  have hall := hC.all h
  have hrole := hC.inRole h
  intro reading place
  -- One case for each capacity that the node is read in; children are read by the induction
  -- hypotheses.
  cases hreading : reading.at kind with
  | value => exact hC.value h hreading place
  | bound =>
    simp only [factsOf, hreading]
    split
    · exact hC.atom rfl
    · exact hall .bound place
  | rightSide =>
    simp only [factsOf, hreading]
    exact hrole .rightSide place .right
  | chain b target =>
    simp only [factsOf, hreading]
    split
    · exact hC.targets h b target place
    · exact hC.nil _
  | assigned b target =>
    simp only [factsOf, hreading]
    split
    · exact hC.bound (b.bound _ target)
    · exact hall _ place
    · exact hall _ place
    · exact hC.append (hC.toList_map (fun _ => rfl) _) (hrole .value place .object)
    · exact hall _ place
  | decorator =>
    simp only [factsOf, hreading]
    split
    · exact hC.first h place
    · exact hC.nil _
  | definition decorators =>
    simp only [factsOf, hreading]
    refine hC.definition (fun header hheader => ?_) ?_ fun header hheader => ?_
    · obtain ⟨name, -, rfl⟩ := Option.map_eq_some_iff.1 hheader
      exact admits_definitionKind place.owner _
    · exact hC.append (hall .defaults place) (hrole .value place .superclasses)
    · rw [Option.mem_def] at hheader
      rw [hheader]
      exact hrole .body (place.inside (some header)) .body
  | defaults =>
    simp only [factsOf, hreading]
    split
    · exact hall .defaults place
    · exact hrole .value place .value
    · exact hrole .value place .value
    · exact hC.nil _
  | body =>
    simp only [factsOf, hreading]
    exact hall .value place

omit h in
theorem holdsOf (t : Tree) : HoldsOf C source t := by
  induction t using Tree.induction with
  | node kind role extent children ih => exact hC.node ih
  | error => exact fun _ _ => hC.nil _
  | missing => exact fun _ _ => hC.nil _

end IsClosed

theorem allBelongIn_append {owner : ObjectKind} {facts facts' : List Fact}
    (h : AllBelongIn owner facts) (h' : AllBelongIn owner facts') :
    AllBelongIn owner (facts ++ facts') := by
  induction facts with
  | nil => exact h'
  | cons fact facts ih => exact ⟨h.1, ih h.2⟩

theorem isClosed_allBelongIn : IsClosed AllBelongIn where
  nil _ := trivial
  append := allBelongIn_append
  atom := fun {_ fact} h => by cases fact <;> first | exact ⟨trivial, trivial⟩ | cases h
  bound _ := ⟨trivial, trivial, trivial⟩
  defined hkind hbody := ⟨⟨hkind, hbody⟩, trivial⟩

/-! ### Objects inside objects -/

/-- The object stands directly in the other one, and all objects between the two are inside that
one as well. -/
structure StandsIn (objects : List CodeObject) (p : ObjectId) (owner : CodeObject) (i : ObjectId)
    (o : CodeObject) : Prop where
  parent : o.parent = some p
  found : objects[p]? = some owner
  lt : p < i
  depth : o.depth = owner.depth + 1
  kind : Admits owner.kind o.kind
  between : ∀ k c, p < k → k < i → objects[k]? = some c → owner.depth < c.depth

structure IsNested (objects : List CodeObject) : Prop where
  module : ∃ o, objects[0]? = some o ∧ o.kind = .module ∧ o.parent = none ∧ o.depth = 0
  inside : ∀ i o, objects[i + 1]? = some o → ∃ p owner, StandsIn objects p owner (i + 1) o

/-- All objects from this one on are inside it. -/
structure IsOpen (objects : List CodeObject) (p : ObjectId) (owner : CodeObject) : Prop where
  found : objects[p]? = some owner
  after : ∀ k c, p < k → objects[k]? = some c → owner.depth < c.depth

section Objects

variable {objects added : List CodeObject} {p i : ObjectId} {owner o : CodeObject}

theorem StandsIn.append (h : StandsIn objects p owner i o) (hi : i ≤ objects.length)
    (added : List CodeObject) : StandsIn (objects ++ added) p owner i o := by
  refine ⟨h.parent, ?_, h.lt, h.depth, h.kind, fun k c hk hki hc => h.between k c hk hki ?_⟩
  · rw [List.getElem?_append_left (Nat.lt_of_lt_of_le h.lt hi)]
    exact h.found
  · rwa [List.getElem?_append_left (Nat.lt_of_lt_of_le hki hi)] at hc

theorem IsOpen.append (h : IsOpen objects p owner) (hadded : ∀ c ∈ added, owner.depth < c.depth) :
    IsOpen (objects ++ added) p owner := by
  have hp : p < objects.length := (List.getElem?_eq_some_iff.1 h.found).1
  refine ⟨?_, fun k c hk hc => ?_⟩
  · rw [List.getElem?_append_left hp]
    exact h.found
  · by_cases hlt : k < objects.length
    · rw [List.getElem?_append_left hlt] at hc
      exact h.after k c hk hc
    · rw [List.getElem?_append_right (Nat.not_lt.1 hlt)] at hc
      exact hadded c (List.mem_of_getElem? hc)

/-- The object at the end is open. -/
theorem isOpen_last (objects : List CodeObject) (o : CodeObject) :
    IsOpen (objects ++ [o]) objects.length o := by
  refine ⟨List.getElem?_concat_length, fun k c hk hc => ?_⟩
  have hlt := (List.getElem?_eq_some_iff.1 hc).1
  rw [List.length_append, List.length_singleton] at hlt
  exact absurd hk (Nat.not_lt.2 (Nat.le_of_lt_succ hlt))

/-- An object is put into an open one. -/
theorem IsNested.push (h : IsNested objects) (hopen : IsOpen objects p owner)
    (hparent : o.parent = some p) (hdepth : o.depth = owner.depth + 1)
    (hkind : Admits owner.kind o.kind) : IsNested (objects ++ [o]) := by
  have hp : p < objects.length := (List.getElem?_eq_some_iff.1 hopen.found).1
  refine ⟨?_, fun i c hc => ?_⟩
  -- The old objects are where they were.
  · obtain ⟨m, hm, hmodule⟩ := h.module
    have hlength := (List.getElem?_eq_some_iff.1 hm).1
    refine ⟨m, ?_, hmodule⟩
    rwa [List.getElem?_append_left hlength]
  · have hlt := (List.getElem?_eq_some_iff.1 hc).1
    rw [List.length_append, List.length_singleton, Nat.lt_succ_iff] at hlt
    rcases Nat.lt_or_eq_of_le hlt with hlt | heq
    · rw [List.getElem?_append_left hlt] at hc
      obtain ⟨q, outer, hstands⟩ := h.inside i c hc
      exact ⟨q, outer, hstands.append (Nat.le_of_lt hlt) [o]⟩
    · rw [heq, List.getElem?_concat_length, Option.some_inj] at hc
      subst hc
      have hall : StandsIn objects p owner objects.length o :=
        ⟨hparent, hopen.found, hp, hdepth, hkind, fun k c hk _ => hopen.after k c hk⟩
      rw [heq]
      exact ⟨p, owner, hall.append (Nat.le_refl _) [o]⟩

end Objects

structure Deepens (depth : Nat) (a a' : Arena) : Prop where
  objects : ∃ added, a'.objects.toList = a.objects.toList ++ added ∧ ∀ c ∈ added, depth < c.depth
  isNested : IsNested a'.objects.toList

theorem Deepens.of_objects_eq {depth : Nat} {a a' : Arena} (h : a'.objects = a.objects)
    (hnested : IsNested a.objects.toList) : Deepens depth a a' := by
  refine ⟨⟨[], ?_, List.forall_mem_nil _⟩, ?_⟩
  · rw [h, List.append_nil]
  · rwa [h]

theorem Deepens.trans {depth : Nat} {a a' a'' : Arena} (h : Deepens depth a a')
    (h' : Deepens depth a' a'') : Deepens depth a a'' := by
  obtain ⟨added, hadded, hdeeper⟩ := h.objects
  obtain ⟨added', hadded', hdeeper'⟩ := h'.objects
  refine ⟨⟨added ++ added', ?_, ?_⟩, h'.isNested⟩
  · rw [hadded', hadded, List.append_assoc]
  · rw [List.forall_mem_append]
    exact ⟨hdeeper, hdeeper'⟩

theorem Deepens.isOpen {a a' : Arena} {p : ObjectId} {owner : CodeObject}
    (h : Deepens owner.depth a a') (hopen : IsOpen a.objects.toList p owner) :
    IsOpen a'.objects.toList p owner := by
  obtain ⟨added, hadded, hdeeper⟩ := h.objects
  rw [hadded]
  exact hopen.append hdeeper

theorem Deepens.mono {depth depth' : Nat} {a a' : Arena} (h : Deepens depth' a a')
    (hle : depth ≤ depth') : Deepens depth a a' := by
  obtain ⟨added, hadded, hdeeper⟩ := h.objects
  exact ⟨⟨added, hadded, fun c hc => Nat.lt_of_le_of_lt hle (hdeeper c hc)⟩, h.isNested⟩

mutual

/-- A fact of the body of an open object adds objects inside that one. -/
theorem deepens_addFact {p : ObjectId} {owner : CodeObject} {a : Arena} (fact : Fact)
    (hfact : BelongsIn owner.kind fact) (hnested : IsNested a.objects.toList)
    (hopen : IsOpen a.objects.toList p owner) :
    Deepens owner.depth a (addFact p owner a fact) := by
  cases fact with
  | defined header body =>
    let o := objectOf a p owner header body
    let a' : Arena := { a with objects := a.objects.push o }
    have hkind : o.kind = header.kind := kind_payloadOf header body
    have hobjects : a'.objects.toList = a.objects.toList ++ [o] := Array.toList_push
    -- The new object stands in the open one, and is open itself while its body is added.
    have hpush : Deepens owner.depth a a' := by
      refine ⟨⟨[o], hobjects, List.forall_mem_singleton.2 (Nat.lt_succ_self _)⟩, ?_⟩
      rw [hobjects]
      refine hnested.push hopen rfl rfl ?_
      rw [hkind]
      exact hfact.1
    have hbody : Deepens o.depth a' (addFacts a.objects.size o a' body) := by
      refine deepens_addFacts body ?_ hpush.isNested ?_
      · rw [hkind]
        exact hfact.2
      · rw [hobjects]
        exact isOpen_last _ o
    exact hpush.trans (hbody.mono (Nat.le_succ _))
  | imported statement => exact .of_objects_eq rfl hnested
  | called | named | assigned | returned | instanceAttribute => exact .of_objects_eq rfl hnested

theorem deepens_addFacts {p : ObjectId} {owner : CodeObject} {a : Arena} (facts : List Fact)
    (hfacts : AllBelongIn owner.kind facts) (hnested : IsNested a.objects.toList)
    (hopen : IsOpen a.objects.toList p owner) :
    Deepens owner.depth a (addFacts p owner a facts) := by
  cases facts with
  | nil => exact .of_objects_eq rfl hnested
  | cons fact facts =>
    have hfact := deepens_addFact fact hfacts.1 hnested hopen
    exact hfact.trans (deepens_addFacts facts hfacts.2 hfact.isNested (hfact.isOpen hopen))

end

end SourceCorpus.Extraction
