import SourceCorpus.Proofs.Extraction.Calls
import SourceCorpus.Proofs.Extraction.Declarations
import SourceCorpus.Proofs.Order.FirstOccurrences

/-!
The attributes that methods bind on their instance. Main statement: a class lists them once each, in
the order in which they are bound first, exactly if what loops and aliases bind is assigned as well,
and not behind another attribute that it is bound before.
-/

namespace SourceCorpus.Extraction

open Syntax Tree

/-! ### What methods bind -/

/-- The targets that are bound by the step: on the left of an assignment, a loop or a comprehension,
or behind an alias. -/
def boundTargets (step : Tree × Tree) : List Tree :=
  match step.1.kind? with
  | some .assignment | some .augmentedAssignment | some .forStatement | some .forInClause =>
    if step.2.hasRole .left then [step.2] else []
  | some .asPattern => if step.2.isKind .asPatternTarget then step.2.children else []
  | _ => []

def assignedTargets (step : Tree × Tree) : List Tree :=
  if step.1.isAssignment && step.2.hasRole .left then [step.2] else []

def firstParameter? (definition : Tree) : Option Tree :=
  (definition.child? .parameters).bind fun parameters =>
    parameters.children.find? fun t => !t.isTrivia && !t.isKind .positionalSeparator

def positionalName? (source : List Char) (t : Tree) : Option String :=
  let name? : Option Tree :=
    match t.kind? with
    | some .identifier => some t
    | some .typedParameter => t.children.head?
    | some .defaultParameter | some .typedDefaultParameter => t.child? .name
    | _ => none
  (name?.filter (·.isKind .identifier)).map (·.text source)

def isUnbinding (source : List Char) (decorator : Tree) : Bool :=
  (decorator.children.find? fun t => !t.isTrivia).any fun expression =>
    expression.text source == "staticmethod" || expression.text source == "classmethod"

/-- The name of the instance in the method that the step leads to. -/
def receiver? (source : List Char) (method : Tree × Tree) : Option String :=
  if (decoratorsIn method.1).any (isUnbinding source) then none
  else (firstParameter? method.2).bind (positionalName? source)

def recordedReceiver? (source : List Char) (method : Tree × Tree) : Option String :=
  (headerOf? source .class ((decoratorsIn method.1).filterMap (decoratorText? source))
    method.2).bind (selfNameOf? .class)

def methodsOf (cls : Tree) : List (Tree × Tree) :=
  (ownSteps cls).filter (·.2.isKind .functionDefinition)

def isWrapper (t : Tree) : Bool :=
  t.isKind .parenthesizedExpression || t.isKind .listSplat || t.isKind .listSplatPattern

/-- The object is the name, in brackets or not. In `*p.a` the star may stand with the object: it
applies to the whole target all the same. -/
def standsFor (source : List Char) (name : String) (object : Tree) : Bool :=
  (object.preorder.find? fun t => !t.isTrivia && !isWrapper t).any (isSpelled source name)

def membersIn (source : List Char) (targets : Tree × Tree → List Tree)
    (stands : String → Tree → Bool) (receiver : Option String) (definition : Tree) : List String :=
  match receiver with
  | some name => ((ownSteps definition).flatMap targets).flatMap (boundMembers source (stands name))
  | none => []

/-- The attributes of the instance that methods of the class bind in any way, method by method. -/
def boundAttributes (source : List Char) (cls : Tree) : List String :=
  (methodsOf cls).flatMap fun method =>
    membersIn source boundTargets (standsFor source) (receiver? source method) method.2

def assignedMembers (source : List Char) (receiver : Option String) (definition : Tree) :
    List String := membersIn source assignedTargets (isSpelled source) receiver definition

def assignedAttributes (source : List Char) (cls : Tree) : List String :=
  (methodsOf cls).flatMap fun method =>
    assignedMembers source (recordedReceiver? source method) method.2

/-- The object is that of the owner, and if it is a class then it lists the attributes that are bound
on its instance. -/
structure ListsInstanceAttributes (source : List Char) (owner : Tree) (o : CodeObject) : Prop where
  object : IsObjectOf source owner o
  isClass : o.kind = .class ↔ owner.isKind .classDefinition
  attributes : ∀ data, o.payload = .class data →
    ListsFirst data.instanceAttributes (boundAttributes source owner)

def AssignsItsAttributes (source : List Char) (cls : Tree) : Prop :=
  firstOccurrences (assignedAttributes source cls) = firstOccurrences (boundAttributes source cls)

instance (source : List Char) (cls : Tree) : Decidable (AssignsItsAttributes source cls) :=
  inferInstanceAs (Decidable (_ = _))

variable {source : List Char} {place : Place} {facts : List Fact} {d cls : Tree}

/-! ### Declarations in bodies -/

theorem instanceAttributesIn_declarationsIn (facts : List Fact) :
    instanceAttributesIn (declarationsIn facts) = instanceAttributesIn facts := by
  rw [instanceAttributesIn, declarationsIn, List.filterMap_filter]
  refine List.filterMap_congr fun fact _ => ?_
  cases fact <;> rfl

theorem memberAttributesIn_declarationsIn (facts : List Fact) :
    memberAttributesIn (declarationsIn facts) = memberAttributesIn facts := by
  refine (flatMap_eq_of_filter fun fact _ hfact => ?_).symm
  cases fact <;> first | rfl | cases hfact

/-- The body of a definition declares what the steps in it do. -/
theorem declarationsIn_body (h : Shaped d) (hchains : d.HasPlainChains) (hdefinition : d.isDefinition)
    (place : Place) :
    declarationsIn (factsInRole source .body place .body d.children) =
      (ownSteps d).flatMap (declaredBy source place) := by
  rw [ownSteps, regionOf, if_pos hdefinition, List.flatMap_assoc, factsInRole_eq_flatMap,
    flatMap_eq_of_filter fun c _ hrole => if_neg (Bool.eq_false_iff.1 hrole), declarationsIn_flatMap]
  refine List.flatMap_congr fun c hc => ?_
  obtain ⟨hc, hrole⟩ := List.mem_filter.1 hc
  rw [if_pos hrole]
  cases h with
  | node fits complete shaped =>
    have hblock : c.isKind .block := isKind_block_of_fits hdefinition (fits c hc) hrole
    have hwalked : DeclaresWalked source c := .of_shaped (shaped c hc)
      (hchains.of_mem_preorder (mem_preorder_of_mem_children hc (self_mem_preorder c)))
    have hbody : factsOf source .body place c = factsOf source .value place c := by
      cases c with
      | node kind role extent children =>
        rw [isKind_node, beq_iff_eq] at hblock
        subst hblock
        rfl
      | error => cases hblock
      | missing => cases hblock
    have hnone : c.isDefinition = false := by
      rw [isKind, beq_iff_eq] at hblock
      rw [isDefinition, hblock]
      rfl
    have hvalue : declarationsIn (factsOf source .value place c) = _ := hwalked.value place
    rw [hbody, hvalue, definedBy_eq_nil hnone]
    rfl

theorem instanceAttributesIn_definedBy (decorators : List String) (t : Tree) :
    instanceAttributesIn (definedBy source place decorators t) = [] := by
  rw [definedBy]
  split
  · cases headerOf? source place.owner decorators t <;> rfl
  · rfl

theorem instanceAttributesIn_map (names : List String) :
    instanceAttributesIn (names.map .instanceAttribute) = names := by
  induction names with
  | nil => rfl
  | cons name names ih => exact congrArg (name :: ·) ih

theorem instanceAttributesIn_append (facts facts' : List Fact) :
    instanceAttributesIn (facts ++ facts') =
      instanceAttributesIn facts ++ instanceAttributesIn facts' := List.filterMap_append

/-- A body assigns on the instance what the targets of its assignments do. -/
theorem instanceAttributesIn_body (h : Shaped d) (hchains : d.HasPlainChains)
    (hdefinition : d.isDefinition) (place : Place) :
    instanceAttributesIn (factsInRole source .body place .body d.children) =
      assignedMembers source place.selfName d := by
  have hstep (step : Tree × Tree) : instanceAttributesIn (declaredBy source place step) =
      match place.selfName with
      | some receiver => (assignedTargets step).flatMap (boundMembers source (isSpelled source receiver))
      | none => [] := by
    rw [declaredBy, instanceAttributesIn_append, instanceAttributesIn_definedBy, List.nil_append,
      assignedTargets]
    unfold assignedBy
    cases place.selfName with
    | none => split <;> rfl
    | some receiver =>
      dsimp only
      split
      · rw [List.flatMap_singleton, instanceAttributesIn_map]
      · rfl
  rw [← instanceAttributesIn_declarationsIn, declarationsIn_body h hchains hdefinition]
  unfold assignedMembers membersIn
  rw [instanceAttributesIn, List.filterMap_flatMap]
  change ((ownSteps d).flatMap fun step => instanceAttributesIn (declaredBy source place step)) = _
  simp only [hstep]
  cases place.selfName with
  | none => simp
  | some receiver => exact List.flatMap_assoc.symm

/-! ### Classes -/

theorem kind_headerOf? {owner : ObjectKind} {decorators : List String} {header : Header}
    (h : headerOf? source owner decorators d = some header) :
    header.kind = definitionKind owner d := by
  obtain ⟨name, -, rfl⟩ := Option.map_eq_some_iff.1 h
  rfl

theorem selfNameOf?_eq_none {owner : ObjectKind} {header : Header} (h : header.kind = .class) :
    selfNameOf? owner header = none := by
  rw [selfNameOf?, if_neg fun hmethod => hmethod.1 h]

theorem recordedReceiver?_eq_none {step : Tree × Tree} (h : step.2.isKind .classDefinition) :
    recordedReceiver? source step = none := by
  rw [recordedReceiver?, Option.bind_eq_none_iff]
  intro header hheader
  exact selfNameOf?_eq_none ((kind_headerOf? hheader).trans (definitionKind_eq_class_iff.2 h))

theorem memberAttributesIn_append (facts facts' : List Fact) :
    memberAttributesIn (facts ++ facts') = memberAttributesIn facts ++ memberAttributesIn facts' :=
  List.flatMap_append

theorem memberAttributesIn_assignedBy (target : Tree) :
    memberAttributesIn (assignedBy source place target) = [] := by
  unfold assignedBy
  split
  · rw [memberAttributesIn, List.flatMap_map, List.flatMap_eq_nil_iff]
    exact fun _ _ => rfl
  · rfl

theorem isDefinition_iff {t : Tree} :
    t.isDefinition ↔ t.isKind .functionDefinition ∨ t.isKind .classDefinition := by
  rw [isDefinition, isKind, isKind]
  cases t.kind? with
  | none => decide
  | some kind => cases kind <;> decide

/-- A definition in the body of a class contributes what it assigns on its instance. -/
theorem memberAttributesIn_definedBy {step : Tree × Tree} (h : Shaped step.2)
    (hchains : step.2.HasPlainChains) (howner : place.owner = .class)
    (hdefinition : step.2.isDefinition) :
    memberAttributesIn (definedBy source place
        ((decoratorsIn step.1).filterMap (decoratorText? source)) step.2) =
      assignedMembers source (recordedReceiver? source step) step.2 := by
  rw [definedBy, if_pos hdefinition, recordedReceiver?, howner]
  cases headerOf? source .class ((decoratorsIn step.1).filterMap (decoratorText? source)) step.2 with
  | none => rfl
  | some header =>
    rw [Option.bind_some, ← howner]
    exact (List.append_nil _).trans (instanceAttributesIn_body h hchains hdefinition _)

theorem memberAttributesIn_declaredBy {step : Tree × Tree} (h : Shaped step.2)
    (hchains : step.2.HasPlainChains) (howner : place.owner = .class) :
    memberAttributesIn (declaredBy source place step) =
      if step.2.isKind .functionDefinition then
        assignedMembers source (recordedReceiver? source step) step.2
      else [] := by
  have hassigned : memberAttributesIn (if step.1.isAssignment && step.2.hasRole .left then
      assignedBy source place step.2 else []) = [] := by
    split
    · exact memberAttributesIn_assignedBy step.2
    · rfl
  rw [declaredBy, memberAttributesIn_append, hassigned, List.append_nil]
  by_cases hdefinition : step.2.isDefinition
  · rw [memberAttributesIn_definedBy h hchains howner hdefinition]
    split
    · rfl
    next hfunction =>
      have hclass := (isDefinition_iff.1 hdefinition).resolve_left hfunction
      rw [recordedReceiver?_eq_none hclass]
      rfl
  · have hfunction : ¬step.2.isKind .functionDefinition := fun h =>
      hdefinition (isDefinition_iff.2 (.inl h))
    rw [definedBy_eq_nil (Bool.eq_false_iff.2 hdefinition), if_neg hfunction]
    rfl

theorem mem_preorder_of_mem_ownSteps {step : Tree × Tree} (hdefinition : d.isDefinition)
    (h : step ∈ ownSteps d) : step.2 ∈ d.preorder := by
  rw [ownSteps, regionOf, if_pos hdefinition] at h
  obtain ⟨c, hc, hstep⟩ := List.mem_flatMap.1 h
  exact mem_preorder_of_mem_children (List.mem_filter.1 hc).1 (mem_preorder_of_mem_stepsIn hstep)

/-- The body of a class tells what its methods assign on their instance. -/
theorem memberAttributesIn_body (h : Shaped cls) (hchains : cls.HasPlainChains)
    (hdefinition : cls.isDefinition) (howner : place.owner = .class) :
    memberAttributesIn (factsInRole source .body place .body cls.children) =
      assignedAttributes source cls := by
  rw [← memberAttributesIn_declarationsIn, declarationsIn_body h hchains hdefinition,
    memberAttributesIn, List.flatMap_assoc, assignedAttributes, methodsOf]
  change ((ownSteps cls).flatMap fun step => memberAttributesIn (declaredBy source place step)) = _
  have hstep {step : Tree × Tree} (hmem : step ∈ ownSteps cls) :
      memberAttributesIn (declaredBy source place step) = _ :=
    memberAttributesIn_declaredBy
      (h.of_mem_preorder (mem_preorder_of_mem_ownSteps hdefinition hmem))
      (hchains.of_mem_preorder (mem_preorder_of_mem_ownSteps hdefinition hmem)) howner
  rw [flatMap_eq_of_filter fun step hmem hfunction =>
    (hstep hmem).trans (if_neg (Bool.eq_false_iff.1 hfunction))]
  refine List.flatMap_congr fun step hmem => ?_
  obtain ⟨hmem, hfunction⟩ := List.mem_filter.1 hmem
  rw [hstep hmem, if_pos hfunction]

/-! ### Objects -/

structure ListsAssigned (source : List Char) (owner : Tree) (o : CodeObject) : Prop where
  isClass : o.kind = .class ↔ owner.isKind .classDefinition
  attributes : owner.HasPlainChains → ∀ data, o.payload = .class data →
    data.instanceAttributes = firstOccurrences (assignedAttributes source owner)

theorem listsAssigned_of_represents {entry : Header × List Fact} {d : Tree} {o : CodeObject}
    (hshaped : Shaped d) (h : Describes source entry d) (ho : Represents entry o) :
    ListsAssigned source d o := by
  have hkind : o.kind = entry.1.kind := by
    rw [CodeObject.kind, ho.payload, kind_payloadOf]
  refine ⟨by rw [hkind, h.isClass], fun hchains data hdata => ?_⟩
  have hclass : entry.1.kind = .class := by
    rw [← hkind, CodeObject.kind, hdata]
    rfl
  obtain ⟨place, decorators, -, hbody⟩ := h.origin
  have hmembers : memberAttributesIn
      (factsInRole source .body (place.inside (some entry.1)) .body d.children) = _ :=
    memberAttributesIn_body hshaped hchains h.isDefinition hclass
  have hpayload : payloadOf entry.1 entry.2 = .class data := ho.payload.symm.trans hdata
  rw [payloadOf, hclass] at hpayload
  cases hpayload
  rw [hbody, hmembers]

theorem listsAssigned_modelOf {tree : Tree} (file : String) (h : IsStatement tree)
    (hmodule : tree.isKind .module) :
    List.Forall₂ (ListsAssigned source) (owners tree) (modelOf file source tree).objects.toList := by
  refine forall₂_owners_modelOf file h hmodule (fun _ _ _ ho => ⟨ho.isClass, ho.attributes⟩) ?_
    fun _ _ _ => listsAssigned_of_represents
  have hno : ¬tree.isKind .classDefinition := by
    rw [isKind, beq_iff_eq] at hmodule
    simp [isKind, hmodule]
  refine ⟨iff_of_false (fun hkind => ?_) hno, fun _ data hdata => ?_⟩
  · cases hkind
  · cases hdata

theorem listsInstanceAttributes_iff_assigns {owner : Tree} {o : CodeObject}
    (hobject : IsObjectOf source owner o) (hassigned : ListsAssigned source owner o)
    (hchains : owner.HasPlainChains) :
    ListsInstanceAttributes source owner o ↔
      (owner.isKind .classDefinition → AssignsItsAttributes source owner) := by
  constructor
  · intro h hclass
    obtain ⟨data, hdata⟩ : ∃ data, o.payload = .class data := by
      have hkind := hassigned.isClass.2 hclass
      rw [CodeObject.kind] at hkind
      cases hpayload : o.payload with
      | «class» data => exact ⟨data, rfl⟩
      | _ =>
        rw [hpayload] at hkind
        cases hkind
    have hlist := listsFirst_iff.1 (h.attributes data hdata)
    exact (hassigned.attributes hchains data hdata).symm.trans hlist
  · intro h
    refine ⟨hobject, hassigned.isClass, fun data hdata => listsFirst_iff.2 ?_⟩
    have hclass : owner.isKind .classDefinition := by
      rw [← hassigned.isClass, CodeObject.kind, hdata]
      rfl
    exact (hassigned.attributes hchains data hdata).trans (h hclass)

def instanceAttributesOf (o : CodeObject) : List String :=
  match o.payload with
  | .class data => data.instanceAttributes
  | _ => []

def attributesToList (source : List Char) (owner : Tree) : List String :=
  if owner.isKind .classDefinition then firstOccurrences (boundAttributes source owner) else []

theorem ListsInstanceAttributes.instanceAttributesOf_eq {owner : Tree} {o : CodeObject}
    (h : ListsInstanceAttributes source owner o) :
    instanceAttributesOf o = attributesToList source owner := by
  have hclass : o.payload.kind = .class ↔ owner.isKind .classDefinition := h.isClass
  unfold instanceAttributesOf
  rw [attributesToList]
  cases hpayload : o.payload with
  | «class» data =>
    rw [if_pos (hclass.1 (by rw [hpayload]; rfl))]
    exact listsFirst_iff.1 (h.attributes data hpayload)
  | _ =>
    rw [hpayload] at hclass
    rw [if_neg fun hkind => nomatch hclass.2 hkind]

/-- Every class lists the attributes that its methods bind on their instance, once each and in the
order of their first occurrences, exactly if assignments alone list them so. Left out are sources in
which an augmented assignment is chained with another one, such as `x = y += 1`: the grammar takes them,
but the language does not. -/
theorem listsInstanceAttributes_iff {file source : String} {m : CodeModel}
    (h : extract file source = .ok m) (hchains : (parse source.toList).HasPlainChains) :
    List.Forall₂ (ListsInstanceAttributes source.toList) (owners (parse source.toList))
        m.objects.toList ↔
      ∀ owner ∈ owners (parse source.toList), owner.isKind .classDefinition →
        AssignsItsAttributes source.toList owner := by
  let tree := parse source.toList
  obtain ⟨hproblem, hm⟩ := extract_eq_ok_iff.1 h
  obtain ⟨hstatement, hmodule⟩ := isStatement_parse hproblem
  subst hm
  have hcalls : RecordsCalls isRecorded source.toList tree
      (modelOf file source.toList tree).objects.toList :=
    recordsCalls_modelOf file hstatement hmodule
  have hrecorded : List.Forall₂ _ (owners tree) (modelOf file source.toList tree).objects.toList :=
    .mp (fun _ _ ho hassigned => And.intro ho.1 hassigned) hcalls
      (listsAssigned_modelOf file hstatement hmodule)
  exact forall₂_congr_left hrecorded fun owner howner o ho =>
    listsInstanceAttributes_iff_assigns ho.1 ho.2
      (hchains.of_mem_preorder (mem_preorder_of_mem_owners howner))

/-- Targets of assignments in several forms, beside those of another object, of a nested definition
and of a method without an instance. -/
theorem listsInstanceAttributes_of_assignments :
    let source := "class C:\n" ++
      "    def f(self, xs):\n" ++
      "        self.a = (self.b, [*self.c, xs.n]), self.n[0] = xs\n" ++
      "        for self.a in xs: self.d: T = 0\n" ++
      "        def g(): self.n = 0\n" ++
      "    @staticmethod\n" ++
      "    def s(self): self.n = 0\n" ++
      "    def m(this): this.e += 1\n"
    ∃ m, extract "t.py" source = .ok m ∧ (parse source.toList).HasPlainChains ∧
      List.Forall₂ (ListsInstanceAttributes source.toList) (owners (parse source.toList))
        m.objects.toList ∧
      (owners (parse source.toList)).map (attributesToList source.toList) =
        [[], ["a", "b", "c", "d", "e"], [], [], [], []] := by
  intro source
  have hall : (parse source.toList).hasProblem = false ∧ (parse source.toList).HasPlainChains ∧
      (∀ owner ∈ owners (parse source.toList), owner.isKind .classDefinition →
        AssignsItsAttributes source.toList owner) ∧
      (owners (parse source.toList)).map (attributesToList source.toList) =
        [[], ["a", "b", "c", "d", "e"], [], [], [], []] := by decide +kernel
  obtain ⟨hproblem, hchains, hassigns, hlisted⟩ := hall
  have hextract : extract "t.py" source =
      .ok (modelOf "t.py" source.toList (parse source.toList)) :=
    extract_eq_ok_iff.2 ⟨hproblem, rfl⟩
  exact ⟨_, hextract, hchains, (listsInstanceAttributes_iff hextract hchains).2 hassigns, hlisted⟩

/-- An attribute that only a loop binds is not listed. -/
theorem not_listsInstanceAttributes_of_loop :
    let source := "class C:\n    def f(self, xs):\n        for self.x in xs:\n            pass\n"
    ∃ m, extract "t.py" source = .ok m ∧
      ¬List.Forall₂ (ListsInstanceAttributes source.toList) (owners (parse source.toList))
        m.objects.toList ∧
      m.objects.toList.map instanceAttributesOf = [[], [], []] ∧
      (owners (parse source.toList)).map (boundAttributes source.toList) = [[], ["x"], []] := by
  intro source
  have hextract : extract "t.py" source =
      .ok (modelOf "t.py" source.toList (parse source.toList)) :=
    extract_eq_ok_iff.2 ⟨by decide +kernel, rfl⟩
  have hrecorded : (modelOf "t.py" source.toList (parse source.toList)).objects.toList.map
      instanceAttributesOf = [[], [], []] := by decide +kernel
  refine ⟨_, hextract, fun h => ?_, hrecorded, by decide +kernel⟩
  have hlists : List.Forall₂ (· = ·)
      ((owners (parse source.toList)).map (attributesToList source.toList))
      ((modelOf "t.py" source.toList (parse source.toList)).objects.toList.map
        instanceAttributesOf) := by
    rw [List.forall₂_map_left_iff, List.forall₂_map_right_iff]
    exact h.imp fun owner o ho => ho.instanceAttributesOf_eq.symm
  rw [List.forall₂_eq_eq_eq, hrecorded] at hlists
  exact absurd hlists (by decide +kernel)

end SourceCorpus.Extraction
