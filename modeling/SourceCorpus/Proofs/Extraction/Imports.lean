import SourceCorpus.Proofs.Extraction.Assignments

/-!
The imports of a model. Main statement: every import statement contributes its entries once, in the
order of the source, and they have the object of the innermost definition around the statement as
their scope.
-/

namespace SourceCorpus.Extraction

open Syntax Tree

/-! ### Sites -/

/-- An import statement with what it stands in, from the inside out, and the object in whose body it
is. -/
structure ImportSite where
  statement : Tree
  ancestors : List Tree
  scope : ObjectId

mutual

/-- The import statements in the tree, which stands in the body of the object `scope`. Definitions
are numbered from `next` on. -/
def sitesIn (ancestors : List Tree) (scope next : ObjectId) : Tree → List ImportSite
  | .node kind role extent children =>
    let t : Tree := .node kind role extent children
    if kind.isImport then [⟨t, ancestors, scope⟩]
    else if kind.isDefinition then sitesFrom (t :: ancestors) next (next + 1) children
    else sitesFrom (t :: ancestors) scope next children
  | _ => []

def sitesFrom (ancestors : List Tree) (scope next : ObjectId) : List Tree → List ImportSite
  | [] => []
  | t :: ts =>
    sitesIn ancestors scope next t ++ sitesFrom ancestors scope (next + t.definitions.length) ts

end

def importSites (tree : Tree) : List ImportSite := sitesFrom [tree] 0 1 tree.children

def ImportSite.isNested (site : ImportSite) : Bool := 1 < site.ancestors.length

def importsAt (source : List Char) (site : ImportSite) : List Import :=
  (importsOf source site.statement site.isNested).map (· site.scope)

structure IsEntryOf (tree : Tree) (site : ImportSite) (entry : Import) : Prop where
  scope : entry.scope = site.scope
  conditional : entry.conditional = false ↔ site.ancestors = [tree]
  line : entry.line = site.statement.line

/-- A plain import contributes an entry for each of its modules, in order, and any other import
contributes one, which is marked as such. -/
inductive Contributes (source : List Char) (tree : Tree) (site : ImportSite) :
    List Import → Prop where
  | plain {entries : List Import} (hkind : site.statement.isKind .importStatement)
    (hentries : List.Forall₂ (fun name entry =>
      importedName? source name = some ⟨entry.module, entry.asName⟩ ∧ entry.isFrom = false ∧
        IsEntryOf tree site entry) (site.statement.children.filter (·.hasRole .name)) entries) :
    Contributes source tree site entries
  | «from» {entry : Import}
    (hkind : site.statement.isKind .importFromStatement ∨
      site.statement.isKind .futureImportStatement)
    (hfrom : entry.isFrom = true) (hentry : IsEntryOf tree site entry) :
    Contributes source tree site [entry]

/-- The statement stands where its site tells: in a row of nodes up to the module, and in the body of
the innermost definition among them. -/
structure IsPlaced (tree : Tree) (site : ImportSite) : Prop where
  ancestors : (site.statement :: site.ancestors).IsChain fun t parent => t ∈ parent.children
  root : site.ancestors.getLast? = some tree
  scope : (owners tree)[site.scope]? =
    some ((site.ancestors.find? (·.isDefinition)).getD tree)

/-- The imports of the model are those of the import statements in its tree. -/
structure AccountsForImports (source : List Char) (tree : Tree) (m : CodeModel) : Prop where
  statements : (importSites tree).map (·.statement) = tree.preorder.filter (·.isImport)
  placed : ∀ site ∈ importSites tree, IsPlaced tree site
  objects : List.Forall₂ (IsObjectOf source) (owners tree) m.objects.toList
  imports : ∃ groups, List.Forall₂ (Contributes source tree) (importSites tree) groups ∧
    m.imports = groups.flatten

variable {source : List Char} {place : Place} {facts facts' : List Fact} {t c : Tree}
  {ancestors : List Tree} {scope next : ObjectId}

/-! ### Imports of facts -/

mutual

def importsIn (scope next : ObjectId) : Fact → List Import
  | .imported statement => [statement scope]
  | .defined _ body => importsInAll next (next + 1) body
  | _ => []

def importsInAll (scope next : ObjectId) : List Fact → List Import
  | [] => []
  | fact :: facts =>
    importsIn scope next fact ++ importsInAll scope (next + (entriesOf fact).length) facts

end

theorem importsInAll_append (scope next : ObjectId) (facts facts' : List Fact) :
    importsInAll scope next (facts ++ facts') = importsInAll scope next facts ++
      importsInAll scope (next + (entriesOfAll facts).length) facts' := by
  induction facts generalizing next with
  | nil => rfl
  | cons fact facts ih =>
    rw [List.cons_append, importsInAll, importsInAll, ih, entriesOfAll, List.length_append,
      List.append_assoc, Nat.add_assoc]

theorem entriesOf_eq_nil {fact : Fact} (h : isStated fact = false) : entriesOf fact = [] := by
  cases fact <;> first | rfl | cases h

theorem importsIn_eq_nil {fact : Fact} (h : isStated fact = false) :
    importsIn scope next fact = [] := by
  cases fact <;> first | rfl | cases h

theorem importsInAll_statedIn (scope next : ObjectId) (facts : List Fact) :
    importsInAll scope next (statedIn facts) = importsInAll scope next facts := by
  induction facts generalizing next with
  | nil => rfl
  | cons fact facts ih =>
    rw [statedIn, List.filter_cons, importsInAll]
    split
    next =>
      rw [importsInAll]
      exact congrArg _ (ih _)
    next h =>
      rw [importsIn_eq_nil (Bool.eq_false_iff.2 h), entriesOf_eq_nil (Bool.eq_false_iff.2 h)]
      exact ih _

theorem entriesOfAll_statedIn (facts : List Fact) :
    entriesOfAll (statedIn facts) = entriesOfAll facts := by
  rw [entriesOfAll_eq_flatMap, entriesOfAll_eq_flatMap]
  exact (flatMap_eq_of_filter fun fact _ => entriesOf_eq_nil).symm

/-! ### The arena -/

theorem Grows.size {a a' : Arena} {entries : List (Header × List Fact)} (h : Grows a a' entries) :
    a'.objects.size = a.objects.size + entries.length := by
  obtain ⟨added, hadded, hentries⟩ := h.objects
  rw [← Array.length_toList, hadded, List.length_append, Array.length_toList, hentries.length_eq]

mutual

/-- The arena gets the imports of a fact behind those that it has. -/
theorem imports_addFact (owner : ObjectId) (parent : CodeObject) (a : Arena) :
    ∀ fact : Fact, (addFact owner parent a fact).imports.toList =
      a.imports.toList ++ importsIn owner a.objects.size fact
  | .imported _ => Array.toList_push
  | .defined header body => by
    refine (imports_addFacts _ _ _ body).trans ?_
    rw [Array.size_push]
    rfl
  | .called _ | .named _ | .assigned _ | .returned _ | .instanceAttribute _ =>
    (List.append_nil _).symm

theorem imports_addFacts (owner : ObjectId) (parent : CodeObject) (a : Arena) :
    ∀ facts : List Fact, (addFacts owner parent a facts).imports.toList =
      a.imports.toList ++ importsInAll owner a.objects.size facts
  | [] => (List.append_nil _).symm
  | fact :: facts => by
    rw [addFacts, imports_addFacts owner parent _ facts, imports_addFact owner parent a fact,
      (grows_addFact owner parent a fact).size, importsInAll, List.append_assoc]

end

theorem imports_modelOf (file : String) (source : List Char) (tree : Tree) :
    (modelOf file source tree).imports =
      importsInAll 0 1 (factsOfAll source .value .top tree.children) := by
  refine (imports_addFacts _ _ _ _).trans ?_
  rfl

/-! ### Statements -/

theorem sitesIn_eq_nil (h : t.HasNoImport) : sitesIn ancestors scope next t = [] := by
  have hfrom {ts : List Tree} (hparts : ∀ c ∈ ts, ∀ ancestors scope next,
      sitesIn ancestors scope next c = []) (ancestors : List Tree) (scope next : ObjectId) :
      sitesFrom ancestors scope next ts = [] := by
    induction ts generalizing next with
    | nil => rfl
    | cons c ts ih =>
      rw [List.forall_mem_cons] at hparts
      rw [sitesFrom, hparts.1, ih hparts.2, List.nil_append]
  induction t using Tree.induction generalizing ancestors scope next with
  | node kind role extent children ih =>
    obtain ⟨hkind, hchildren⟩ := avoids_node.1 h
    have hparts := hfrom fun c hc _ _ _ => ih c hc (hchildren c hc)
    rw [sitesIn, hkind, if_neg Bool.false_ne_true, hparts, hparts, ite_self]
  | error => rfl
  | missing => rfl

/-- Children without declarations neither import nor count. -/
theorem sitesFrom_filter {p : Tree → Bool} {ts : List Tree}
    (h : ∀ t ∈ ts, p t = false → t.HasNoDeclaration) (ancestors : List Tree)
    (scope next : ObjectId) :
    sitesFrom ancestors scope next (ts.filter p) = sitesFrom ancestors scope next ts := by
  induction ts generalizing next with
  | nil => rfl
  | cons t ts ih =>
    rw [List.forall_mem_cons] at h
    rw [List.filter_cons, sitesFrom]
    cases hp : p t with
    | true => exact congrArg _ (ih h.2 _)
    | false =>
      have hnone : t.HasNoDeclaration := h.1 hp
      rw [sitesIn_eq_nil hnone.hasNoImport, hnone.hasNoDefinition.definitions_eq_nil]
      exact ih h.2 next

theorem importsInAll_flatMap {ts : List Tree} {f : Tree → List Fact}
    (himports : ∀ t ∈ ts, ∀ next, importsInAll scope next (f t) =
      (sitesIn ancestors scope next t).flatMap (importsAt source))
    (hentries : ∀ t ∈ ts, (entriesOfAll (f t)).length = t.definitions.length) (next : ObjectId) :
    importsInAll scope next (ts.flatMap f) =
      (sitesFrom ancestors scope next ts).flatMap (importsAt source) := by
  induction ts generalizing next with
  | nil => rfl
  | cons t ts ih =>
    rw [List.forall_mem_cons] at himports hentries
    rw [List.flatMap_cons, importsInAll_append, himports.1, hentries.1, ih himports.2 hentries.2,
      sitesFrom, List.flatMap_append]

/-! ### Assignments -/

def StatesOnlyBindings (facts : List Fact) : Prop :=
  ∀ fact ∈ statedIn facts, (∃ v, fact = .assigned v) ∨ ∃ name, fact = .instanceAttribute name

namespace StatesOnlyBindings

theorem of_eq_nil (h : statedIn facts = []) : StatesOnlyBindings facts := fun fact hfact => by
  rw [h] at hfact
  cases hfact

theorem append (h : StatesOnlyBindings facts) (h' : StatesOnlyBindings facts') :
    StatesOnlyBindings (facts ++ facts') := by
  rw [StatesOnlyBindings, statedIn_append, List.forall_mem_append]
  exact ⟨h, h'⟩

theorem flatMap {α : Type} {parts : List α} {f : α → List Fact}
    (h : ∀ part ∈ parts, StatesOnlyBindings (f part)) : StatesOnlyBindings (parts.flatMap f) := by
  rw [StatesOnlyBindings, statedIn_flatMap, List.forall_mem_flatMap]
  exact h

theorem importsInAll_eq_nil (h : StatesOnlyBindings facts) (scope next : ObjectId) :
    importsInAll scope next facts = [] := by
  rw [← importsInAll_statedIn]
  unfold StatesOnlyBindings at h
  generalize statedIn facts = stated at h ⊢
  induction stated generalizing next with
  | nil => rfl
  | cons fact facts ih =>
    rw [List.forall_mem_cons] at h
    rw [importsInAll, ih _ h.2]
    rcases h.1 with ⟨v, rfl⟩ | ⟨name, rfl⟩ <;> rfl

end StatesOnlyBindings

theorem statesOnlyBindings_leafFacts (h : Shaped t) (hnone : t.HasNoDeclaration) (place : Place)
    (v : Variable) : StatesOnlyBindings (leafFacts source place v t) := by
  rw [leafFacts]
  split
  · intro fact hfact
    rw [List.mem_singleton.1 hfact]
    exact .inl ⟨v, rfl⟩
  · refine .append ?_ (.of_eq_nil (statesNothing h hnone .value rfl place))
    split
    · cases instanceName? source place t with
      | none => exact .of_eq_nil rfl
      | some name =>
        intro fact hfact
        rw [List.mem_singleton.1 hfact]
        exact .inr ⟨name, rfl⟩
    · exact .of_eq_nil rfl

/-- A target only binds. -/
theorem statesOnlyBindings_assigned (h : Shaped t) (hnone : t.HasNoDeclaration) (b : Binding)
    (alone : TargetKind) (place : Place) :
    StatesOnlyBindings
      (factsOf source (.assigned b (targetKindOf b.chained alone [])) place t) := by
  rw [factsOf_assigned hnone.hasNoDefinition]
  refine .flatMap fun leaf hleaf => ?_
  have hpart : leaf.2 ∈ t.preorder := mem_preorder_of_mem_leavesWithin hleaf
  exact statesOnlyBindings_leafFacts (h.of_mem_preorder hpart)
    (fun n hn => hnone n (mem_preorder_trans hpart hn)) place _

section

variable {role : Option Role} {extent : Extent} {children : List Tree} {target : Tree}
  {value? : Option Tree}

/-- An assignment binds its targets, and what is on its right. -/
theorem statesOnlyBindings_assignment (ht : Shaped (.node .assignment role extent children))
    (hright : StatesOnlyBindings
      (factsOf source .rightSide place (.node .assignment role extent children))) :
    StatesOnlyBindings (factsOf source .value place (.node .assignment role extent children)) := by
  obtain ⟨lefts, last?, hchain⟩ := exists_isChain source ht rfl
  rw [factsOf_assignment rfl, hchain.targetFacts, targetKind_bindingOf]
  refine hright.append (.flatMap fun left hleft => ?_)
  exact statesOnlyBindings_assigned (hchain.targets left hleft).1 (hchain.targets left hleft).2 _ _
    place

theorem statesOnlyBindings_augmentedAssignment (hsides : AreSides children target value?)
    (htarget : Shaped target) (hnone : target.HasNoDeclaration)
    (hvalue : ∀ value ∈ value?.toList, StatesOnlyBindings (factsOf source .value place value)) :
    StatesOnlyBindings
      (factsOf source .value place (.node .augmentedAssignment role extent children)) := by
  rw [hsides.factsOf_augmentedAssignment rfl]
  refine .append (.append (.flatMap hvalue) ?_) ?_
  · exact .of_eq_nil (statedIn_map (fun _ => rfl) _)
  · exact statesOnlyBindings_assigned htarget hnone _ _ place

end

/-- Assignments and expressions only bind. -/
theorem statesOnlyBindings_of_shaped (h : Shaped t) (hpart : t.isAssignment ∨ t.HasNoDeclaration)
    (place : Place) : StatesOnlyBindings (factsOf source .value place t) ∧
      StatesOnlyBindings (factsOf source .rightSide place t) := by
  induction h with
  | @node kind role extent children fits complete shaped ih =>
    let t : Tree := .node kind role extent children
    have ht : Shaped t := .node fits complete shaped
    -- The right side of an assignment may be an assignment again, so both readings go through the
    -- induction.
    rcases hpart with hkind | hnone
    · have hkind : kind.isAssignment := hkind
      have hparts : ∀ c ∈ children, c.isAssignment ∨ c.HasNoDeclaration := fun c hc => by
        by_cases hright : c.hasRole .right
        · have hfits := fits c hc
          cases kind <;> first | exact hfits.2.1.imp_left And.right | cases hkind
        · exact .inr (hasNoDeclaration_of_fits_assignment hkind (fits c hc)
            (Bool.eq_false_iff.2 hright))
      obtain ⟨target, value?, hsides⟩ := exists_areSides hkind complete
      have hvalue {value : Tree} (hvalue : value ∈ value?.toList) :=
        have hmem : value ∈ children := hsides.mem_right (Option.mem_toList.1 hvalue)
        ih value hmem (hparts value hmem)
      cases kind
      case assignment =>
        have hright : StatesOnlyBindings (factsOf source .rightSide place t) := by
          have hfacts : factsOf source .rightSide place t = _ := hsides.facts_right .rightSide place
          rw [hfacts]
          exact .flatMap fun _ hmem => (hvalue hmem).2
        exact ⟨statesOnlyBindings_assignment ht hright, hright⟩
      case augmentedAssignment =>
        have htarget : target.HasNoDeclaration :=
          hasNoDeclaration_of_fits_assignment rfl (fits target hsides.mem_left) hsides.not_right
        have hbound : StatesOnlyBindings (factsOf source .value place t) :=
          statesOnlyBindings_augmentedAssignment hsides (shaped target hsides.mem_left) htarget
            fun _ hmem => (hvalue hmem).1
        exact ⟨hbound, hbound⟩
      all_goals cases hkind
    · have hnothing : StatesNothing source t := statesNothing ht
      exact ⟨.of_eq_nil (hnothing hnone .value rfl place),
        .of_eq_nil (hnothing hnone .rightSide rfl place)⟩

/-! ### The walk -/

/-- If the tree has imports outside of other statements, then it stands where these are marked as
they should be. -/
structure Suits (place : Place) (ancestors : List Tree) (t : Tree) : Prop where
  inside : ancestors ≠ []
  marked : (place.conditional ∧ 1 < ancestors.length) ∨
    (t.isImport ∧ place.conditional = decide (1 < ancestors.length)) ∨ t.Sheltered

structure ImportsWalked (source : List Char) (t : Tree) : Prop where
  value : ∀ place ancestors scope next, Suits place ancestors t →
    importsInAll scope next (factsOf source .value place t) =
      (sitesIn ancestors scope next t).flatMap (importsAt source)
  definition : t.isDefinition → ∀ decorators place ancestors scope next, ancestors ≠ [] →
    importsInAll scope next (factsOf source (.definition decorators) place t) =
      (sitesIn ancestors scope next t).flatMap (importsAt source)

/-- As many definitions are stated as there are. -/
theorem length_entries_value (h : Shaped t) (hreadable : IsReadable t ∨ t.HasNoDeclaration)
    (place : Place) :
    (entriesOfAll (factsOf source .value place t)).length = t.definitions.length := by
  rcases hreadable with hreadable | hnone
  · exact ((Walked.of_shaped h).value hreadable place).definitions.length_eq
  · rw [← entriesOfAll_statedIn, statesNothing h hnone .value rfl place,
      hnone.hasNoDefinition.definitions_eq_nil]
    rfl

section Nodes

variable {kind : Kind} {role : Option Role} {extent : Extent} {children : List Tree}

theorem isReadable_or_of_fits (hkind : kind.isDeclaration = false) (hfits : Fits kind c) :
    IsReadable c ∨ c.HasNoDeclaration := by
  have hparts : c.isOrdinary ∨ c.HasNoDeclaration := by
    cases kind
    case identifier | comment | globalStatement | nonlocalStatement =>
      exact .inr (IsInert.hasNoDeclaration hfits)
    case functionDefinition | classDefinition | assignment | augmentedAssignment | importStatement
        | importFromStatement | futureImportStatement => cases hkind
    case parameters | typedParameter | defaultParameter | typedDefaultParameter => exact .inr hfits.1
    case lambdaParameters => exact .inr hfits
    case lambda | decoratedDefinition => exact hfits.imp And.left fun h => h.2.2
    case genericType => exact hfits.imp_right fun h => h.2.2
    case memberAccess | keywordArgument | namedExpression | forInClause | forStatement | decorator =>
      exact .inl hfits.1
    all_goals exact .inl hfits
  exact hparts.imp_left .of_isOrdinary

/-- The children of what is no statement of its own stand where their imports are marked. -/
theorem Suits.child (h : Suits place ancestors (.node kind role extent children))
    (hkind : kind.isDeclaration = false) (hc : c ∈ children) :
    Suits (place.below kind) (.node kind role extent children :: ancestors) c := by
  have hlength : 1 < (node kind role extent children :: ancestors).length :=
    Nat.succ_lt_succ (List.length_pos_of_ne_nil h.inside)
  refine ⟨List.cons_ne_nil _ _, ?_⟩
  rcases h.marked with ⟨hconditional, -⟩ | ⟨himport, -⟩ | hsheltered
  · refine .inl ⟨?_, hlength⟩
    rw [Place.below]
    split
    · rfl
    · exact hconditional
  · have hnot : kind.isImport = false := Kind.isImport_eq_false hkind
    have himport : kind.isImport := himport
    rw [hnot] at himport
    cases himport
  · cases hsheltered with
    | branch hbranching =>
      have hcompound : isCompound kind := by
        revert hkind hbranching
        cases kind <;> decide
      rw [Place.below, if_pos hcompound]
      exact .inl ⟨rfl, hlength⟩
    | node _ sheltered => exact .inr (.inr (sheltered c hc))

/-- An import is marked as it should be. -/
theorem Suits.conditional (h : Suits place ancestors (.node kind role extent children))
    (hkind : kind.isImport) : place.conditional = decide (1 < ancestors.length) := by
  rcases h.marked with ⟨hconditional, hlength⟩ | ⟨-, hmarked⟩ | hsheltered
  · rw [hconditional, decide_eq_true hlength]
  · exact hmarked
  · cases hsheltered with
    | branch hbranching =>
      exfalso
      revert hkind hbranching
      cases kind <;> decide
    | node hnot =>
      rw [hnot] at hkind
      cases hkind

variable (h : Shaped (.node kind role extent children))
  (ih : ∀ c ∈ children, ImportsWalked source c)
include h ih

/-- The imports in the body of a definition are those of its object. -/
theorem importsInAll_definition (hkind : kind.isDefinition) (decorators : List String)
    (place : Place) (ancestors : List Tree) (scope next : ObjectId) (hinside : ancestors ≠ []) :
    importsInAll scope next
        (factsOf source (.definition decorators) place (.node kind role extent children)) =
      (sitesIn ancestors scope next (.node kind role extent children)).flatMap (importsAt source) := by
  let t : Tree := .node kind role extent children
  have hparts : ∀ c ∈ children, Fits .functionDefinition c := fun c hc => by
    have hfits := Shaped.fits h hc
    cases kind <;> first | exact hfits | cases hkind
  have himport : kind.isImport = false := by
    revert hkind
    cases kind <;> decide
  -- Outside of its body a definition has no imports, so that only the body counts the next number.
  have hsites : sitesIn ancestors scope next t =
      sitesFrom (t :: ancestors) next (next + 1) (children.filter (·.hasRole .body)) := by
    rw [sitesIn, himport, hkind, sitesFrom_filter fun c hc hbody =>
      hasNoDeclaration_of_fits (hparts c hc) (Bool.eq_false_iff.1 hbody)]
    rfl
  have hname : ∃ c ∈ t.children, c.hasRole .name := by
    cases h with
    | node _ complete => cases kind <;> first | exact complete | cases hkind
  obtain ⟨header, hheader, -⟩ : ∃ header, headerOf? source place.owner decorators t = some header ∧
      _ := exists_headerOf hname place.owner decorators
  have hlength : 1 < (t :: ancestors).length :=
    Nat.succ_lt_succ (List.length_pos_of_ne_nil hinside)
  rw [← importsInAll_statedIn, statedIn_definition h hkind, hheader, hsites]
  refine (List.append_nil _).trans (importsInAll_flatMap (fun c hc next => ?_) (fun c hc => ?_) _)
  · exact (ih c (List.mem_filter.1 hc).1).value _ _ _ _ ⟨List.cons_ne_nil _ _, .inl ⟨rfl, hlength⟩⟩
  · obtain ⟨hc, hbody⟩ := List.mem_filter.1 hc
    have hblock : c.kind? = some .block := beq_iff_eq.1 (isKind_block_of_fits rfl (hparts c hc) hbody)
    refine length_entries_value (Shaped.of_mem h hc) (.inl (.inl ?_)) _
    rw [hblock]
    rfl

theorem importsInAll_decoratedDefinition (hkind : kind = .decoratedDefinition)
    (place : Place) (ancestors : List Tree) (scope next : ObjectId) :
    importsInAll scope next (factsOf source .value place (.node kind role extent children)) =
      (sitesIn ancestors scope next (.node kind role extent children)).flatMap (importsAt source) := by
  let t : Tree := .node kind role extent children
  have hfits : ∀ c ∈ children, Fits .decoratedDefinition c := fun c hc => hkind ▸ Shaped.fits h hc
  have hsites : sitesIn ancestors scope next t =
      sitesFrom (t :: ancestors) scope next (children.filter (·.hasRole .definition)) := by
    rw [sitesFrom_filter fun c hc hrole => hasNoDeclaration_of_fits_decorated (hfits c hc) hrole]
    subst hkind
    rfl
  rw [← importsInAll_statedIn, statedIn_decoratedDefinition h hkind, hsites]
  refine importsInAll_flatMap (fun c hc next => ?_) (fun c hc => ?_) next
  all_goals
    obtain ⟨hc, hrole⟩ := List.mem_filter.1 hc
    have hdefinition : c.isDefinition := isDefinition_of_fits (hfits c hc) hrole
  · rw [importsInAll_statedIn]
    exact (ih c hc).definition hdefinition _ place _ scope next (List.cons_ne_nil _ _)
  · rw [entriesOfAll_statedIn]
    exact ((Walked.of_shaped (Shaped.of_mem h hc)).definition hdefinition place _).definitions.length_eq

omit h ih in
theorem importsInAll_import (hkind : kind.isImport) (place : Place) (ancestors : List Tree)
    (scope next : ObjectId) (hplace : place.conditional = decide (1 < ancestors.length)) :
    importsInAll scope next (factsOf source .value place (.node kind role extent children)) =
      (sitesIn ancestors scope next (.node kind role extent children)).flatMap (importsAt source) := by
  let t : Tree := .node kind role extent children
  have himports (statements : List (ObjectId → Import)) (next : ObjectId) :
      importsInAll scope next (statements.map .imported) = statements.map (· scope) := by
    induction statements generalizing next with
    | nil => rfl
    | cons statement statements ih => exact congrArg (statement scope :: ·) (ih next)
  have hfacts : factsOf source .value place t =
      (importsOf source t place.conditional).map .imported := by
    cases kind <;> first | rfl | cases hkind
  have hsites : sitesIn ancestors scope next t = [⟨t, ancestors, scope⟩] := by
    rw [sitesIn, if_pos hkind]
  rw [hfacts, himports, hsites, List.flatMap_singleton, hplace]
  rfl

theorem importsWalked_node : ImportsWalked source (.node kind role extent children) := by
  refine ⟨fun place ancestors scope next hsuits => ?_, importsInAll_definition h ih⟩
  let t : Tree := .node kind role extent children
  -- Definitions, decorated or not, assignments and imports apart, the walk goes from child to child.
  by_cases hdefinition : kind.isDefinition
  · have hfacts : factsOf source .value place t = factsOf source (.definition []) place t := by
      cases kind <;> first | rfl | cases hdefinition
    rw [hfacts]
    exact importsInAll_definition h ih hdefinition [] place ancestors scope next hsuits.inside
  rw [Bool.not_eq_true] at hdefinition
  by_cases hdecorated : kind = .decoratedDefinition
  · exact importsInAll_decoratedDefinition h ih hdecorated place ancestors scope next
  by_cases hassignment : kind.isAssignment
  · rw [(statesOnlyBindings_of_shaped h (.inl hassignment) place).1.importsInAll_eq_nil,
      sitesIn_eq_nil (Shaped.hasNoImport h hassignment)]
    rfl
  rw [Bool.not_eq_true] at hassignment
  by_cases himport : kind.isImport
  · exact importsInAll_import himport place ancestors scope next (hsuits.conditional himport)
  · have hdeclaration : kind.isDeclaration = false := by
      rw [Kind.isDeclaration, hdefinition, hassignment, Bool.eq_false_iff.2 himport]
      rfl
    have hsites : sitesIn ancestors scope next t = sitesFrom (t :: ancestors) scope next children := by
      rw [sitesIn, if_neg himport, hdefinition]
      rfl
    rw [← importsInAll_statedIn, statedIn_node h hdeclaration hdecorated, hsites]
    refine importsInAll_flatMap (fun c hc next => ?_) (fun c hc => ?_) next
    · rw [importsInAll_statedIn]
      exact (ih c hc).value _ _ scope next (hsuits.child hdeclaration hc)
    · rw [entriesOfAll_statedIn]
      exact length_entries_value (Shaped.of_mem h hc)
        (isReadable_or_of_fits hdeclaration (Shaped.fits h hc)) _

end Nodes

theorem importsWalked_of_shaped (h : Shaped t) : ImportsWalked source t := by
  induction h with
  | node fits complete shaped ih => exact importsWalked_node (.node fits complete shaped) ih

/-! ### Where statements stand -/

theorem mem_sitesFrom {site : ImportSite} {ts : List Tree}
    (h : site ∈ sitesFrom ancestors scope next ts) : ∃ before t after, ts = before ++ t :: after ∧
      site ∈ sitesIn ancestors scope (next + (before.flatMap definitions).length) t := by
  induction ts generalizing next with
  | nil => cases h
  | cons t ts ih =>
    rw [sitesFrom, List.mem_append] at h
    rcases h with h | h
    · exact ⟨[], t, ts, rfl, h⟩
    · obtain ⟨before, t', after, rfl, h⟩ := ih h
      refine ⟨t :: before, t', after, rfl, ?_⟩
      rwa [List.flatMap_cons, List.length_append, ← Nat.add_assoc]

/-- What stands below the tree stands in it. -/
theorem ancestors_of_mem_sitesIn {site : ImportSite}
    (h : site ∈ sitesIn ancestors scope next t) (hinside : ancestors ≠ [])
    (hchain : (t :: ancestors).IsChain fun t parent => t ∈ parent.children) :
    ((site.statement :: site.ancestors).IsChain fun t parent => t ∈ parent.children) ∧
      site.ancestors.getLast? = ancestors.getLast? := by
  induction t using Tree.induction generalizing ancestors scope next with
  | node kind role extent children ih =>
    let t : Tree := .node kind role extent children
    -- Both in a definition and elsewhere, the children stand in the node.
    have hbelow {scope next : ObjectId} (hsite : site ∈ sitesFrom (t :: ancestors) scope next children) :
        ((site.statement :: site.ancestors).IsChain fun t parent => t ∈ parent.children) ∧
          site.ancestors.getLast? = ancestors.getLast? := by
      obtain ⟨before, c, after, hchildren, hsite⟩ := mem_sitesFrom hsite
      have hc : c ∈ children := by
        rw [hchildren]
        exact List.mem_append_right _ List.mem_cons_self
      obtain ⟨hsites, hlast⟩ := ih c hc hsite (List.cons_ne_nil _ _) (.cons_cons hc hchain)
      refine ⟨hsites, hlast.trans ?_⟩
      rw [List.getLast?_cons_of_ne_nil hinside]
    rw [sitesIn] at h
    split at h
    · rw [List.mem_singleton.1 h]
      exact ⟨hchain, rfl⟩
    · split at h
      · exact hbelow h
      · exact hbelow h
  | error => cases h
  | missing => cases h

/-- A list found inside a longer one is found by counting on from what is before it. -/
theorem getElem?_append_append {α : Type} {before middle after : List α} {i : Nat} {a : α}
    (h : middle[i]? = some a) : (before ++ (middle ++ after))[before.length + i]? = some a := by
  have hlength : i < middle.length := (List.getElem?_eq_some_iff.1 h).1
  rw [List.getElem?_append_right (Nat.le_add_right _ _), Nat.add_sub_cancel_left,
    List.getElem?_append_left hlength, h]

/-- The scope of a statement is what it was outside of the tree, or the number of the innermost
definition in the tree around the statement. -/
theorem scope_of_mem_sitesIn {site : ImportSite} (h : site ∈ sitesIn ancestors scope next t) :
    (site.scope = scope ∧
        site.ancestors.find? (·.isDefinition) = ancestors.find? (·.isDefinition)) ∨
      ∃ i d, site.scope = next + i ∧ t.definitions[i]? = some d ∧
        site.ancestors.find? (·.isDefinition) = some d := by
  induction t using Tree.induction generalizing ancestors scope next with
  | node kind role extent children ih =>
    let t : Tree := .node kind role extent children
    -- What the induction says of a child, counted from the definitions before it.
    have hbelow {scope next : ObjectId} (hsite : site ∈ sitesFrom (t :: ancestors) scope next children) :
        (site.scope = scope ∧
            site.ancestors.find? (·.isDefinition) = (t :: ancestors).find? (·.isDefinition)) ∨
          ∃ i d, site.scope = next + i ∧ (children.flatMap definitions)[i]? = some d ∧
            site.ancestors.find? (·.isDefinition) = some d := by
      obtain ⟨before, c, after, hchildren, hsite⟩ := mem_sitesFrom hsite
      have hc : c ∈ children := by
        rw [hchildren]
        exact List.mem_append_right _ List.mem_cons_self
      refine (ih c hc hsite).imp_right fun ⟨i, d, hscope, hd, hfind⟩ => ?_
      refine ⟨(before.flatMap definitions).length + i, d, ?_, ?_, hfind⟩
      · rw [hscope, Nat.add_assoc]
      · rw [hchildren, List.flatMap_append, List.flatMap_cons]
        exact getElem?_append_append hd
    have hself : t.isDefinition = kind.isDefinition := rfl
    rw [sitesIn] at h
    rw [definitions_node]
    split at h
    · rw [List.mem_singleton.1 h]
      exact .inl ⟨rfl, rfl⟩
    · split at h
      next hdefinition =>
        rw [if_pos hdefinition]
        rcases hbelow h with ⟨hscope, hfind⟩ | ⟨i, d, hscope, hd, hfind⟩
        · refine .inr ⟨0, t, hscope, rfl, ?_⟩
          rw [hfind, List.find?_cons, hself, hdefinition]
        · refine .inr ⟨i + 1, d, ?_, hd, hfind⟩
          rw [hscope, Nat.add_assoc, Nat.add_comm 1 i]
      next hdefinition =>
        rw [if_neg hdefinition, List.nil_append]
        refine (hbelow h).imp_left fun ⟨hscope, hfind⟩ => ⟨hscope, ?_⟩
        rw [hfind, List.find?_cons, hself, Bool.eq_false_iff.2 hdefinition]
  | error => cases h
  | missing => cases h

/-- The statements are those of the tree, in order. -/
theorem map_statement_sitesIn (h : Shaped t) (ancestors : List Tree) (scope next : ObjectId) :
    (sitesIn ancestors scope next t).map (·.statement) = t.preorder.filter (·.isImport) := by
  -- The scopes and numbers differ from child to child, but the statements do not depend on them.
  have hfrom {ts : List Tree} (hparts : ∀ c ∈ ts, ∀ ancestors scope next,
      (sitesIn ancestors scope next c).map (·.statement) = c.preorder.filter (·.isImport))
      (ancestors : List Tree) (scope next : ObjectId) :
      (sitesFrom ancestors scope next ts).map (·.statement) =
        (ts.flatMap preorder).filter (·.isImport) := by
    induction ts generalizing next with
    | nil => rfl
    | cons c ts ih =>
      rw [List.forall_mem_cons] at hparts
      rw [sitesFrom, List.map_append, hparts.1, ih hparts.2, List.flatMap_cons, List.filter_append]
  induction h generalizing ancestors scope next with
  | @node kind role extent children fits complete shaped ih =>
    have hself : (node kind role extent children).isImport = kind.isImport := rfl
    rw [sitesIn, preorder_node, List.filter_cons, hself]
    split
    next himport =>
      have hnone : (children.flatMap preorder).filter (·.isImport) = [] := by
        rw [List.filter_flatMap, List.flatMap_eq_nil_iff]
        intro c hc
        have hinert : c.IsInert := by
          have hfits := fits c hc
          cases kind <;> first | exact hfits.1 | cases himport
        refine List.filter_eq_nil_iff.2 fun n hn => ?_
        rw [isImport, hinert.hasNoDeclaration.hasNoImport n hn]
        exact Bool.false_ne_true
      rw [hnone]
      rfl
    next =>
      split
      · exact hfrom ih _ _ _
      · exact hfrom ih _ _ _

section Modules

variable {tree : Tree}

theorem map_statement_importSites (h : Shaped tree) (hmodule : tree.isKind .module) :
    (importSites tree).map (·.statement) = tree.preorder.filter (·.isImport) := by
  cases tree with
  | node kind role extent children =>
    obtain rfl : kind = .module := by rwa [isKind_node, beq_iff_eq] at hmodule
    exact map_statement_sitesIn h [] 0 1
  | error => cases hmodule
  | missing => cases hmodule

theorem isPlaced_of_mem_importSites {site : ImportSite} (h : site ∈ importSites tree)
    (hmodule : tree.isKind .module) : IsPlaced tree site := by
  have hdefinition : tree.isDefinition = false := not_isDefinition_of_isKind_module hmodule
  have hdefinitions : tree.definitions = tree.children.flatMap definitions := by
    cases tree with
    | node kind role extent children =>
      have hkind : ¬kind.isDefinition := Bool.eq_false_iff.1 hdefinition
      rw [definitions_node, if_neg hkind]
      rfl
    | error => cases hmodule
    | missing => cases hmodule
  obtain ⟨before, c, after, hchildren, hsite⟩ := mem_sitesFrom h
  have hc : c ∈ tree.children := by
    rw [hchildren]
    exact List.mem_append_right _ List.mem_cons_self
  obtain ⟨hchain, hlast⟩ := ancestors_of_mem_sitesIn hsite (List.cons_ne_nil _ _)
    (.cons_cons hc (.singleton _))
  refine ⟨hchain, hlast, ?_⟩
  rcases scope_of_mem_sitesIn hsite with ⟨hscope, hfind⟩ | ⟨i, d, hscope, hd, hfind⟩
  · rw [hscope, hfind, List.find?_cons, hdefinition]
    rfl
  · have hnumber : site.scope = (before.flatMap definitions).length + i + 1 := by
      rw [hscope, Nat.add_assoc, Nat.add_comm]
    rw [hnumber, hfind, owners, List.getElem?_cons_succ, hdefinitions, hchildren,
      List.flatMap_append, List.flatMap_cons]
    exact getElem?_append_append hd

/-! ### Entries -/

theorem exists_importedName? (source : List Char) (h : t.IsImportedName) :
    ∃ name, importedName? source t = some name := by
  rw [importedName?]
  by_cases hdotted : t.isKind .dottedName
  · rw [if_pos hdotted]
    exact ⟨_, rfl⟩
  · obtain ⟨haliased, hname⟩ := Or.resolve_left h hdotted
    obtain ⟨c, hc⟩ : ∃ c, t.child? .name = some c :=
      Option.isSome_iff_exists.1 (List.find?_isSome.2 hname)
    rw [if_neg hdotted, if_pos haliased, hc]
    exact ⟨_, rfl⟩

/-- The names that an import has to have. -/
theorem isImportedName_of_fits (hstatement : Shaped t) (himport : t.isImport) (hc : c ∈ t.children)
    (hname : c.hasRole .name) : c.IsImportedName := by
  cases hstatement with
  | @node kind _ _ _ fits =>
    have hkind : kind.isImport := himport
    have hfits := fits c hc
    cases kind <;> first | exact hfits.2 hname | cases hkind

theorem isEntryOf_of_isPlaced {site : ImportSite} (h : IsPlaced tree site) {entry : Import}
    (hscope : entry.scope = site.scope) (hconditional : entry.conditional = site.isNested)
    (hline : entry.line = site.statement.line) : IsEntryOf tree site entry := by
  refine ⟨hscope, ?_, hline⟩
  rw [hconditional, ImportSite.isNested, decide_eq_false_iff_not]
  have hroot := h.root
  match hancestors : site.ancestors with
  | [] =>
    rw [hancestors] at hroot
    cases hroot
  | [parent] =>
    rw [hancestors] at hroot
    obtain rfl : parent = tree := Option.some.inj hroot
    exact iff_of_true (Nat.lt_irrefl 1) rfl
  | parent :: above :: rest =>
    refine iff_of_false (fun hshort => hshort ?_) (fun halone => by cases halone)
    exact Nat.succ_lt_succ (Nat.succ_pos _)

theorem contributes_plain {site : ImportSite} (hstatement : Shaped site.statement)
    (hplaced : IsPlaced tree site) (hkind : site.statement.isKind .importStatement) :
    Contributes source tree site (importsAt source site) := by
  have himport : site.statement.isImport := by
    rw [isKind, beq_iff_eq] at hkind
    rw [isImport, hkind]
    rfl
  refine .plain hkind ?_
  rw [importsAt, importsOf, if_pos hkind, List.map_map, importedNames]
  have hnames : ∀ c ∈ site.statement.children.filter (·.hasRole .name),
      ∃ name, importedName? source c = some name := fun c hc =>
    exists_importedName? source (isImportedName_of_fits hstatement himport (List.mem_filter.1 hc).1
      (List.mem_filter.1 hc).2)
  generalize site.statement.children.filter (·.hasRole .name) = names at hnames ⊢
  induction names with
  | nil => exact .nil
  | cons c names ih =>
    rw [List.forall_mem_cons] at hnames
    obtain ⟨name, hname⟩ := hnames.1
    rw [List.filterMap_cons, hname]
    exact .cons ⟨hname, rfl, isEntryOf_of_isPlaced hplaced rfl rfl rfl⟩ (ih hnames.2)

/-- An import from a module names something or everything. -/
theorem importedNames_ne_nil (hstatement : Shaped t) (hkind : t.isKind .importFromStatement ∨
    t.isKind .futureImportStatement) :
    importedNames source t ++ (if t.children.any (·.isKind .wildcardImport) then
      [(⟨"*", none⟩ : ImportedName)] else []) ≠ [] := by
  have himport : t.isImport := by
    rw [isImport]
    rcases hkind with hkind | hkind <;> rw [beq_iff_eq.1 hkind] <;> rfl
  have hnames : ∃ c ∈ t.children, c.hasRole .name ∨ c.isKind .wildcardImport := by
    cases hstatement with
    | node _ complete =>
      simp only [isKind_node, beq_iff_eq] at hkind
      rcases hkind with rfl | rfl
      · exact complete
      · obtain ⟨c, hc, hname⟩ := complete
        exact ⟨c, hc, .inl hname⟩
  obtain ⟨c, hc, hname | hwildcard⟩ := hnames
  · obtain ⟨name, himported⟩ := exists_importedName? source
      (isImportedName_of_fits hstatement himport hc hname)
    have hmem : name ∈ importedNames source t :=
      List.mem_filterMap.2 ⟨c, List.mem_filter.2 ⟨hc, hname⟩, himported⟩
    exact List.append_ne_nil_of_left_ne_nil (List.ne_nil_of_mem hmem) _
  · rw [if_pos (List.any_eq_true.2 ⟨c, hc, hwildcard⟩)]
    exact List.append_ne_nil_of_right_ne_nil _ (List.cons_ne_nil _ _)

theorem contributes_from {site : ImportSite} (hstatement : Shaped site.statement)
    (hplaced : IsPlaced tree site) (hkind : site.statement.isKind .importFromStatement ∨
      site.statement.isKind .futureImportStatement) :
    Contributes source tree site (importsAt source site) := by
  have hplain : site.statement.isKind .importStatement = false := by
    rw [isKind]
    rcases hkind with hkind | hkind <;> rw [beq_iff_eq.1 hkind] <;> rfl
  rw [importsAt, importsOf, hplain, if_neg Bool.false_ne_true]
  refine .from hkind ?_ (isEntryOf_of_isPlaced hplaced rfl rfl rfl)
  rw [Import.isFrom, Bool.not_eq_true', List.isEmpty_eq_false_iff]
  exact importedNames_ne_nil hstatement hkind

theorem contributes_of_isPlaced {site : ImportSite} (hstatement : Shaped site.statement)
    (himport : site.statement.isImport) (hplaced : IsPlaced tree site) :
    Contributes source tree site (importsAt source site) := by
  by_cases hplain : site.statement.isKind .importStatement
  · exact contributes_plain hstatement hplaced hplain
  refine contributes_from hstatement hplaced ?_
  simp only [isKind, isImport, beq_iff_eq] at himport hplain ⊢
  cases hkind : site.statement.kind? with
  | none =>
    rw [hkind] at himport
    cases himport
  | some kind =>
    rw [hkind] at himport hplain
    cases kind <;> first | exact .inl rfl | exact .inr rfl | exact absurd rfl hplain | cases himport

/-- The facts of a module import what its import statements do. -/
theorem importsInAll_module (h : Shaped tree) (hmodule : tree.isKind .module) :
    importsInAll 0 1 (factsOfAll source .value .top tree.children) =
      (importSites tree).flatMap (importsAt source) := by
  cases h with
  | @node kind role extent children fits complete shaped =>
    obtain rfl : kind = .module := by rwa [isKind_node, beq_iff_eq] at hmodule
    rw [factsOfAll_eq_flatMap, importSites]
    refine importsInAll_flatMap (fun c hc next => ?_) (fun c hc => ?_) 1
    · refine (importsWalked_of_shaped (shaped c hc)).value _ _ _ _ ⟨List.cons_ne_nil _ _, .inr ?_⟩
      exact (complete c hc).imp_left fun himport => ⟨himport, rfl⟩
    · exact length_entries_value (shaped c hc) (isReadable_or_of_fits rfl (fits c hc)) .top

end Modules

/-- Whatever the source text, its imports are those of the import statements in it. -/
theorem accountsForImports {file source : String} {m : CodeModel}
    (h : extract file source = .ok m) :
    AccountsForImports source.toList (parse source.toList) m := by
  let tree : Tree := parse source.toList
  obtain ⟨hproblem, hm⟩ := extract_eq_ok_iff.1 h
  obtain ⟨hstatement, hmodule⟩ := isStatement_parse hproblem
  have hstatements : (importSites tree).map (·.statement) = tree.preorder.filter (·.isImport) :=
    map_statement_importSites hstatement.shaped hmodule
  have hplaced : ∀ site ∈ importSites tree, IsPlaced tree site := fun site hsite =>
    isPlaced_of_mem_importSites hsite hmodule
  refine ⟨hstatements, hplaced, ?_, (importSites tree).map (importsAt source.toList), ?_, ?_⟩
  · rw [hm]
    exact (recordsCalls_modelOf file hstatement hmodule).imp fun _ _ ho => ho.1
  · rw [List.forall₂_map_right_iff, List.forall₂_same]
    intro site hsite
    have hmem : site.statement ∈ tree.preorder.filter (·.isImport) := by
      rw [← hstatements]
      exact List.mem_map_of_mem hsite
    obtain ⟨hmem, himport⟩ := List.mem_filter.1 hmem
    exact contributes_of_isPlaced (hstatement.shaped.of_mem_preorder hmem) himport
      (hplaced site hsite)
  · rw [hm, imports_modelOf, importsInAll_module hstatement.shaped hmodule]
    exact List.flatMap_def

/-- Imports of every form, at the top level, in blocks, and in definitions that are nested. -/
theorem accountsForImports_of_nested_statements :
    let source := "from __future__ import annotations\nimport a.b as c, d\ntry:\n    from . import e\nexcept X:\n    import f\nclass A:\n    @g\n    def h(self):\n        from i import *\nif x: import j\n"
    ∃ m, extract "t.py" source = .ok m ∧
      AccountsForImports source.toList (parse source.toList) m ∧
      m.imports.map (fun i => (i.module, i.isFrom, i.conditional, i.scope)) =
        [("__future__", true, false, 0), ("a.b", false, false, 0), ("d", false, false, 0),
          (".", true, true, 0), ("f", false, true, 0), ("i", true, true, 2),
          ("j", false, true, 0)] := by
  intro source
  have hextract : extract "t.py" source =
      .ok (modelOf "t.py" source.toList (parse source.toList)) :=
    extract_eq_ok_iff.2 ⟨by decide +kernel, rfl⟩
  exact ⟨_, hextract, accountsForImports hextract, by decide +kernel⟩

end SourceCorpus.Extraction
