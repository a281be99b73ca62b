import SourceCorpus.Syntax.Target

/-!
The shape of syntax trees: which children a node of each kind may have, as far as a walk over the
tree depends on it. Main statements: expressions stay in shape when they are read again as targets or
when a star moves to their first part.
-/

namespace SourceCorpus.Syntax

namespace Kind

def isDefinition : Kind → Bool
  | functionDefinition | classDefinition => Bool.true
  | _ => Bool.false

def isAssignment : Kind → Bool
  | assignment | augmentedAssignment => Bool.true
  | _ => Bool.false

def isImport : Kind → Bool
  | importStatement | importFromStatement | futureImportStatement => Bool.true
  | _ => Bool.false

/-- Definitions, assignments and imports, which are statements of which expressions know nothing. -/
def isDeclaration (kind : Kind) : Bool :=
  kind.isDefinition || (kind.isAssignment || kind.isImport)

/-- Definitions and compound statements, of which the blocks run on some paths only. -/
def isBranching : Kind → Bool
  | functionDefinition | classDefinition | ifStatement | forStatement | whileStatement
  | tryStatement | withStatement | matchStatement => Bool.true
  | _ => Bool.false

theorem isDefinition_eq_false {kind : Kind} (h : kind.isDeclaration = Bool.false) :
    kind.isDefinition = Bool.false := (Bool.or_eq_false_iff.1 h).1

theorem isAssignment_eq_false {kind : Kind} (h : kind.isDeclaration = Bool.false) :
    kind.isAssignment = Bool.false := (Bool.or_eq_false_iff.1 (Bool.or_eq_false_iff.1 h).2).1

theorem isImport_eq_false {kind : Kind} (h : kind.isDeclaration = Bool.false) :
    kind.isImport = Bool.false := (Bool.or_eq_false_iff.1 (Bool.or_eq_false_iff.1 h).2).2

/-- Parameter lists, what stands only in them, and decorators. -/
def isConfined : Kind → Bool
  | parameters | lambdaParameters | typedParameter | defaultParameter | typedDefaultParameter
  | typeParameter | decorator => Bool.true
  | _ => Bool.false

end Kind

namespace Tree

mutual

/-- What holds of a node as soon as it holds of its children holds of every tree. -/
theorem induction {P : Tree → Prop}
    (node : ∀ kind role extent children, (∀ c ∈ children, P c) →
      P (.node kind role extent children))
    (error : ∀ extent children, (∀ c ∈ children, P c) → P (.error extent children))
    (missing : ∀ token place, P (.missing token place)) : ∀ t : Tree, P t
  | .node kind role extent children =>
    node kind role extent children (inductionAll node error missing children)
  | .error extent children => error extent children (inductionAll node error missing children)
  | .missing token place => missing token place

theorem inductionAll {P : Tree → Prop}
    (node : ∀ kind role extent children, (∀ c ∈ children, P c) →
      P (.node kind role extent children))
    (error : ∀ extent children, (∀ c ∈ children, P c) → P (.error extent children))
    (missing : ∀ token place, P (.missing token place)) : ∀ ts : List Tree, ∀ c ∈ ts, P c
  | [] => List.forall_mem_nil P
  | t :: ts => List.forall_mem_cons.2
    ⟨induction node error missing t, inductionAll node error missing ts⟩

end

def isDefinition (t : Tree) : Bool := t.kind?.any Kind.isDefinition

def isAssignment (t : Tree) : Bool := t.kind?.any Kind.isAssignment

def isImport (t : Tree) : Bool := t.kind?.any Kind.isImport

def isSide (t : Tree) : Bool := t.hasRole .left || t.hasRole .right

/-- The node is no type beside a name and has no place of its own. -/
def isOrdinary (t : Tree) : Bool :=
  !(t.hasRole .type || t.hasRole .returnType || t.kind?.any Kind.isConfined)

def Avoids (p : Kind → Bool) (t : Tree) : Prop := ∀ n ∈ t.preorder, n.kind?.any p = false

abbrev HasNoDefinition (t : Tree) : Prop := t.Avoids Kind.isDefinition

abbrev HasNoImport (t : Tree) : Prop := t.Avoids Kind.isImport

abbrev HasNoDeclaration (t : Tree) : Prop := t.Avoids Kind.isDeclaration

abbrev HasNoCall (t : Tree) : Prop := t.Avoids (· == .call)

abbrev IsInert (t : Tree) : Prop := t.Avoids fun k => k.isDeclaration || k == .call

theorem preorderAll_eq_flatMap (ts : List Tree) : preorderAll ts = ts.flatMap preorder := by
  induction ts with
  | nil => rfl
  | cons t ts ih => rw [preorderAll, ih, List.flatMap_cons]

theorem preorder_node (kind : Kind) (role : Option Role) (extent : Extent) (children : List Tree) :
    (node kind role extent children).preorder =
      node kind role extent children :: children.flatMap preorder := by
  rw [preorder, preorderAll_eq_flatMap]

theorem self_mem_preorder (t : Tree) : t ∈ t.preorder := by
  cases t with
  | node => exact List.mem_cons_self
  | error => exact List.mem_cons_self
  | missing => exact List.mem_cons_self

theorem mem_preorder_of_mem_children {t c u : Tree} (hc : c ∈ t.children) (hu : u ∈ c.preorder) :
    u ∈ t.preorder := by
  cases t with
  | node =>
    rw [preorder_node]
    exact List.mem_cons_of_mem _ (List.mem_flatMap.2 ⟨c, hc, hu⟩)
  | error =>
    rw [preorder, preorderAll_eq_flatMap]
    exact List.mem_cons_of_mem _ (List.mem_flatMap.2 ⟨c, hc, hu⟩)
  | missing => cases hc

theorem mem_preorder_trans {t c u : Tree} (hc : c ∈ t.preorder) (hu : u ∈ c.preorder) :
    u ∈ t.preorder := by
  have hchildren {children : List Tree} (ih : ∀ a ∈ children, c ∈ a.preorder → u ∈ a.preorder)
      (hmem : c ∈ children.flatMap preorder) : u ∈ children.flatMap preorder := by
    obtain ⟨a, ha, hca⟩ := List.mem_flatMap.1 hmem
    exact List.mem_flatMap.2 ⟨a, ha, ih a ha hca⟩
  induction t using Tree.induction with
  | node kind role extent children ih =>
    rw [preorder_node] at hc ⊢
    rcases List.mem_cons.1 hc with rfl | hc
    · rwa [preorder_node] at hu
    · exact List.mem_cons_of_mem _ (hchildren ih hc)
  | error extent children ih =>
    rw [preorder, preorderAll_eq_flatMap] at hc ⊢
    rcases List.mem_cons.1 hc with rfl | hc
    · rwa [preorder, preorderAll_eq_flatMap] at hu
    · exact List.mem_cons_of_mem _ (hchildren ih hc)
  | missing =>
    obtain rfl := List.mem_singleton.1 hc
    exact hu

theorem avoids_node {p : Kind → Bool} {kind : Kind} {role : Option Role} {extent : Extent}
    {children : List Tree} :
    (node kind role extent children).Avoids p ↔ p kind = false ∧ ∀ c ∈ children, c.Avoids p := by
  unfold Avoids
  rw [preorder_node, List.forall_mem_cons, List.forall_mem_flatMap]
  rfl

/-- A tree that avoids some kinds avoids fewer. -/
theorem Avoids.of_imp {p q : Kind → Bool} {t : Tree} (h : t.Avoids p)
    (himp : ∀ kind, p kind = false → q kind = false) : t.Avoids q := by
  intro n hn
  have havoids : n.kind?.any p = false := h n hn
  cases hkind : n.kind? with
  | none => rfl
  | some kind =>
    rw [hkind] at havoids
    exact himp kind havoids

theorem HasNoDeclaration.hasNoDefinition {t : Tree} (h : t.HasNoDeclaration) :
    t.HasNoDefinition := h.of_imp fun _ => Kind.isDefinition_eq_false

theorem HasNoDeclaration.hasNoImport {t : Tree} (h : t.HasNoDeclaration) : t.HasNoImport :=
  h.of_imp fun _ => Kind.isImport_eq_false

theorem IsInert.hasNoDeclaration {t : Tree} (h : t.IsInert) : t.HasNoDeclaration :=
  h.of_imp fun _ hkind => (Bool.or_eq_false_iff.1 hkind).1

theorem IsInert.hasNoCall {t : Tree} (h : t.IsInert) : t.HasNoCall :=
  h.of_imp fun _ hkind => (Bool.or_eq_false_iff.1 hkind).2

theorem IsInert.hasNoDefinition {t : Tree} (h : t.IsInert) : t.HasNoDefinition :=
  (IsInert.hasNoDeclaration h).hasNoDefinition

/-- No import in the tree is outside of the blocks of definitions and compound statements. -/
inductive Sheltered : Tree → Prop where
  | branch {kind : Kind} {role : Option Role} {extent : Extent} {children : List Tree}
    (h : kind.isBranching) : Sheltered (node kind role extent children)
  | node {kind : Kind} {role : Option Role} {extent : Extent} {children : List Tree}
    (h : kind.isImport = false) (sheltered : ∀ c ∈ children, c.Sheltered) :
    Sheltered (node kind role extent children)

def IsImportedName (t : Tree) : Prop :=
  t.isKind .dottedName ∨ (t.isKind .aliasedImport ∧ ∃ c ∈ t.children, c.hasRole .name)

end Tree

open SourceCorpus.Syntax.Tree

structure IsParameterName (t : Tree) : Prop where
  role : t.role? = none
  kind : t.isKind .identifier ∨ t.isKind .listSplatPattern ∨ t.isKind .dictionarySplatPattern
  parts : ∀ c ∈ t.children, c.role? = none
  behind : t.isKind .identifier = false → t.children ≠ []

inductive IsParameterForm : Tree → Prop where
  | trivia {t : Tree} (h : t.isTrivia) : IsParameterForm t
  | separator {t : Tree} (h : t.isKind .keywordSeparator ∨ t.isKind .positionalSeparator) :
    IsParameterForm t
  | tuple {t : Tree} (h : t.isKind .tuplePattern) : IsParameterForm t
  | name {t : Tree} (h : IsParameterName t) : IsParameterForm t
  | typed {role : Option Role} {extent : Extent} {name : Tree} {rest : List Tree}
      (hname : IsParameterName name)
      (hrest : ∀ c ∈ rest, (c.isKind .type ∧ c.hasRole .type) ∨ (c.isTrivia ∧ c.role? = none)) :
    IsParameterForm (.node .typedParameter role extent (name :: rest))
  | default {role : Option Role} {extent : Extent} {children : List Tree}
      (hname : ∃ c ∈ children, c.hasRole .name) (htype : ∀ c ∈ children, c.hasRole .type = false) :
    IsParameterForm (.node .defaultParameter role extent children)
  | typedDefault {role : Option Role} {extent : Extent} {children : List Tree}
      (hname : ∃ c ∈ children, c.hasRole .name) :
    IsParameterForm (.node .typedDefaultParameter role extent children)

/-- Whether the tree may be a child of a node of the kind. A child that a walk over the tree leaves
out is inert or has no declarations, and the name of a definition is an identifier. What stands on
the right of an assignment is one itself or has no declarations. -/
def Fits (parent : Kind) (c : Tree) : Prop :=
  match parent with
  | .identifier | .comment | .globalStatement | .nonlocalStatement => c.IsInert
  | .importStatement | .importFromStatement | .futureImportStatement =>
    c.IsInert ∧ (c.hasRole .name → c.IsImportedName)
  | .memberAccess => c.isOrdinary ∧ (c.hasRole .object ∨ c.IsInert)
  | .keywordArgument | .namedExpression => c.isOrdinary ∧ (c.hasRole .value ∨ c.IsInert)
  | .lambda =>
    (c.isOrdinary ∧ (c.hasRole .body ∨ c.IsInert)) ∨
      (c.isKind .lambdaParameters ∧ c.hasRole .parameters ∧ c.HasNoDeclaration)
  | .assignment =>
    c.HasNoDefinition ∧ ((c.hasRole .right ∧ c.isAssignment) ∨ c.HasNoDeclaration) ∧
      (c.hasRole .type ∨ (c.isOrdinary ∧ (c.hasRole .left ∨ c.hasRole .right ∨ c.IsInert)))
  | .augmentedAssignment =>
    c.HasNoDefinition ∧ ((c.hasRole .right ∧ c.isAssignment) ∨ c.HasNoDeclaration) ∧
      c.isOrdinary ∧ (c.hasRole .left ∨ c.hasRole .right ∨ c.IsInert)
  | .forInClause =>
    c.isOrdinary ∧ c.HasNoDeclaration ∧ (c.hasRole .left ∨ c.hasRole .right ∨ c.IsInert)
  | .forStatement =>
    c.isOrdinary ∧ (((c.hasRole .left ∨ c.hasRole .right) ∧ c.HasNoDeclaration) ∨
      c.hasRole .body ∨ c.hasRole .alternative ∨ c.IsInert)
  | .decoratedDefinition =>
    (c.isOrdinary ∧ ((c.hasRole .definition ∧ c.isDefinition) ∨
      (c.hasRole .definition = false ∧ c.IsInert))) ∨
        (c.role? = none ∧ c.isKind .decorator ∧ c.HasNoDeclaration)
  | .decorator => c.isOrdinary ∧ (c.isTrivia → c.IsInert)
  | .functionDefinition | .classDefinition =>
    (c.hasRole .body ∧ c.isKind .block) ∨
      (c.isOrdinary ∧ c.IsInert ∧ c.hasRole .body = false ∧ c.hasRole .parameters = false ∧
        (c.hasRole .name → c.isKind .identifier)) ∨
      (c.HasNoDeclaration ∧ ((c.hasRole .parameters ∧ c.isKind .parameters) ∨
        (c.hasRole .superclasses ∧ c.isKind .argumentList) ∨
        (c.hasRole .returnType ∧ c.isKind .type) ∨ (c.role? = none ∧ c.isKind .typeParameter)))
  | .parameters =>
    c.HasNoDeclaration ∧ c.isKind .parameters = false ∧ c.hasRole .type = false ∧
      c.hasRole .returnType = false ∧ IsParameterForm c
  | .lambdaParameters => c.HasNoDeclaration
  | .typedParameter | .defaultParameter | .typedDefaultParameter =>
    c.HasNoDeclaration ∧ (c.hasRole .value → c.isOrdinary)
  | .genericType =>
    c.isOrdinary ∨ (c.role? = none ∧ c.isKind .typeParameter ∧ c.HasNoDeclaration)
  | _ => c.isOrdinary

/-- Whether the children of a node of the kind include those that it has to have, and in order, and
nothing stands in comments and joined lines. -/
def IsComplete (kind : Kind) (children : List Tree) : Prop :=
  match kind with
  | .comment | .lineContinuation => children = []
  | .call => ∃ c ∈ children, c.hasRole .function
  | .functionDefinition | .classDefinition => ∃ c ∈ children, c.hasRole .name
  | .assignment | .augmentedAssignment => ∃ left rights, children.filter (·.isSide) = left :: rights ∧
    left.hasRole .left ∧ (∀ right ∈ rights, right.hasRole .right) ∧ rights.length ≤ 1
  | .importFromStatement => ∃ c ∈ children, c.hasRole .name ∨ c.isKind .wildcardImport
  | .futureImportStatement => ∃ c ∈ children, c.hasRole .name
  | .module => ∀ c ∈ children, c.isImport ∨ c.Sheltered
  | .decorator => (children.filter (!·.isTrivia)).length ≤ 1
  | .forStatement =>
    children.Pairwise fun c later => ¬(c.hasRole .alternative ∧ later.hasRole .body)
  | _ => True

inductive Shaped : Tree → Prop where
  | node {kind : Kind} {role : Option Role} {extent : Extent} {children : List Tree}
      (fits : ∀ c ∈ children, Fits kind c) (complete : IsComplete kind children)
      (shaped : ∀ c ∈ children, Shaped c) : Shaped (.node kind role extent children)

theorem Shaped.of_mem_preorder {t n : Tree} (h : Shaped t) (hn : n ∈ t.preorder) : Shaped n := by
  induction h with
  | @node kind role extent children fits complete shaped ih =>
    rw [preorder_node] at hn
    rcases List.mem_cons.1 hn with rfl | hn
    · exact .node fits complete shaped
    · obtain ⟨c, hc, hnc⟩ := List.mem_flatMap.1 hn
      exact ih c hc hnc

theorem Shaped.sheltered {t : Tree} (h : Shaped t) (hnone : t.HasNoImport) : t.Sheltered := by
  induction h with
  | node _ _ _ ih =>
    obtain ⟨hkind, hchildren⟩ := avoids_node.1 hnone
    exact .node hkind fun c hc => ih c hc (hchildren c hc)

/-- What is decorated is a definition, and decorators are expressions. -/
theorem Shaped.sheltered_of_fits {c : Tree} (h : Shaped c) (hfits : Fits .decoratedDefinition c) :
    c.Sheltered := by
  rcases hfits with ⟨-, ⟨-, hdefinition⟩ | ⟨-, hinert⟩⟩ | ⟨-, -, hnone⟩
  · cases h with
    | @node kind =>
      have hkind : kind.isDefinition := hdefinition
      exact .branch (by cases kind <;> first | rfl | cases hkind)
  · exact h.sheltered (IsInert.hasNoDeclaration hinert).hasNoImport
  · exact h.sheltered hnone.hasNoImport

/-- Assignments have nothing in them but expressions and each other. -/
theorem Shaped.hasNoImport {t : Tree} (h : Shaped t) (hassignment : t.isAssignment) :
    t.HasNoImport := by
  induction h with
  | @node kind role extent children fits _ _ ih =>
    have hkind : kind.isAssignment := hassignment
    have himport : kind.isImport = false := by cases kind <;> first | rfl | cases hkind
    refine avoids_node.2 ⟨himport, fun c hc => ?_⟩
    have hpart : (c.hasRole .right ∧ c.isAssignment) ∨ c.HasNoDeclaration := by
      cases kind <;> first | exact (fits c hc).2.1 | cases hkind
    exact hpart.elim (fun hright => ih c hc hright.2) (·.hasNoImport)

/-! ### Roles -/

theorem Tree.Avoids.withRole {p : Kind → Bool} {t : Tree} (h : t.Avoids p) (role : Role) :
    (t.withRole role).Avoids p := by
  cases t with
  | node => exact avoids_node.2 (avoids_node.1 h)
  | error => exact h
  | missing => exact h

theorem Shaped.withRole {t : Tree} (h : Shaped t) (role : Role) : Shaped (t.withRole role) := by
  cases h with
  | node fits complete shaped => exact .node fits complete shaped

theorem Shaped.hasRole_withRole {t : Tree} (h : Shaped t) (role role' : Role) :
    (t.withRole role).hasRole role' = (role == role') := by
  cases h with
  | node => rfl

theorem Tree.IsImportedName.withRole {t : Tree} (h : t.IsImportedName) (role : Role) :
    (t.withRole role).IsImportedName := by
  cases t <;> exact h

theorem isKind_withRole (t : Tree) (role : Role) (kind : Kind) :
    (t.withRole role).isKind kind = t.isKind kind := by
  cases t <;> rfl

/-- A kind of which nodes may have any children that are ordinary. -/
def Kind.isPlain : Kind → Bool
  | identifier | comment | lineContinuation | globalStatement | nonlocalStatement | importStatement
  | importFromStatement | futureImportStatement | memberAccess | keywordArgument | namedExpression
  | lambda | assignment | augmentedAssignment | forStatement | forInClause | decoratedDefinition
  | functionDefinition | classDefinition | parameters | lambdaParameters | typedParameter
  | defaultParameter | typedDefaultParameter | typeParameter | genericType | call
  | decorator | module => Bool.false
  | _ => Bool.true

structure Plain (t : Tree) : Prop where
  shaped : Shaped t
  hasNoDeclaration : t.HasNoDeclaration
  isOrdinary : t.isOrdinary = true

theorem Kind.isDeclaration_of_isPlain {kind : Kind} (h : kind.isPlain) :
    kind.isDeclaration = Bool.false := by
  cases kind <;> first | rfl | cases h

theorem Kind.isDefinition_of_isPlain {kind : Kind} (h : kind.isPlain) :
    kind.isDefinition = Bool.false := isDefinition_eq_false (isDeclaration_of_isPlain h)

theorem Kind.isConfined_of_isPlain {kind : Kind} (h : kind.isPlain) :
    kind.isConfined = Bool.false := by
  cases kind <;> first | rfl | cases h

theorem Kind.isTrivia_of_isPlain {kind : Kind} (h : kind.isPlain) :
    kind.isTrivia = Bool.false := by
  cases kind <;> first | rfl | cases h

theorem fits_of_isPlain {kind : Kind} (h : kind.isPlain) {c : Tree} (hc : c.isOrdinary) :
    Fits kind c := by
  cases kind <;> first | exact hc | cases h

theorem isOrdinary_of_fits {kind : Kind} (h : kind.isPlain) {c : Tree} (hc : Fits kind c) :
    c.isOrdinary := by
  cases kind <;> first | exact hc | cases h

theorem isComplete_of_isPlain {kind : Kind} (h : kind.isPlain) (children : List Tree) :
    IsComplete kind children := by
  cases kind <;> trivial

def Role.isOrdinary (role : Role) : Bool := !(role == .type || role == .returnType)

theorem isOrdinary_node {kind : Kind} (hkind : kind.isConfined = false) {role : Option Role}
    (hrole : role.all Role.isOrdinary) (extent : Extent) (children : List Tree) :
    (Tree.node kind role extent children).isOrdinary := by
  cases role <;> simp_all [Tree.isOrdinary, Tree.hasRole, Tree.role?, Tree.kind?, Role.isOrdinary]

structure Part (kind : Kind) (c : Tree) : Prop where
  fits : Fits kind c
  shaped : Shaped c
  hasNoDeclaration : c.HasNoDeclaration

theorem Plain.hasNoDefinition {t : Tree} (h : Plain t) : t.HasNoDefinition :=
  h.hasNoDeclaration.hasNoDefinition

theorem Plain.part {t : Tree} (h : Plain t) {kind : Kind} (hfits : Fits kind t) : Part kind t :=
  ⟨hfits, h.shaped, h.hasNoDeclaration⟩

theorem Plain.of_parts {kind : Kind} (hdeclaration : kind.isDeclaration = false)
    (hconfined : kind.isConfined = false) {role : Option Role}
    (hrole : role.all Role.isOrdinary) {extent : Extent} {children : List Tree}
    (hcomplete : IsComplete kind children) (h : ∀ c ∈ children, Part kind c) :
    Plain (.node kind role extent children) where
  shaped := .node (fun c hc => (h c hc).fits) hcomplete fun c hc => (h c hc).shaped
  hasNoDeclaration := avoids_node.2 ⟨hdeclaration, fun c hc => (h c hc).hasNoDeclaration⟩
  isOrdinary := isOrdinary_node hconfined hrole extent children

namespace Plain

theorem node {kind : Kind} (hkind : kind.isPlain) {role : Option Role}
    (hrole : role.all Role.isOrdinary) {extent : Extent} {children : List Tree}
    (h : ∀ c ∈ children, Plain c) : Plain (.node kind role extent children) :=
  .of_parts (Kind.isDeclaration_of_isPlain hkind) (Kind.isConfined_of_isPlain hkind) hrole
    (isComplete_of_isPlain hkind children) fun c hc =>
      (h c hc).part (fits_of_isPlain hkind (h c hc).isOrdinary)

variable {kind : Kind} {role : Option Role} {extent : Extent} {children : List Tree}

/-- The role and the extent of the node do not matter. -/
theorem relabel (h : Plain (.node kind role extent children)) {role' : Option Role}
    (hrole : role'.all Role.isOrdinary) (extent' : Extent) :
    Plain (.node kind role' extent' children) := by
  obtain ⟨hshaped, hnone, hordinary⟩ := h
  cases hshaped with
  | node fits complete shaped =>
    refine ⟨.node fits complete shaped, avoids_node.2 (avoids_node.1 hnone), ?_⟩
    exact isOrdinary_node (by simp_all [Tree.isOrdinary, Tree.kind?]) hrole extent' children

theorem withRole {t : Tree} (h : Plain t) {role : Role} (hrole : role.isOrdinary) :
    Plain (t.withRole role) := by
  cases t with
  | node kind role' extent children => exact h.relabel (by simpa using hrole) extent
  | error => exact h
  | missing => exact h

/-- Children of a plain node are plain, if nothing else is allowed there. -/
theorem of_mem (h : Plain (.node kind role extent children)) (hkind : kind.isPlain) {c : Tree}
    (hc : c ∈ children) : Plain c := by
  obtain ⟨hshaped, hnone, -⟩ := h
  cases hshaped with
  | node fits _ shaped =>
    exact ⟨shaped c hc, (avoids_node.1 hnone).2 c hc, isOrdinary_of_fits hkind (fits c hc)⟩

theorem role_isOrdinary (h : Plain (.node kind role extent children)) :
    role.all Role.isOrdinary := by
  have hordinary := h.isOrdinary
  cases role <;>
    simp_all [Tree.isOrdinary, Tree.hasRole, Tree.role?, Tree.kind?, Role.isOrdinary]

end Plain

/-- A node without children. -/
theorem plain_leaf {kind : Kind} (hdeclaration : kind.isDeclaration = false)
    (hconfined : kind.isConfined = false) (hcomplete : IsComplete kind []) (extent : Extent) :
    Plain (.node kind none extent []) where
  shaped := .node (List.forall_mem_nil _) hcomplete (List.forall_mem_nil _)
  hasNoDeclaration := avoids_node.2 ⟨hdeclaration, List.forall_mem_nil _⟩
  isOrdinary := isOrdinary_node hconfined rfl extent []

structure IsName (t : Tree) : Prop where
  plain : Plain t
  isInert : t.IsInert

theorem isName_leaf {kind : Kind} (hdeclaration : kind.isDeclaration = false)
    (hconfined : kind.isConfined = false) (hcomplete : IsComplete kind [])
    (hcall : kind ≠ .call) (extent : Extent) : IsName (.node kind none extent []) where
  plain := plain_leaf hdeclaration hconfined hcomplete extent
  isInert := avoids_node.2 ⟨by simp [hdeclaration, hcall], List.forall_mem_nil _⟩

/-! ### Gaps -/

def IsGap (t : Tree) : Prop := ∃ kind extent, t = .node kind none extent [] ∧ kind.isTrivia

namespace IsGap

variable {t : Tree}

theorem plain (h : IsGap t) : Plain t := by
  obtain ⟨kind, extent, rfl, hkind⟩ := h
  refine plain_leaf ?_ ?_ ?_ extent <;> cases kind <;> trivial

theorem isTrivia (h : IsGap t) : t.isTrivia := by
  obtain ⟨kind, extent, rfl, hkind⟩ := h
  exact hkind

theorem isInert (h : IsGap t) : t.IsInert := by
  obtain ⟨kind, extent, rfl, hkind⟩ := h
  cases kind <;> first | exact avoids_node.2 ⟨rfl, List.forall_mem_nil _⟩ | cases hkind

theorem role?_eq_none (h : IsGap t) : t.role? = none := by
  obtain ⟨kind, extent, rfl, -⟩ := h
  rfl

theorem hasRole_eq_false (h : IsGap t) (role : Role) : t.hasRole role = false := by
  obtain ⟨kind, extent, rfl, -⟩ := h
  rfl

theorem isKind_eq_false (h : IsGap t) {kind : Kind} (hkind : kind.isTrivia = false) :
    t.isKind kind = false := by
  obtain ⟨kind', extent, rfl, hkind'⟩ := h
  rw [isKind, beq_eq_false_iff_ne]
  rintro ⟨⟩
  rw [hkind'] at hkind
  cases hkind

theorem isName (h : IsGap t) : IsName t := ⟨h.plain, h.isInert⟩

/-- Gaps may be anywhere. -/
theorem fits (h : IsGap t) (kind : Kind) : Fits kind t := by
  have hordinary := h.plain.isOrdinary
  have hinert := h.isInert
  have hnone := h.plain.hasNoDeclaration
  have hparameters : t.isKind .parameters = false := h.isKind_eq_false rfl
  have hform : IsParameterForm t := .trivia h.isTrivia
  unfold Fits
  split <;> simp [hordinary, hinert, hnone, hnone.hasNoDefinition, h.hasRole_eq_false, hparameters,
    hform]

end IsGap

theorem IsGap.part {t : Tree} (h : IsGap t) (kind : Kind) : Part kind t :=
  ⟨h.fits kind, h.plain.shaped, h.plain.hasNoDeclaration⟩

theorem Kind.ne_call_of_isPlain {kind : Kind} (h : kind.isPlain) : kind ≠ .call := by
  rintro rfl
  cases h

theorem IsName.node {kind : Kind} (hkind : kind.isPlain) (extent : Extent) {children : List Tree}
    (h : ∀ c ∈ children, IsName c) : IsName (.node kind none extent children) where
  plain := .node hkind rfl fun c hc => (h c hc).plain
  isInert := by
    refine avoids_node.2 ⟨?_, fun c hc => (h c hc).isInert⟩
    simp [Kind.isDeclaration_of_isPlain hkind, Kind.ne_call_of_isPlain hkind]

theorem IsName.withRole {t : Tree} (h : IsName t) {role : Role} (hrole : role.isOrdinary) :
    IsName (t.withRole role) := ⟨h.plain.withRole hrole, h.isInert.withRole role⟩

theorem Plain.hasRole_withRole {t : Tree} (h : Plain t) (role : Role) :
    (t.withRole role).hasRole role := by
  rw [h.shaped.hasRole_withRole, beq_self_eq_true]

/-! ### Targets -/

theorem asTargets?_eq_some {ts targets : List Tree} (h : asTargets? ts = some targets) :
    ∀ target ∈ targets, ∃ t ∈ ts, t.asTarget? = some target := by
  induction ts generalizing targets with
  | nil =>
    cases h
    exact List.forall_mem_nil _
  | cons t ts ih =>
    rw [asTargets?] at h
    split at h
    next target rest ht hrest =>
      cases h
      rw [List.forall_mem_cons]
      refine ⟨⟨t, List.mem_cons_self, ht⟩, fun c hc => ?_⟩
      obtain ⟨u, hu, huc⟩ := ih hrest c hc
      exact ⟨u, List.mem_cons_of_mem t hu, huc⟩
    next => cases h

/-- The expression is read again as the target: it is one already, or its star becomes that of a
pattern, or it groups others that are read again. -/
inductive IsRetargeted : Tree → Tree → Prop where
  | same {kind : Kind} {role : Option Role} {extent : Extent} {children : List Tree}
      (hkind : kind = .identifier ∨ kind = .memberAccess ∨ kind = .subscript ∨ kind.isTrivia) :
      IsRetargeted (.node kind role extent children) (.node kind role extent children)
  | starred {role : Option Role} {extent : Extent} {children : List Tree}
      (hparts : ∀ c ∈ children,
        c.isKind .identifier ∨ c.isKind .memberAccess ∨ c.isKind .subscript ∨ c.isTrivia) :
      IsRetargeted (.node .listSplat role extent children)
        (.node .listSplatPattern role extent children)
  | grouped {kind kind' : Kind} {role : Option Role} {extent : Extent}
      {children targets : List Tree}
      (hkind : kind = .tuple ∨ kind = .parenthesizedExpression ∨ kind = .list)
      (hkind' : kind' = .tuplePattern ∨ kind' = .listPattern)
      (htargets : ∀ target ∈ targets, ∃ c ∈ children, c.asTarget? = some target) :
      IsRetargeted (.node kind role extent children) (.node kind' role extent targets)

theorem isRetargeted_of_asTarget? {t target : Tree} (ht : t.asTarget? = some target) :
    IsRetargeted t target := by
  cases t with
  | node kind role extent children =>
    unfold Tree.asTarget? at ht
    split at ht
    case h_4 | h_5 | h_6 =>
      obtain ⟨targets, htargets, rfl⟩ := Option.map_eq_some_iff.1 ht
      exact .grouped (by decide) (by decide) (asTargets?_eq_some htargets)
    case h_7 =>
      split at ht
      next hparts =>
        cases ht
        refine .starred fun c hc => ?_
        have hpart := List.all_eq_true.1 hparts c hc
        rw [Bool.or_eq_true, Bool.or_eq_true, Bool.or_eq_true] at hpart
        rcases hpart with ((h | h) | h) | h <;> simp [h]
      next => cases ht
    case h_10 => cases ht
    all_goals
      cases ht
      exact .same (by decide)
  | error => cases ht
  | missing => cases ht

theorem Plain.asTarget? {t : Tree} (h : Plain t) {target : Tree} (ht : t.asTarget? = some target) :
    Plain target := by
  induction t using Tree.induction generalizing target with
  | node kind role extent children ih =>
    cases isRetargeted_of_asTarget? ht with
    | same => exact h
    | starred => exact .node rfl h.role_isOrdinary fun c hc => h.of_mem rfl hc
    | grouped hkind hkind' htargets =>
      have hplain : kind.isPlain := by rcases hkind with rfl | rfl | rfl <;> rfl
      refine .node (by rcases hkind' with rfl | rfl <;> rfl) h.role_isOrdinary fun c hc => ?_
      obtain ⟨u, hu, huc⟩ := htargets c hc
      exact ih u hu (h.of_mem hplain hu) huc
  | error => cases ht
  | missing => cases ht

theorem isTrivia_asTarget? {t target : Tree} (ht : t.asTarget? = some target) :
    target.isTrivia = t.isTrivia := by
  cases isRetargeted_of_asTarget? ht with
  | same => rfl
  | starred => rfl
  | grouped hkind hkind' =>
    rcases hkind with rfl | rfl | rfl <;> rcases hkind' with rfl | rfl <;> rfl

/-! ### Stars -/

/-- What a star makes of a tree: the tree has the same role, and no new calls or definitions. -/
structure IsStarred (t t' : Tree) : Prop where
  plain : Plain t'
  role?_eq : t'.role? = t.role?
  avoids : ∀ p : Kind → Bool, p .listSplat = false → t.Avoids p → t'.Avoids p

theorem Plain.isStarred_starred {t : Tree} (h : Plain t) (start : Position) :
    IsStarred t (starred start t) := by
  cases t with
  | node kind role extent children =>
    refine ⟨.node rfl h.role_isOrdinary ?_, rfl, fun p hp ht => ?_⟩
    · rw [List.forall_mem_singleton]
      exact h.relabel rfl extent
    · rw [starred, avoids_node, List.forall_mem_singleton]
      exact ⟨hp, avoids_node.2 (avoids_node.1 ht)⟩
  | error => exact ⟨h, rfl, fun _ _ ht => ht⟩
  | missing => exact ⟨h, rfl, fun _ _ ht => ht⟩

theorem hasRole_eq_of_role?_eq {t t' : Tree} (h : t'.role? = t.role?) (role : Role) :
    t'.hasRole role = t.hasRole role := by
  rw [hasRole, hasRole, h]

def Kind.startsWithOperand (kind : Kind) : Bool :=
  kind == .memberAccess || kind == .call || kind.isPlain

theorem Kind.startsWithOperand_iff {kind : Kind} :
    kind.startsWithOperand ↔ kind = .memberAccess ∨ kind = .call ∨ kind.isPlain := by
  rw [startsWithOperand, Bool.or_eq_true, Bool.or_eq_true, beq_iff_eq, beq_iff_eq, or_assoc]

theorem Plain.isStarred_cons {kind : Kind} {role : Option Role} {extent extent' : Extent}
    {t t' : Tree} {ts : List Tree} (hkind : kind.startsWithOperand)
    (h : Plain (.node kind role extent (t :: ts))) (hstar : Plain t → IsStarred t t') :
    IsStarred (.node kind role extent (t :: ts)) (.node kind role extent' (t' :: ts)) := by
  have hcases := Kind.startsWithOperand_iff.1 hkind
  have hrole := h.role_isOrdinary
  obtain ⟨hshaped, hnone, -⟩ := h
  cases hshaped with
  | node fits complete shaped =>
    rw [List.forall_mem_cons] at fits shaped
    have htree := avoids_node.1 hnone
    rw [List.forall_mem_cons] at htree
    have hordinary : t.isOrdinary := by
      rcases hcases with rfl | rfl | hplain
      · exact fits.1.1
      · exact fits.1
      · exact isOrdinary_of_fits hplain fits.1
    obtain ⟨hnew, hsame, havoids⟩ := hstar ⟨shaped.1, htree.2.1, hordinary⟩
    -- The first child keeps its role, and with that the place that its parent has for it.
    have hfits : Fits kind t' := by
      rcases hcases with rfl | rfl | hplain
      · refine ⟨hnew.isOrdinary, fits.1.2.imp (fun hobject => ?_) (havoids _ rfl)⟩
        rw [hasRole_eq_of_role?_eq hsame, hobject]
      · exact hnew.isOrdinary
      · exact fits_of_isPlain hplain hnew.isOrdinary
    have hcomplete : IsComplete kind (t' :: ts) := by
      rcases hcases with rfl | rfl | hplain
      · trivial
      · obtain ⟨c, hc, hfunction⟩ := complete
        rcases List.mem_cons.1 hc with rfl | hc
        · exact ⟨t', List.mem_cons_self, (hasRole_eq_of_role?_eq hsame _).trans hfunction⟩
        · exact ⟨c, List.mem_cons_of_mem t' hc, hfunction⟩
      · exact isComplete_of_isPlain hplain _
    have hconfined : kind.isConfined = false := by
      rcases hcases with rfl | rfl | hplain
      · rfl
      · rfl
      · exact Kind.isConfined_of_isPlain hplain
    refine ⟨⟨.node ?_ hcomplete ?_, ?_, isOrdinary_node hconfined hrole _ _⟩, rfl, ?_⟩
    · exact List.forall_mem_cons.2 ⟨hfits, fits.2⟩
    · exact List.forall_mem_cons.2 ⟨hnew.shaped, shaped.2⟩
    · exact avoids_node.2 ⟨htree.1, List.forall_mem_cons.2 ⟨hnew.hasNoDeclaration, htree.2.2⟩⟩
    · intro p hp hall
      rw [avoids_node, List.forall_mem_cons] at hall ⊢
      exact ⟨hall.1, havoids p hp hall.2.1, hall.2.2⟩

/-- A star before a tree stands before the whole, or has moved into the first child. -/
inductive StarMoves (start : Position) : Tree → Tree → Prop where
  | before {kind : Kind} {role : Option Role} {extent : Extent} {children : List Tree} :
      StarMoves start (.node kind role extent children)
        (starred start (.node kind role extent children))
  | inside {kind : Kind} {role : Option Role} {extent : Extent} {c c' : Tree} {cs : List Tree}
      (hkind : kind.startsWithOperand) (hname : kind ≠ .identifier) (hfirst : StarMoves start c c') :
      StarMoves start (.node kind role extent (c :: cs))
        (.node kind role ⟨start, extent.stop⟩ (c' :: cs))

theorem starMoves_of_starLeading? {start : Position} {t t' : Tree}
    (ht : starLeading? start t = some t') : StarMoves start t t' := by
  induction t using Tree.induction generalizing t' with
  | node kind role extent children ih =>
    have hinside {parts : List Tree} (hkind : kind.startsWithOperand) (hname : kind ≠ .identifier)
        (hparts : starFirst? start children = some parts) :
        StarMoves start (.node kind role extent children)
          (.node kind role ⟨start, extent.stop⟩ parts) := by
      cases children with
      | nil => cases hparts
      | cons c cs =>
        obtain ⟨c', hc', rfl⟩ := Option.map_eq_some_iff.1 hparts
        exact .inside hkind hname (ih c List.mem_cons_self hc')
    -- A name takes the star, a member or an element does if its object cannot, and the other kinds only
    -- pass it on.
    unfold starLeading? at ht
    split at ht
    case h_1 =>
      cases ht
      exact .before
    case h_2 | h_3 =>
      split at ht
      next hparts =>
        cases ht
        exact hinside rfl (by decide) hparts
      next =>
        cases ht
        exact .before
    case h_10 => cases ht
    all_goals
      obtain ⟨parts, hparts, rfl⟩ := Option.map_eq_some_iff.1 ht
      exact hinside rfl (by decide) hparts
  | error => cases ht
  | missing => cases ht

theorem Plain.isStarred {start : Position} {t t' : Tree} (h : Plain t)
    (ht : starLeading? start t = some t') : IsStarred t t' := by
  have hmoves := starMoves_of_starLeading? ht
  clear ht
  induction hmoves with
  | before => exact h.isStarred_starred start
  | inside hkind _ _ ih => exact isStarred_cons hkind h ih

/-- A lone element keeps its star, or a part of it has the star and what is around that takes its
role. -/
inductive IsRestarred : Tree → Tree → Prop where
  | same {t : Tree} : IsRestarred t t
  | moved {kind : Kind} {role role' : Option Role} {extent extent' : Extent}
      {children children' : List Tree} {inner : Tree} (hinner : inner ∈ children)
      (hstar : starLeading? extent.start inner = some (.node kind role' extent' children')) :
      IsRestarred (.node .listSplat role extent children) (.node kind role extent' children')

theorem isRestarred_restarLone (t : Tree) : IsRestarred t t.restarLone := by
  unfold Tree.restarLone
  split
  next role extent children =>
    split
    next inner hinner =>
      have hmem : inner ∈ children := (List.mem_filter.1 (hinner ▸ List.mem_singleton_self inner)).1
      split
      next hstar => exact .moved hmem hstar
      next => exact .same
    next => exact .same
  next => exact .same

theorem Plain.restarLone {t : Tree} (h : Plain t) : Plain (restarLone t) := by
  have hrestarred := isRestarred_restarLone t
  generalize t.restarLone = t' at hrestarred ⊢
  cases hrestarred with
  | same => exact h
  | moved hinner hstar =>
    exact ((h.of_mem rfl hinner).isStarred hstar).plain.relabel h.role_isOrdinary _

theorem isTrivia_starLeading? {start : Position} {t t' : Tree}
    (ht : starLeading? start t = some t') : t'.isTrivia = false := by
  cases starMoves_of_starLeading? ht with
  | before => rfl
  | inside hkind =>
    rcases Kind.startsWithOperand_iff.1 hkind with rfl | rfl | hplain
    · rfl
    · rfl
    · exact Kind.isTrivia_of_isPlain hplain

theorem isTrivia_restarLone {t : Tree} (h : t.isTrivia = false) :
    (Tree.restarLone t).isTrivia = false := by
  have hrestarred := isRestarred_restarLone t
  generalize t.restarLone = t' at hrestarred ⊢
  cases hrestarred with
  | same => exact h
  | moved _ hstar =>
    have hkind := isTrivia_starLeading? hstar
    exact hkind

theorem isTrivia_withRole (role : Role) (t : Tree) : (t.withRole role).isTrivia = t.isTrivia := by
  cases t <;> rfl

end SourceCorpus.Syntax
