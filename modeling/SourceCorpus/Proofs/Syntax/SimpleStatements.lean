import SourceCorpus.Proofs.Syntax.CasePatterns
import SourceCorpus.Syntax.Statement

/-!
Statements of one line are read as trees in shape, of which assignments are the only ones that are
not plain.
-/

namespace SourceCorpus.Syntax

open SourceCorpus.Syntax.Tree

structure IsStatement (t : Tree) : Prop where
  shaped : Shaped t
  isOrdinary : t.isOrdinary = true

structure IsWhole (t : Tree) : Prop extends IsStatement t where
  exposes : t.isImport ∨ t.Sheltered

structure Member (kind : Kind) (c : Tree) : Prop where
  fits : Fits kind c
  shaped : Shaped c

structure IsTypeParameters (t : Tree) : Prop where
  shaped : Shaped t
  hasNoDeclaration : t.HasNoDeclaration
  hasNoRole : t.role? = none
  isTypeParameter : t.isKind .typeParameter

structure IsImportPart (t : Tree) : Prop extends IsName t where
  named : t.hasRole .name → t.IsImportedName

theorem Plain.isStatement {t : Tree} (h : Plain t) : IsStatement t := ⟨h.shaped, h.isOrdinary⟩

theorem Plain.isWhole {t : Tree} (h : Plain t) : IsWhole t :=
  ⟨h.isStatement, .inr (h.shaped.sheltered h.hasNoDeclaration.hasNoImport)⟩

theorem IsImportPart.member {t : Tree} (h : IsImportPart t) {kind : Kind} (hkind : kind.isImport) :
    Member kind t := by
  refine ⟨?_, h.plain.shaped⟩
  cases kind <;> first | exact ⟨h.isInert, h.named⟩ | cases hkind

theorem isImportPart_of_hasRole {t : Tree} (h : IsName t) {role : Role} (hrole : t.hasRole role)
    (hne : role ≠ .name) : IsImportPart t := by
  refine ⟨h, fun hname => ?_⟩
  rw [hasRole, beq_iff_eq] at hrole hname
  exact absurd (Option.some.inj (hrole.symm.trans hname)) hne

theorem Part.member {kind : Kind} {c : Tree} (h : Part kind c) : Member kind c :=
  ⟨h.fits, h.shaped⟩

theorem IsGap.member {t : Tree} (h : IsGap t) (kind : Kind) : Member kind t := (h.part kind).member

theorem isOrdinary_withRole {t : Tree} (h : t.isOrdinary) {role : Role} (hrole : role.isOrdinary) :
    (t.withRole role).isOrdinary := by
  cases t with
  | node kind role' extent children =>
    have hkind : kind.isConfined = false := by simp_all [Tree.isOrdinary, kind?]
    exact isOrdinary_node hkind (by simpa using hrole) extent children
  | error => exact h
  | missing => exact h

theorem IsStatement.withRole {t : Tree} (h : IsStatement t) {role : Role}
    (hrole : role.isOrdinary) : IsStatement (t.withRole role) :=
  ⟨h.shaped.withRole role, isOrdinary_withRole h.isOrdinary hrole⟩

theorem IsStatement.node {kind : Kind} (hconfined : kind.isConfined = false)
    {extent : Extent} {children : List Tree} (hcomplete : IsComplete kind children)
    (h : ∀ c ∈ children, Member kind c) : IsStatement (.node kind none extent children) :=
  ⟨.node (fun c hc => (h c hc).fits) hcomplete fun c hc => (h c hc).shaped,
    isOrdinary_node hconfined rfl extent children⟩

theorem IsStatement.member {t : Tree} (h : IsStatement t) {kind : Kind} (hkind : kind.isPlain) :
    Member kind t := ⟨fits_of_isPlain hkind h.isOrdinary, h.shaped⟩

theorem Adds.statements {p : Parse Unit} (h : Adds p (All Plain)) : Adds p (All IsStatement) :=
  h.imp fun _ hts => hts.imp fun _ => Plain.isStatement

theorem Adds.wholes {p : Parse Unit} (h : Adds p (All Plain)) : Adds p (All IsWhole) :=
  h.imp fun _ hts => hts.imp fun _ => Plain.isWhole

theorem Adds.parts {p : Parse Unit} (h : Adds p (All IsWhole)) : Adds p (All IsStatement) :=
  h.imp fun _ hts => hts.imp fun _ ht => ht.toIsStatement

theorem Plain.isAssignable {t : Tree} (h : Plain t) : IsAssignable t :=
  ⟨h.shaped, h.hasNoDefinition, h.isOrdinary, .inr h.hasNoDeclaration⟩

theorem IsAssignable.isStatement {t : Tree} (h : IsAssignable t) : IsStatement t :=
  ⟨h.shaped, h.isOrdinary⟩

theorem IsAssignable.withRole {t : Tree} (h : IsAssignable t) {role : Role}
    (hrole : role.isOrdinary) : IsAssignable (t.withRole role) := by
  refine ⟨h.shaped.withRole role, h.hasNoDefinition.withRole role,
    isOrdinary_withRole h.isOrdinary hrole, h.declares.imp (fun hassignment => ?_) (·.withRole role)⟩
  cases t <;> exact hassignment

/-- An expression on the left of an assignment, or whatever is assigned, on the right of it. -/
theorem IsAssignable.member {t : Tree} (h : IsAssignable t) {kind : Kind} (hkind : kind.isAssignment)
    (hrole : (t.hasRole .left ∧ t.HasNoDeclaration) ∨ t.hasRole .right) : Member kind t := by
  refine ⟨?_, h.shaped⟩
  have hdeclares : (t.hasRole .right ∧ t.isAssignment) ∨ t.HasNoDeclaration := by
    rcases hrole with hleft | hright
    · exact .inr hleft.2
    · exact h.declares.imp (And.intro hright) id
  have hside : t.hasRole .left ∨ t.hasRole .right ∨ t.IsInert := by
    rcases hrole with hleft | hright
    · exact .inl hleft.1
    · exact .inr (.inl hright)
  cases kind
  case assignment => exact ⟨h.hasNoDefinition, hdeclares, .inr ⟨h.isOrdinary, hside⟩⟩
  case augmentedAssignment => exact ⟨h.hasNoDefinition, hdeclares, h.isOrdinary, hside⟩
  all_goals cases hkind

namespace Parse

variable {self : Rule → Parse Unit} {older : List Tree}

theorem runs_close_statement {m : Mark} (hm : m.count = older.length) {kind : Kind}
    (hkind : kind.isPlain) :
    Runs (Holds older (All IsStatement)) (close m kind) (Holds older (All IsStatement)) := by
  refine .all (runs_close_all hm (Kind.isTrivia_of_isPlain hkind) fun extent children h => ?_)
  refine .node (Kind.isConfined_of_isPlain hkind) (isComplete_of_isPlain hkind children) ?_
  exact fun c hc => (h c hc).elim (fun hgap => hgap.member kind) fun ht => ht.member hkind

/-! ### Names -/

theorem runs_close_names {m : Mark} (hm : m.count = older.length) {kind : Kind}
    (hkind : kind.isPlain) :
    Runs (Holds older (All IsName)) (close m kind) (Holds older (All IsName)) :=
  .all (runs_close_all hm (Kind.isTrivia_of_isPlain hkind) fun extent _ h =>
    .node hkind extent fun c hc => (h c hc).elim IsGap.isName id)

/-- A statement that only names things. -/
theorem runs_close_naming {m : Mark} (hm : m.count = older.length) {kind : Kind}
    (hkind : kind = .globalStatement ∨ kind = .nonlocalStatement) :
    Runs (Holds older (All IsName)) (close m kind) (Holds older (One Plain)) := by
  have hparts (s : Progress) (hs : Holds older (All IsName) s) :
      Holds older (All (Part kind)) s := by
    refine hs.imp fun _ hts => hts.imp fun t ht => ht.plain.part ?_
    rcases hkind with rfl | rfl <;> exact ht.isInert
  refine .of_imp hparts ?_
  rcases hkind with rfl | rfl <;> exact runs_close_parts hm rfl rfl rfl fun _ => trivial

/-! ### Imports -/

theorem adds_aliasedName (follow : Expected) :
    Adds (aliasedName follow) (One fun t => IsName t ∧ t.IsImportedName) := by
  refine .peek_bind fun l => .mark l fun older m hm => (adds_dottedName follow older).bind fun _ => ?_
  refine .peek_bind fun next => .ite (fun _ => ?_) fun _ => ?_
  · have hname : Runs (Holds older (One fun t => IsName t ∧ t.isKind .dottedName))
        (mapSince m.count (·.withRole .name))
        (Holds older (Has (·.hasRole .name) IsName)) :=
      runs_withRole hm fun _ hts => by
        obtain ⟨t, rfl, ht, -⟩ := hts
        refine ⟨List.forall_mem_singleton.2 (ht.withRole rfl), _, List.mem_singleton_self _, ?_⟩
        exact ht.plain.hasRole_withRole .name
    have halias : Adds (inRole .asName identifier) (All IsName) :=
      adds_inRole adds_identifier.all fun _ hts => hts.map fun _ ht => ht.withRole rfl
    refine hname.bind fun _ => .take_bind fun _ => halias.keeps_has.bind fun _ => ?_
    refine runs_close_has hm rfl fun extent children h hname => ⟨?_, .inr ⟨rfl, hname⟩⟩
    exact .node rfl extent fun c hc => (h c hc).elim IsGap.isName id
  · refine Runs.imp (.done _) fun _ hs => hs.imp fun _ hts => hts.imp fun t ht => ?_
    exact ⟨ht.1, .inl ht.2⟩

/-- One more imported name. -/
theorem runs_importedName (follow : Expected) :
    Runs (Holds older (All IsImportPart)) (inRole .name (aliasedName follow))
      (Holds older (Has (·.hasRole .name) IsImportPart)) := by
  have hname : Adds (inRole .name (aliasedName follow))
      (One fun t => IsImportPart t ∧ t.hasRole .name) :=
    adds_inRole (adds_aliasedName follow) fun _ hts => hts.map fun t ht => by
      refine ⟨⟨ht.1.withRole rfl, fun _ => ?_⟩, ht.1.plain.hasRole_withRole .name⟩
      exact ht.2.withRole .name
  refine hname.behind.imp fun _ hs => hs.imp fun _ hts => ?_
  obtain ⟨_, others, rfl, ⟨t, rfl, ht, hrole⟩, hothers⟩ := hts
  exact ⟨List.forall_mem_cons.2 ⟨ht, hothers⟩, t, List.mem_cons_self, hrole⟩

theorem runs_moreNames {L : List Tree → Prop} (follow : Expected) :
    Runs (Holds older L) (do
      let l ← peek follow
      if l.isSign .comma then
        take l
        match (← peek follow).token with
        | .word _ => return true
        | _ => return false
      else return false) (Holds older L) := by
  refine .peek_bind fun l => .ite (fun _ => .take_bind fun _ => .peek_bind fun next => ?_) fun _ =>
    .done _
  split
  · exact .done _
  · exact .done _

theorem adds_importedNames (follow : Expected) :
    Adds (importedNames follow) (All IsImportPart) := by
  refine .of_keeps fun older => .repeated ((runs_importedName follow).bind fun _ => ?_)
  exact .of_imp (fun _ hs => hs.imp fun _ hts => hts.1) (runs_moreNames follow)

/-- At least one name is imported, unless the text is refused. -/
theorem runs_importedNames (follow : Expected) :
    Runs (fun s => Holds older (All IsImportPart) s ∧ s.limit ≠ 0) (importedNames follow)
      (Holds older (Has (·.hasRole .name) IsImportPart)) := by
  have hround : Runs (Holds older (All IsImportPart)) _
      (Holds older (Has (·.hasRole .name) IsImportPart)) :=
    (runs_importedName follow).bind fun _ => runs_moreNames follow
  refine .repeated_once (fun s hs => hs.2) (.of_imp (fun s hs => hs.1) hround) ?_
  exact .of_imp (fun _ hs => hs.imp fun _ hts => hts.1) hround

theorem runs_importedFrom :
    Runs (Holds older (All IsImportPart)) importedFrom
      (Holds older (Has (·.hasRole .name) IsImportPart)) := by
  refine .peek_bind_saw fun l => .ite (fun _ => ?_) fun _ => ?_
  · have htake : Runs (fun s => Holds older (All IsImportPart) s ∧ Saw {} l s) (take l)
        (fun s => Holds older (All IsImportPart) s ∧ s.limit ≠ 0) := by
      intro s a s' hs hp
      have hafter := quiet_take l older _ s a s' hs.1 hp
      cases hp
      exact ⟨hafter, hs.2.limit⟩
    exact htake.bind fun _ => (runs_importedNames _).bind fun _ => quiet_sign _ _ older _
  · exact .of_imp (fun s hs => ⟨hs.1, hs.2.limit⟩) (runs_importedNames _)

theorem runs_close_import {m : Mark} (hm : m.count = older.length) {kind : Kind}
    (hkind : kind.isImport) {Q : Tree → Prop}
    (hcomplete : ∀ children, (∃ c ∈ children, Q c) → IsComplete kind children) :
    Runs (Holds older (Has Q IsImportPart)) (close m kind) (Holds older (All IsWhole)) := by
  have hkinds : kind.isTrivia = false ∧ kind.isConfined = false := by
    cases kind <;> first | decide | cases hkind
  refine .all (runs_close_has hm hkinds.1 fun extent children h hspecial => ⟨?_, .inl hkind⟩)
  exact .node hkinds.2 (hcomplete children hspecial) fun c hc =>
    (h c hc).elim (fun hgap => hgap.member kind) fun hpart => hpart.member hkind

theorem adds_importStatement (l : Lookahead) : Adds (importStatement l) (All IsWhole) := by
  refine .node IsImportPart l fun older m hm => .take_bind fun _ => ?_
  refine (adds_importedNames _).keeps.bind fun _ => ?_
  refine .all (runs_close_all hm rfl fun extent children h => ⟨?_, .inl rfl⟩)
  exact .node rfl trivial fun c hc =>
    (h c hc).elim (fun hgap => hgap.member _) fun hpart => hpart.member rfl

theorem adds_importDots : Adds importDots (All IsName) := by
  refine .peek_bind fun l => .node IsName l fun older m hm => .bind (.repeated ?_) fun _ => ?_
  · exact .peek_bind fun l => .ite (fun _ => .take_bind fun _ => .done _) fun _ => .done _
  · exact runs_close_names hm rfl

theorem adds_importedModule (source : Lookahead) : Adds (importedModule source) (All IsName) := by
  have hdotted : Adds (dottedName {}) (All IsName) :=
    (adds_dottedName {}).all.imp fun _ hts => hts.imp fun _ ht => ht.1
  refine .ite (fun _ => ?_) fun _ => hdotted
  refine .node IsName source fun older m hm => adds_importDots.keeps.bind fun _ => ?_
  have hclose : Runs (Holds older (All IsName)) (close m .relativeImport)
      (Holds older (All IsName)) := runs_close_names hm rfl
  refine .peek_bind fun next => ?_
  split
  · exact .optional hdotted.keeps hclose
  · exact hclose

theorem adds_importFromStatement (l : Lookahead) : Adds (importFromStatement l) (All IsWhole) := by
  refine .node IsImportPart l fun older m hm => .take_bind fun _ => .peek_bind fun source => ?_
  refine .ite (fun _ => .take_bind fun _ => .quiet_bind (quiet_keyword _ _) fun _ => ?_) fun _ => ?_
  · exact runs_importedFrom.bind fun _ => runs_close_import hm rfl fun _ h => h
  · have hmodule : Adds (inRole .moduleName (importedModule source)) (All IsImportPart) :=
      adds_inRole (adds_importedModule source) fun _ hts => hts.map fun t ht =>
        isImportPart_of_hasRole (ht.withRole rfl) (ht.plain.hasRole_withRole .moduleName) (by decide)
    have hclose : Runs (Holds older (Has (fun c => c.hasRole .name ∨ c.isKind .wildcardImport)
        IsImportPart)) (close m .importFromStatement) (Holds older (All IsWhole)) :=
      runs_close_import hm rfl fun _ h => h
    refine hmodule.keeps.bind fun _ => .quiet_bind (quiet_keyword _ _) fun _ => ?_
    refine .peek_bind fun next => .ite (fun _ => ?_) fun _ => ?_
    · have hwildcard : Adds (leaf .wildcardImport next) (One (IsLeaf .wildcardImport)) :=
        adds_leaf rfl next
      refine hwildcard.behind.bind fun _ =>
        .of_imp (fun _ hs => hs.imp fun _ hts => ?_) hclose
      obtain ⟨_, others, rfl, ⟨t, rfl, ht⟩, hothers⟩ := hts
      have hname := ht.isName rfl
      obtain ⟨extent, rfl⟩ := ht
      have hpart : IsImportPart (.node .wildcardImport none extent []) :=
        ⟨hname, fun hrole => by cases hrole⟩
      exact ⟨List.forall_mem_cons.2 ⟨hpart, hothers⟩, _, List.mem_cons_self, .inr rfl⟩
    · refine runs_importedFrom.bind fun _ => .of_imp (fun _ hs => hs.imp fun _ hts => ?_) hclose
      obtain ⟨c, hc, hname⟩ := hts.2
      exact ⟨hts.1, c, hc, .inl hname⟩

/-! ### Other names -/

theorem adds_lineItems {item : Parse Unit} {T : Tree → Prop} (h : Adds item (All T)) :
    Adds (lineItems item) (All T) := by
  refine .of_keeps fun older => .repeated (h.keeps.bind fun _ => .peek_bind fun l => ?_)
  exact .ite (fun _ => .take_bind fun _ => .done _) fun _ => .done _

theorem adds_namesStatement {kind : Kind}
    (hkind : kind = .globalStatement ∨ kind = .nonlocalStatement) (l : Lookahead) :
    Adds (namesStatement kind l) (All Plain) := by
  refine .all (.node IsName l fun older m hm => .take_bind fun _ => ?_)
  exact (adds_lineItems adds_identifier.all).keeps.bind fun _ => runs_close_naming hm hkind

/-! ### Assignments -/

/-- Expressions before the sign of an assignment. There is only one, if no comma follows it. -/
def Items (isList : Bool) (ts : List Tree) : Prop := if isList then All Plain ts else One Plain ts

/-- What an assignment is read as, or else the expressions. They are one node where a value is
needed. -/
def Assigns (asValue : Bool) (ts : List Tree) : Prop :=
  if asValue then One IsAssignable ts else All IsAssignable ts

/-- The sides of an assignment, newest first: so many on the right, and one on the left. -/
structure HasSides (kind : Kind) (count : Nat) (ts : List Tree) : Prop where
  members : All (Member kind) ts
  sides : ∃ left rights, ts.filter (·.isSide) = rights ++ [left] ∧ left.hasRole .left ∧
    (∀ right ∈ rights, right.hasRole .right) ∧ rights.length = count

theorem Items.all {isList : Bool} {ts : List Tree} (h : Items isList ts) : All Plain ts := by
  cases isList with
  | true => exact h
  | false => exact One.all h

theorem Assigns.of_one {asValue : Bool} {ts : List Tree} (h : One IsAssignable ts) :
    Assigns asValue ts := by
  cases asValue with
  | true => exact h
  | false => exact h.all

theorem Assigns.of_one_plain {asValue : Bool} {ts : List Tree} (h : One Plain ts) :
    Assigns asValue ts := .of_one (h.imp fun _ => Plain.isAssignable)

theorem HasSides.of_left {kind : Kind} {ts : List Tree}
    (h : One (fun t => Member kind t ∧ t.hasRole .left) ts) : HasSides kind 0 ts := by
  obtain ⟨t, rfl, hmember, hleft⟩ := h
  refine ⟨List.forall_mem_singleton.2 hmember, t, [], ?_, hleft, List.forall_mem_nil _, rfl⟩
  rw [List.filter_cons, isSide, hleft]
  rfl

theorem HasSides.right {kind : Kind} {count : Nat} {ts : List Tree}
    (h : Behind (One fun t => Member kind t ∧ t.hasRole .right) (HasSides kind count) ts) :
    HasSides kind (count + 1) ts := by
  obtain ⟨_, others, rfl, ⟨t, rfl, hmember, ht⟩, hothers, left, rights, hsides, hleft, hrights, hcount⟩ := h
  refine ⟨List.forall_mem_cons.2 ⟨hmember, hothers⟩, left, t :: rights, ?_, hleft,
    List.forall_mem_cons.2 ⟨ht, hrights⟩, by rw [List.length_cons, hcount]⟩
  rw [List.singleton_append, List.filter_cons, isSide, ht, Bool.or_true, if_pos rfl, hsides,
    List.cons_append]

/-- What is on neither side changes nothing. -/
theorem HasSides.beside {kind : Kind} {count : Nat} {ts : List Tree}
    (h : Behind (One fun t => Member kind t ∧ t.hasRole .type) (HasSides kind count) ts) :
    HasSides kind count ts := by
  obtain ⟨_, others, rfl, ⟨t, rfl, hmember, ht⟩, hothers, hsides⟩ := h
  refine ⟨List.forall_mem_cons.2 ⟨hmember, hothers⟩, ?_⟩
  rw [hasRole, beq_iff_eq] at ht
  have hno : t.isSide = false := by simp [isSide, hasRole, ht]
  rwa [List.singleton_append, List.filter_cons, hno]

/-- The targets of an assignment become one node, which fits both kinds of it. -/
theorem runs_assignmentTargets {m : Mark} (hm : m.count = older.length) (isList : Bool) :
    Runs (Holds older (Items isList)) (assignmentTargets m isList)
      (Holds older (One (PlainIn .left))) := by
  have hleft : Runs (Holds older (One Plain)) (mapSince m.count (·.withRole .left))
      (Holds older (One (PlainIn .left))) :=
    runs_withRole hm fun _ hts => hts.map fun _ ht => ht.plainIn rfl
  cases isList with
  | true =>
    exact (runs_retarget hm).bind fun _ => (runs_close_plain hm rfl).bind fun _ => hleft
  | false =>
    have hretarget : Runs (Holds older (One Plain)) (retarget m.count) (Holds older (One Plain)) :=
      runs_retarget_of hm fun _ hts _ => hts.map fun t ht => by
        cases htarget : t.asTarget? with
        | none => exact ht
        | some target => exact ht.asTarget? htarget
    exact hretarget.bind fun _ => hleft

/-- Gaps are on neither side of an assignment. -/
theorem filter_isSide_content {children : List Tree} (hgaps : ∀ c ∈ children, c.isTrivia → IsGap c) :
    (content children).filter (·.isSide) = children.filter (·.isSide) := by
  rw [content, List.filter_filter]
  refine List.filter_congr fun c hc => ?_
  cases htrivia : c.isTrivia with
  | false => simp
  | true => simp [isSide, (hgaps c hc htrivia).hasRole_eq_false]

theorem runs_close_assignment {m : Mark} (hm : m.count = older.length) {kind : Kind}
    (hkind : kind.isAssignment) {count : Nat} (hcount : count ≤ 1) :
    Runs (Holds older (HasSides kind count)) (close m kind) (Holds older (One IsAssignable)) := by
  have hkinds : kind.isTrivia = false ∧ kind.isDefinition = false ∧ kind.isConfined = false := by
    cases kind <;> first | decide | cases hkind
  refine runs_close hm hkinds.1 fun extent children hgaps hsides => ?_
  have hmember : ∀ c ∈ children, Member kind c := fun c hc =>
    (isGap_or_of_content hgaps hsides.members c hc).elim (fun hgap => hgap.member kind) id
  have hnone : ∀ c ∈ children, c.HasNoDefinition := fun c hc => by
    cases kind <;> first | exact (hmember c hc).fits.1 | cases hkind
  have hordered : IsComplete .assignment children := by
    obtain ⟨left, rights, hfilter, hleft, hrights, hlength⟩ := hsides.sides
    refine ⟨left, rights.reverse, ?_, hleft, fun r hr => hrights r (List.mem_reverse.1 hr), ?_⟩
    · rw [List.filter_reverse, filter_isSide_content hgaps, List.reverse_eq_iff] at hfilter
      rw [hfilter, List.reverse_append]
      rfl
    · rwa [List.length_reverse, hlength]
  have hcomplete : IsComplete kind children := by
    cases kind <;> first | exact hordered | cases hkind
  exact ⟨.node (fun c hc => (hmember c hc).fits) hcomplete fun c hc => (hmember c hc).shaped,
    avoids_node.2 ⟨hkinds.2.1, hnone⟩, isOrdinary_node hkinds.2.2 rfl extent children, .inl hkind⟩

section

variable (hself : ∀ rule, Adds (self rule) rule.Yields)
include hself

theorem runs_rightOfAssignment {kind : Kind} (hkind : kind.isAssignment) :
    Runs (Holds older (HasSides kind 0)) (inRole .right (self .rightSide))
      (Holds older (HasSides kind 1)) := by
  have hside : Adds (inRole .right (self .rightSide))
      (One fun t => Member kind t ∧ t.hasRole .right) :=
    adds_inRole (hself .rightSide) fun _ hts => hts.map fun t ht => by
      have hrole : (t.withRole .right).hasRole .right := by
        rw [ht.shaped.hasRole_withRole, beq_self_eq_true]
      exact ⟨(ht.withRole rfl).member hkind (.inr hrole), hrole⟩
  exact hside.behind.imp fun _ hs => hs.imp fun _ => HasSides.right

theorem runs_typeOfAssignment :
    Runs (Holds older (HasSides .assignment 0)) (inRole .type (typeHint self true .lineEnd))
      (Holds older (HasSides .assignment 0)) := by
  have hhint : Adds (inRole .type (typeHint self true .lineEnd))
      (One fun t => Member .assignment t ∧ t.hasRole .type) :=
    adds_inRole (adds_typeHint hself true .lineEnd) fun _ hts => hts.map fun t ht => by
      have hnone : (t.withRole .type).HasNoDeclaration := ht.hasNoDeclaration.withRole .type
      have hrole := ht.hasRole_withRole .type
      exact ⟨⟨⟨hnone.hasNoDefinition, .inr hnone, .inl hrole⟩, ht.shaped.withRole .type⟩, hrole⟩
  exact hhint.behind.imp fun _ hs => hs.imp fun _ => HasSides.beside

theorem runs_assignmentOr {m : Mark} (hm : m.count = older.length) (isList asValue : Bool) :
    Runs (Holds older (Items isList)) (assignmentOr self m isList asValue)
      (Holds older (Assigns asValue)) := by
  have hleft (kind : Kind) (hkind : kind.isAssignment) :
      Runs (Holds older (Items isList)) (assignmentTargets m isList)
        (Holds older (HasSides kind 0)) :=
    (runs_assignmentTargets hm isList).imp fun _ hs => hs.imp fun _ hts =>
      .of_left (hts.imp fun _ ht =>
        ⟨ht.1.isAssignable.member hkind (.inl ⟨ht.2, ht.1.hasNoDeclaration⟩), ht.2⟩)
  have hclose {kind : Kind} (hkind : kind.isAssignment) {count : Nat} (hcount : count ≤ 1) :
      Runs (Holds older (HasSides kind count)) (close m kind) (Holds older (Assigns asValue)) :=
    (runs_close_assignment hm hkind hcount).imp fun _ hs => hs.imp fun _ => .of_one
  -- An equals sign, an operator with one, a colon, or no assignment at all.
  refine .peek_bind fun l => .ite (fun _ => ?_) fun _ => .ite (fun _ => ?_) fun _ =>
    .ite (fun _ => ?_) fun _ => ?_
  · refine (hleft .assignment rfl).bind fun _ => .take_bind fun _ => ?_
    exact (runs_rightOfAssignment hself rfl).bind fun _ => hclose rfl (Nat.le_refl 1)
  · refine (hleft .augmentedAssignment rfl).bind fun _ => .take_bind fun _ => ?_
    exact (runs_rightOfAssignment hself rfl).bind fun _ => hclose rfl (Nat.le_refl 1)
  · refine (hleft .assignment rfl).bind fun _ => .take_bind fun _ => ?_
    refine (runs_typeOfAssignment hself).bind fun _ => .peek_bind fun l => ?_
    refine .ite (fun _ => .take_bind fun _ => ?_) fun _ => hclose rfl (Nat.zero_le 1)
    exact (runs_rightOfAssignment hself rfl).bind fun _ => hclose rfl (Nat.le_refl 1)
  · refine .ite (fun _ => ?_) fun hnot => (Runs.done _).imp fun _ hs => hs.imp fun ts hts => ?_
    · refine .of_imp (fun _ hs => hs.imp fun _ => Items.all) ?_
      exact (runs_close_plain hm rfl).imp fun _ hs => hs.imp fun _ => .of_one_plain
    · cases isList with
      | false => exact .of_one_plain hts
      | true =>
        cases asValue with
        | false => exact All.imp hts fun _ => Plain.isAssignable
        | true => exact absurd rfl hnot

theorem adds_assignable (asValue : Bool) : Adds (assignable self asValue) (Assigns asValue) := by
  have hexpression := adds_expressionIn hself .lineEnd
  refine .peek_bind fun first => .mark first fun older m hm => .ite (fun _ => ?_) fun _ => ?_
  · exact ((adds_yieldExpression hself first .lineEnd).imp fun _ => .of_one_plain) older
  · have hone : Adds (expressionIn self .lineEnd) (One Plain) := adds_expression_one hself 0 false _
    refine (hone older).bind fun _ => .peek_bind_saw fun l => ?_
    cases hcomma : l.isSign .comma with
    | true =>
      refine .of_imp (fun s hs => hs.1.imp fun _ => One.all) (.bind (.repeated ?_) fun _ =>
        runs_assignmentOr hself hm true asValue)
      refine .peek_bind fun l => .ite (fun _ => ?_) fun _ => .done _
      refine .take_bind fun _ => .peek_bind fun _ => .ite (fun _ => ?_) fun _ => .done _
      exact hexpression.keeps.bind fun _ => .done _
    | false =>
      refine (Runs.repeated_stops fun s hs => ?_).bind fun _ =>
        .of_imp (fun s hs => hs.1) (runs_assignmentOr hself hm false asValue)
      -- The same token is seen again, and it is no comma.
      change (peek .lineEnd s).bind _ = _
      rw [hs.2.again]
      change (if l.isSign .comma then _ else (pure false : Parse Bool)) s = _
      rw [hcomma]
      rfl

theorem adds_expressionStatement (l : Lookahead) :
    Adds (expressionStatement self l) (All IsWhole) := by
  refine .mark l fun older m hm => (adds_assignable hself false older).bind fun _ => .all ?_
  refine runs_close_all hm rfl fun extent children h => ?_
  have hpart : ∀ c ∈ children, Member .expressionStatement c ∧ c.HasNoImport := fun c hc => by
    rcases h c hc with hgap | ht
    · exact ⟨hgap.member _, hgap.plain.hasNoDeclaration.hasNoImport⟩
    · exact ⟨ht.isStatement.member rfl, ht.declares.elim ht.shaped.hasNoImport (·.hasNoImport)⟩
  refine ⟨.node rfl trivial fun c hc => (hpart c hc).1, .inr (.node rfl fun c hc => ?_)⟩
  exact (hpart c hc).1.shaped.sheltered (hpart c hc).2

/-! ### Other statements -/

theorem adds_listStatement {kind : Kind} (hkind : kind.isPlain) (isOptional : Bool) (l : Lookahead) :
    Adds (listStatement self kind isOptional l) (All Plain) := by
  refine .all (.node Plain l fun older m hm => .take_bind fun _ => .peek_bind fun next => ?_)
  exact .optional (adds_expressionList hself _).all.keeps (runs_close_plain hm hkind)

theorem adds_raiseStatement (l : Lookahead) : Adds (raiseStatement self l) (All Plain) := by
  refine .all (.node Plain l fun older m hm => .take_bind fun _ => .peek_bind fun next => ?_)
  refine .optional (adds_expressionList hself _).all.keeps (.peek_bind fun next => ?_)
  have hclose : Runs (Holds older (All Plain)) (close m .raiseStatement) (Holds older (One Plain)) :=
    runs_close_plain hm rfl
  refine .ite (fun _ => .take_bind fun _ => ?_) fun _ => hclose
  exact (adds_expressionIn hself _).keeps.bind fun _ => hclose

theorem adds_assertStatement (l : Lookahead) : Adds (assertStatement self l) (All Plain) :=
  .all (.node Plain l fun _ _ hm => .take_bind fun _ =>
    (adds_lineItems (adds_expressionIn hself _)).keeps.bind fun _ => runs_close_plain hm rfl)

theorem adds_printed : Adds (printed self) (All Plain) := by
  refine .of_keeps fun older => .repeated ((adds_expressionIn hself _).keeps.bind fun _ => ?_)
  refine .peek_bind fun l => .ite (fun _ => ?_) fun _ => .done _
  exact .take_bind fun _ => .peek_bind fun _ => .done _

theorem adds_printStatement (l : Lookahead) : Adds (printStatement self l) (All Plain) := by
  refine .all (.node Plain l fun older m hm => .take_bind fun _ => .peek_bind fun next => ?_)
  have hclose : Runs (Holds older (All Plain)) (close m .printStatement) (Holds older (One Plain)) :=
    runs_close_plain hm rfl
  have hprinted : Runs (Holds older (All Plain)) (printed self) (Holds older (All Plain)) :=
    (adds_printed hself).keeps
  refine .ite (fun _ => ?_) fun _ => hprinted.bind fun _ => hclose
  refine .mark next fun inner target htarget hback => .of_all (T := Plain) (.take_bind fun _ => ?_)
  refine (adds_expressionIn hself _).keeps.bind fun _ => ?_
  refine (runs_close_all_plain htarget rfl).bind fun _ => .back hback (.peek_bind fun l => ?_)
  refine .ite (fun _ => .take_bind fun _ => .peek_bind fun _ => ?_) fun _ => hclose
  exact .optional hprinted hclose

theorem adds_executed : Adds (executed self) (All Plain) := by
  refine .peek_bind fun code => ?_
  split
  · exact (adds_stringLiteral hself _ _).all
  · exact adds_leaf_identifier_plain _
  · exact fun _ => runs_fail _

theorem adds_execStatement (l : Lookahead) : Adds (execStatement self l) (All Plain) := by
  refine .all (.node Plain l fun older m hm => .take_bind fun _ => ?_)
  have hclose : Runs (Holds older (All Plain)) (close m .execStatement) (Holds older (One Plain)) :=
    runs_close_plain hm rfl
  refine (adds_executed hself).keeps.bind fun _ => .peek_bind fun next => ?_
  refine .ite (fun _ => .take_bind fun _ => ?_) fun _ => hclose
  exact (adds_lineItems (adds_expressionIn hself _)).keeps.bind fun _ => hclose

/-! ### Types -/

theorem adds_typeParameter : Adds (typeParameter self) (All Plain) := by
  refine .peek_bind fun l => .node Plain l fun older m hm => .ite (fun _ => ?_) fun _ => ?_
  · refine .take_bind fun _ => adds_identifier_plain.keeps.bind fun _ => ?_
    exact (runs_close_all_plain hm rfl).bind fun _ => runs_close_all_plain hm rfl
  · exact (adds_typeHint hself _ _).all.keeps

theorem adds_typeParameters : Adds (typeParameters self) (All IsTypeParameters) := by
  refine .peek_bind fun l => .ite (fun _ => ?_) fun _ => .of_keeps fun _ => .done _
  refine .all (.node Plain l fun older m hm => .take_bind fun _ => ?_)
  refine (adds_typeParameter hself).keeps.bind fun _ => ?_
  refine (adds_moreItems (adds_typeParameter hself) _).keeps.bind fun _ => ?_
  refine runs_close_all hm rfl fun extent children h => ?_
  have hplain : ∀ c ∈ children, Plain c := fun c hc => (h c hc).elim IsGap.plain id
  refine ⟨.node (fun c hc => (hplain c hc).isOrdinary) trivial fun c hc => (hplain c hc).shaped, ?_,
    rfl, rfl⟩
  exact avoids_node.2 ⟨rfl, fun c hc => (hplain c hc).hasNoDeclaration⟩

theorem adds_typeOperand (follow : Expected) : Adds (typeOperand self follow) (All Plain) := by
  refine .peek_bind fun first => .mark first fun older m hm => .get fun before hbefore => ?_
  refine .take_bind fun _ => .peek_bind fun next => .bind (.set hbefore) fun _ => ?_
  refine .ite (fun _ => .of_all (T := Part .genericType) ?_) fun _ => .of_all (T := Plain) ?_
  · have hname : Adds (leaf .identifier first) (All (Part .genericType)) :=
      (adds_leaf_identifier_plain first).imp fun _ hts => hts.imp fun _ ht =>
        ht.part (.inl ht.isOrdinary)
    have hbrackets : Adds (typeParameters self) (All (Part .genericType)) :=
      (adds_typeParameters hself).imp fun _ hts => hts.imp fun _ ht =>
        ⟨.inr ⟨ht.hasNoRole, ht.isTypeParameter, ht.hasNoDeclaration⟩, ht.shaped, ht.hasNoDeclaration⟩
    refine hname.keeps.bind fun _ => hbrackets.keeps.bind fun _ => ?_
    exact .bind (.all (runs_close_parts hm rfl rfl rfl fun _ => trivial)) fun _ => .done _
  · exact (adds_expressionIn hself _).keeps.bind fun _ => .done _

theorem runs_typeStep (follow : Expected) {m : Mark} (hm : m.count = older.length) :
    Runs (Holds older (All Plain)) (typeStep self follow m) (Holds older (All Plain)) := by
  refine .peek_bind fun l => .ite (fun _ => .take_bind fun _ => ?_) fun _ => .ite (fun _ => ?_) fun _ => ?_
  · refine (adds_typeOperand hself _).keeps.bind fun _ => ?_
    exact (runs_close_all_plain hm rfl).bind fun _ => .done _
  · refine .take_bind fun _ => adds_identifier_plain.keeps.bind fun _ => ?_
    exact (runs_close_all_plain hm rfl).bind fun _ => .done _
  · exact .done _

theorem adds_aliasedType (follow : Expected) : Adds (aliasedType self follow) (All Plain) := by
  refine .peek_bind fun l => .node Plain l fun older m hm => ?_
  refine (adds_typeOperand hself _).keeps.bind fun _ => ?_
  refine .optional (.repeated (runs_typeStep hself follow hm)) ?_
  exact (adds_typeBounds hself _).keeps.bind fun _ => runs_close_all_plain hm rfl

theorem adds_typeAliasStatement (l : Lookahead) :
    Adds (typeAliasStatement self l) (All Plain) := by
  refine .node Plain l fun older m hm => .take_bind fun _ => ?_
  refine (adds_aliasedType hself _).keeps.bind fun _ => .quiet_bind (quiet_sign _ _) fun _ => ?_
  exact (adds_aliasedType hself _).keeps.bind fun _ => runs_close_all_plain hm rfl

/-! ### Lines -/

omit hself in
theorem quiet_endsSimple : Quiet endsSimple := by
  refine (quiet_peek _).bind fun l => ?_
  split
  · exact .pure _
  · exact .pure _
  · exact quiet_fail _

omit hself in
theorem adds_preferring {first second : Parse Unit} (hfirst : Adds first (All IsWhole))
    (hsecond : Adds second (All IsWhole)) : Adds (preferring first second) (All IsWhole) :=
  fun older => .orElse ((hfirst older).bind fun _ => quiet_endsSimple older _) (hsecond older)

theorem adds_simpleStatement (l : Lookahead) :
    Adds (simpleStatement self l) (All IsWhole) := by
  have hexpression := adds_expressionStatement hself l
  have hprint := (adds_printStatement hself l).wholes
  have hexec := (adds_execStatement hself l).wholes
  have hword {kind : Kind} (hkind : kind.isPlain) : Adds (wordStatement kind l) (All IsWhole) :=
    (adds_leaf_plain hkind l).all.wholes
  unfold simpleStatement
  split
  · exact adds_importStatement l
  · exact adds_importFromStatement l
  · exact (adds_assertStatement hself l).wholes
  · exact (adds_listStatement hself rfl true l).wholes
  · exact (adds_listStatement hself rfl false l).wholes
  · exact (adds_raiseStatement hself l).wholes
  · exact hword rfl
  · exact hword rfl
  · exact hword rfl
  · exact (adds_namesStatement (.inl rfl) l).wholes
  · exact (adds_namesStatement (.inr rfl) l).wholes
  -- Words that are statements only if the rest of the line fits are read once for each meaning.
  · intro older
    refine .get fun before hbefore => .take_bind fun _ => .peek_bind fun next => ?_
    refine .bind (.set hbefore) fun _ => .ite (fun _ => hprint older) fun _ => ?_
    refine .ite (fun _ => ?_) fun _ => hexpression older
    exact adds_preferring hexpression hprint older
  · intro older
    refine .get fun before hbefore => .take_bind fun _ => .peek_bind fun next => ?_
    refine .bind (.set hbefore) fun _ => ?_
    split
    · exact adds_preferring hexpression hexec older
    · exact adds_preferring hexpression hexec older
    · exact hexpression older
  · intro older
    refine .get fun before hbefore => .take_bind fun _ => .peek_bind fun next => ?_
    refine .bind (.set hbefore) fun _ => .ite (fun _ => ?_) fun _ => hexpression older
    exact adds_preferring (adds_typeAliasStatement hself l).wholes hexpression older
  · exact hexpression

theorem adds_simpleLine (first : Lookahead) : Adds (simpleLine self first) (All IsWhole) := by
  have hstatement := adds_simpleStatement hself
  refine .of_keeps fun older => (hstatement first).keeps.bind fun _ => .repeated ?_
  refine .peek_bind fun l => ?_
  split
  · exact .quiet_bind (quiet_takeLayout l) fun _ => .done _
  · refine .take_bind fun _ => .peek_bind fun next => ?_
    split
    · exact .quiet_bind (quiet_takeLayout next) fun _ => .done _
    · exact runs_fail _
    · exact (hstatement next).keeps.bind fun _ => .done _
  · exact runs_fail _

end

end Parse

end SourceCorpus.Syntax
