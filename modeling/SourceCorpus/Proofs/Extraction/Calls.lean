import SourceCorpus.Proofs.Extraction.Walk
import SourceCorpus.Proofs.Extraction.Objects
import SourceCorpus.Proofs.Extraction.Ownership
import SourceCorpus.Proofs.Syntax.Grammar

/-!
The calls of a model. Main statement: each call that is evaluated is recorded once, in the object of
the innermost definition around it, and nothing else is recorded, exactly if the calls that are lost
behind joined lines in decorators are made up for by calls in the brackets of generic types.
-/

namespace SourceCorpus.Extraction

open Syntax Tree

variable {source : List Char} {tree : Tree}

structure IsObjectOf (source : List Char) (owner : Tree) (o : CodeObject) : Prop where
  kind : o.kind = .module ↔ owner.isDefinition = false
  name : owner.isDefinition → (owner.child? .name).map (·.text source) = some o.name
  span : owner.isDefinition → o.span = spanOf owner

/-- The recorded sites are those of the calls, one for each. -/
def AreSitesOf (source : List Char) (sites : List CallSite) (calls : List Tree) : Prop :=
  (sites.map some).Perm (calls.map (callSite? source))

def RecordsCalls (pass : Pass) (source : List Char) (tree : Tree) (objects : List CodeObject) :
    Prop :=
  List.Forall₂ (fun owner o => IsObjectOf source owner o ∧
    AreSitesOf source o.calls (ownCalls pass owner)) (owners tree) objects

/-- Every call that is evaluated is recorded once, in the object of the innermost definition whose
body it is in, and nothing else is recorded. -/
structure AccountsForCalls (source : List Char) (tree : Tree) (m : CodeModel) : Prop where
  objects : RecordsCalls isOwned source tree m.objects.toList
  total : AreSitesOf source (m.objects.toList.flatMap (·.calls)) (callsVia isEvaluated tree)

/-- The calls of the owner that are behind a joined line in a decorator, where none is recorded. -/
def joinedCalls (owner : Tree) : List Tree :=
  (regionOf owner).flatMap (callsBehind isOwned isJoined)

def bracketedCalls (owner : Tree) : List Tree :=
  (regionOf owner).flatMap (callsBehind isRecorded isTypeArgument)

/-- The calls of the owner that are lost behind joined lines have the same sites as those that are
recorded from brackets. -/
def Balances (source : List Char) (owner : Tree) : Prop :=
  ((joinedCalls owner).map (callSite? source)).Perm
    ((bracketedCalls owner).map (callSite? source))

instance (source : List Char) (owner : Tree) : Decidable (Balances source owner) :=
  inferInstanceAs (Decidable (List.Perm _ _))

/-! ### The recorded calls -/

theorem forall₂_of_common {α β γ : Type} {R : α → β → Prop} {S : α → γ → Prop} {T : β → γ → Prop}
    {as : List α} {bs : List β} {cs : List γ} (h : List.Forall₂ R as bs)
    (h' : List.Forall₂ S as cs) (hT : ∀ a b c, R a b → S a c → T b c) : List.Forall₂ T bs cs := by
  induction h generalizing cs with
  | nil =>
    rw [List.forall₂_nil_left_iff] at h'
    rw [h']
    exact .nil
  | cons hab _ ih =>
    cases h' with
    | cons hac h' => exact .cons (hT _ _ _ hab hac) (ih h')

theorem isObjectOf_of_represents {entry : Header × List Fact} {d : Tree} {o : CodeObject}
    (h : Describes source entry d) (ho : Represents entry o) :
    IsObjectOf source d o ∧ AreSitesOf source o.calls (ownCalls isRecorded d) := by
  refine ⟨⟨⟨fun hkind => ?_, fun hnone => ?_⟩, fun _ => ?_, fun _ => ?_⟩, ?_⟩
  · rw [CodeObject.kind, ho.payload, kind_payloadOf] at hkind
    exact absurd hkind h.kind
  · rw [h.isDefinition] at hnone
    cases hnone
  · rw [ho.name, h.name]
  · rw [ho.span, h.span]
  · rw [AreSitesOf, ho.calls, ownCalls_of_isDefinition h.isDefinition]
    exact h.calls

theorem not_isDefinition_of_isKind_module (h : tree.isKind .module) : tree.isDefinition = false := by
  rw [isKind, beq_iff_eq] at h
  rw [isDefinition, h]
  rfl

/-- A module is read statement by statement. -/
theorem factsOf_module (hmodule : tree.isKind .module) (place : Place) :
    factsOf source .value place tree = factsOfAll source .value place tree.children := by
  cases tree with
  | node kind role extent children =>
    rw [isKind_node, beq_iff_eq] at hmodule
    subst hmodule
    rfl
  | error => cases hmodule
  | missing => cases hmodule

/-- The facts of a module account for what is in its tree. -/
theorem accountsFor_module (h : IsStatement tree) (hmodule : tree.isKind .module) :
    AccountsFor source tree (factsOfAll source .value .top tree.children) := by
  rw [← factsOf_module hmodule]
  exact accountsFor_of_shaped h.shaped h.isOrdinary .top

/-- What holds of the module and of each definition with its object holds of all owners. -/
theorem forall₂_owners_modelOf {R : Tree → CodeObject → Prop} (file : String)
    (h : IsStatement tree) (hmodule : tree.isKind .module)
    (hR : ∀ owner o children, R owner o → R owner { o with children := children })
    (htop : R tree (moduleObject file source (docstringOf? source tree.children)
      (factsOfAll source .value .top tree.children)))
    (hinner : ∀ entry d o, Shaped d → Describes source entry d → Represents entry o → R d o) :
    List.Forall₂ R (owners tree) (modelOf file source tree).objects.toList := by
  obtain ⟨added, hobjects, hadded⟩ := objects_modelOf file source tree
  rw [hobjects]
  have hfacts : AccountsFor source tree (factsOfAll source .value .top tree.children) :=
    accountsFor_module h hmodule
  have hshaped : ∀ d ∈ tree.definitions, Shaped d := fun d hd =>
    h.shaped.of_mem_preorder (List.mem_filter.1 hd).1
  have hdefinitions : List.Forall₂ (fun d entry => Shaped d ∧ Describes source entry d)
      tree.definitions (entriesOfAll (factsOfAll source .value .top tree.children)) :=
    (List.forall₂_and_left _ _).2 ⟨hshaped, hfacts.definitions.flip⟩
  refine forall₂_withChildren (.cons htop (forall₂_of_common hdefinitions.flip hadded ?_)) hR
  exact fun entry d o hd ho => hinner entry d o hd.1 hd.2 ho

theorem isObjectOf_moduleObject (file : String) (docstring : Option String) (facts : List Fact)
    (h : tree.isDefinition = false) :
    IsObjectOf source tree (moduleObject file source docstring facts) := by
  refine ⟨⟨fun _ => h, fun _ => rfl⟩, fun howner => ?_, fun howner => ?_⟩
  · rw [h] at howner
    cases howner
  · rw [h] at howner
    cases howner

theorem IsObjectOf.withChildren {o : CodeObject} (h : IsObjectOf source tree o)
    (children : List ObjectId) : IsObjectOf source tree { o with children := children } :=
  ⟨h.kind, h.name, h.span⟩

theorem recordsCalls_modelOf (file : String) (h : IsStatement tree)
    (hmodule : tree.isKind .module) :
    RecordsCalls isRecorded source tree (modelOf file source tree).objects.toList := by
  have hdefinition : tree.isDefinition = false := not_isDefinition_of_isKind_module hmodule
  refine forall₂_owners_modelOf file h hmodule (fun _ _ _ ho => ⟨ho.1.withChildren _, ho.2⟩)
    ⟨isObjectOf_moduleObject file _ _ hdefinition, ?_⟩ fun _ _ _ _ => isObjectOf_of_represents
  rw [ownCalls_of_not_isDefinition hdefinition]
  exact (accountsFor_module h hmodule).calls

/-! ### What is recorded and what is evaluated -/

/-- Lists that are related to the same list agree on what can be told from it. -/
theorem forall₂_congr_left {α β : Type} {R T : α → β → Prop} {P : α → Prop} {as : List α}
    {bs : List β} (h : List.Forall₂ R as bs)
    (hiff : ∀ a ∈ as, ∀ b, R a b → (T a b ↔ P a)) :
    List.Forall₂ T as bs ↔ ∀ a ∈ as, P a := by
  induction h with
  | nil => exact ⟨fun _ => List.forall_mem_nil _, fun _ => .nil⟩
  | cons hab _ ih =>
    rw [List.forall_mem_cons] at hiff
    rw [List.forall₂_cons, List.forall_mem_cons, hiff.1 _ hab, ih hiff.2]

theorem areSitesOf_iff {owner : Tree} {sites : List CallSite}
    (h : AreSitesOf source sites (ownCalls isRecorded owner)) :
    AreSitesOf source sites (ownCalls isOwned owner) ↔ Balances source owner := by
  let common := ownCalls (fun parent part => isOwned parent part && !isJoined parent part) owner
  have howned : (ownCalls isOwned owner).Perm (common ++ joinedCalls owner) :=
    ownCalls_perm isOwned isJoined owner
  have hrecorded : (ownCalls isRecorded owner).Perm (common ++ bracketedCalls owner) := by
    have hcommon : common = ownCalls (fun parent part =>
        isRecorded parent part && !isTypeArgument parent part) owner :=
      List.flatMap_congr fun t _ => callsVia_congr isOwned_and_not_isJoined t
    rw [hcommon]
    exact ownCalls_perm isRecorded isTypeArgument owner
  rw [AreSitesOf, List.Perm.congr_left h, List.Perm.congr_left (hrecorded.map _),
    List.Perm.congr_right (howned.map _), List.map_append, List.map_append,
    List.perm_append_left_iff]
  exact List.perm_comm

/-- Objects that have the calls of their owners have together the calls that are evaluated. -/
theorem areSitesOf_flatMap {pass : Pass} {owners : List Tree} {objects : List CodeObject}
    (h : List.Forall₂ (fun owner o => IsObjectOf source owner o ∧
      AreSitesOf source o.calls (ownCalls pass owner)) owners objects) :
    AreSitesOf source (objects.flatMap (·.calls)) (owners.flatMap (ownCalls pass)) := by
  induction h with
  | nil => exact .nil
  | cons ho _ ih =>
    rw [AreSitesOf, List.flatMap_cons, List.flatMap_cons, List.map_append, List.map_append]
    exact ho.2.append ih

theorem extract_eq_ok_iff {file source : String} {m : CodeModel} :
    extract file source = .ok m ↔ (parse source.toList).hasProblem = false ∧
      m = modelOf file source.toList (parse source.toList) := by
  rw [extract, parseSource]
  cases hproblem : (parse source.toList).hasProblem with
  | false =>
    rw [if_neg Bool.false_ne_true]
    exact ⟨fun h => ⟨rfl, (Except.ok.inj h).symm⟩, fun h => congrArg _ h.2.symm⟩
  | true =>
    rw [if_pos rfl]
    exact ⟨(nomatch ·), fun h => nomatch h.1⟩

/-- The calls of a model are accounted for if and only if losses and gains balance for the module
and for each definition. -/
theorem accountsForCalls_iff {file source : String} {m : CodeModel}
    (h : extract file source = .ok m) :
    AccountsForCalls source.toList (parse source.toList) m ↔
      ∀ owner ∈ owners (parse source.toList), Balances source.toList owner := by
  let tree := parse source.toList
  obtain ⟨hproblem, hm⟩ := extract_eq_ok_iff.1 h
  obtain ⟨hstatement, hmodule⟩ := isStatement_parse hproblem
  have hobjects : RecordsCalls isRecorded source.toList tree m.objects.toList := by
    rw [hm]
    exact recordsCalls_modelOf file hstatement hmodule
  have howned : RecordsCalls isOwned source.toList tree m.objects.toList ↔
      ∀ owner ∈ owners tree, Balances source.toList owner :=
    forall₂_congr_left hobjects fun owner _ o ho =>
      (and_iff_right ho.1).trans (areSitesOf_iff ho.2)
  refine ⟨fun haccounts => howned.1 haccounts.objects, fun hbalanced => ?_⟩
  have hown : RecordsCalls isOwned source.toList tree m.objects.toList := howned.2 hbalanced
  refine ⟨hown, (areSitesOf_flatMap hown).trans (.symm ?_)⟩
  exact (callsVia_isEvaluated_perm hstatement.shaped (not_isDefinition_of_isKind_module hmodule)).map _

/-- Calls in decorators, default values and bases, beside others in annotations and parameters of a
lambda. -/
theorem accountsForCalls_of_decorated_definition :
    let source := "@d(1)\ndef f(a: t() = g()) -> r():\n    h(lambda x=p(): q())\nclass C(b()): pass\n"
    ∃ m, extract "t.py" source = .ok m ∧
      AccountsForCalls source.toList (parse source.toList) m ∧
      m.objects.toList.map (fun o => o.calls.map (·.callee)) = [["d", "g", "b"], ["h", "q"], []] := by
  intro source
  have hextract : extract "t.py" source =
      .ok (modelOf "t.py" source.toList (parse source.toList)) :=
    extract_eq_ok_iff.2 ⟨by decide +kernel, rfl⟩
  exact ⟨_, hextract, (accountsForCalls_iff hextract).2 (by decide +kernel), by decide +kernel⟩

/-- The call behind a joined line is lost. -/
theorem not_accountsForCalls_of_joined_line :
    let source := "@\\\nf()\ndef g():\n    pass\n"
    ∃ m, extract "t.py" source = .ok m ∧
      ¬AccountsForCalls source.toList (parse source.toList) m := by
  intro source
  have hextract : extract "t.py" source =
      .ok (modelOf "t.py" source.toList (parse source.toList)) :=
    extract_eq_ok_iff.2 ⟨by decide +kernel, rfl⟩
  refine ⟨_, hextract, fun h => ?_⟩
  have hlength := h.total.length_eq
  exact absurd hlength (by decide +kernel)

end SourceCorpus.Extraction
