import SourceCorpus.Proofs.Extraction.Calls
import SourceCorpus.Proofs.Graph.Operations
import SourceCorpus.Proofs.Text.ByteOrder
import SourceCorpus.Question.Answer

/-!
The neighbours of a name. Main statement: a query lists the other ends of the edges of its kinds, in
the order of their bytes and each once, so that asking from either end of an edge comes to the same,
also in the answers about the calls and the callers of functions.
-/

namespace SourceCorpus

namespace Graph

def Joins (g : Graph) (wanted : EdgeKind → Prop) (source target : String) : Prop :=
  ∃ e ∈ g.edges, wanted e.kind ∧ e.source = source ∧ e.target = target

/-- Two queries that follow the edges of the wanted kinds, the one forwards and the other backwards. -/
structure AreDual (g : Graph) (wanted : EdgeKind → Prop) (ahead behind : String → List String) :
    Prop where
  increasing : ∀ name, Text.IsIncreasing (ahead name) ∧ Text.IsIncreasing (behind name)
  targets : ∀ source target, target ∈ ahead source ↔ g.Joins wanted source target
  sources : ∀ source target, source ∈ behind target ↔ g.Joins wanted source target
  dual : ∀ source target, target ∈ ahead source ↔ source ∈ behind target

/-- The queries about calls, inheritance and instances each have their counterpart, and what a name
makes instances of is called. -/
structure HasDualQueries (g : Graph) : Prop where
  calls : g.AreDual (fun kind => kind = .calls ∨ kind = .instantiates) g.callees g.callers
  inheritance : g.AreDual (· = .inherits) g.bases g.subclasses
  instances : g.AreDual (· = .instantiates) g.instantiations g.instantiators
  called : ∀ name, g.instantiations name ⊆ g.callees name

variable {g : Graph} {wanted : EdgeKind → Bool} {source target : String}

/-! ### Queries -/

theorem mem_targetsOf :
    target ∈ g.targetsOf wanted source ↔ g.Joins (fun kind => wanted kind = true) source target := by
  unfold targetsOf related Joins
  rw [Text.mem_sortedNames, List.mem_filterMap]
  simp only [Option.ite_none_right_eq_some, Bool.and_eq_true, beq_iff_eq, Option.some_inj, and_assoc]

theorem mem_sourcesOf :
    source ∈ g.sourcesOf wanted target ↔ g.Joins (fun kind => wanted kind = true) source target := by
  unfold sourcesOf related Joins
  rw [Text.mem_sortedNames, List.mem_filterMap]
  simp only [Option.ite_none_right_eq_some, Bool.and_eq_true, beq_iff_eq, Option.some_inj, and_assoc,
    and_comm (a := _ = target)]

theorem areDual_targetsOf (g : Graph) {kinds : EdgeKind → Prop}
    (h : ∀ kind, wanted kind = true ↔ kinds kind) :
    g.AreDual kinds (g.targetsOf wanted) (g.sourcesOf wanted) := by
  obtain rfl : (fun kind => wanted kind = true) = kinds := funext fun kind => propext (h kind)
  exact {
    increasing := fun _ => ⟨Text.isIncreasing_sortedNames _, Text.isIncreasing_sortedNames _⟩
    targets := fun _ _ => mem_targetsOf
    sources := fun _ _ => mem_sourcesOf
    dual := fun _ _ => mem_targetsOf.trans mem_sourcesOf.symm }

theorem hasDualQueries (g : Graph) : g.HasDualQueries where
  calls := by
    refine g.areDual_targetsOf fun kind => ?_
    cases kind <;> simp [EdgeKind.isCall]
  inheritance := g.areDual_targetsOf fun _ => beq_iff_eq
  instances := g.areDual_targetsOf fun _ => beq_iff_eq
  called name target htarget := by
    obtain ⟨e, he, hkind, hends⟩ := mem_targetsOf.1 htarget
    refine mem_targetsOf.2 ⟨e, he, ?_, hends⟩
    rw [beq_iff_eq.1 hkind]
    rfl

/-- The edges between two names are there for the relationships that occurred between them. -/
theorem HasEdges.joins_iff {occurred : List Relation} (h : g.HasEdges occurred)
    (wanted : EdgeKind → Prop) : g.Joins wanted source target ↔
      ∃ r ∈ occurred, wanted r.kind ∧ r.source = source ∧ r.target = target := by
  constructor
  · rintro ⟨e, he, hwanted⟩
    obtain ⟨r, hr, hkey, -⟩ := h.exists_relation he
    obtain ⟨hsource, htarget, hkind⟩ := EdgeKey.mk.inj hkey
    rw [← hsource, ← htarget, ← hkind] at hwanted
    exact ⟨r, hr, hwanted⟩
  · rintro ⟨r, hr, hwanted⟩
    obtain ⟨e, he, hkey⟩ := h.exists_edge hr
    obtain ⟨hsource, htarget, hkind⟩ := EdgeKey.mk.inj hkey
    rw [← hsource, ← htarget, ← hkind] at hwanted
    exact ⟨e, he, hwanted⟩

end Graph

/-! ### Answers -/

structure Question.AsksFor (q : Question) (o : CodeObject) (topic : Topic) : Prop where
  covers : q.scope.covers o.kind = true
  plain : q.isPurpose = false
  topic : q.topic? = some topic

/-- The answers about the calls of one function and the callers of another tell of lists, and the one
list has the second function exactly if the other list has the first. -/
def CodeModel.TellsCallsBothWays (m : CodeModel) : Prop :=
  ∀ (i j : ObjectId) (o o' : CodeObject) (q q' : Question), m.get? i = some o → m.get? j = some o' →
    o.functionData?.isSome → o'.functionData?.isSome → q.AsksFor o .calls → q'.AsksFor o' .callers →
      ∃ calls callers,
        (Analysis.ofModel m).answer q i = .text (commaList calls) ∧
        (Analysis.ofModel m).answer q' j = .text (commaList callers) ∧
        (∀ name, name ∈ calls ↔ (Graph.ofModel m).Joins
          (fun kind => kind = .calls ∨ kind = .instantiates) o.qualifiedName name) ∧
        (∀ name, name ∈ callers ↔ (Graph.ofModel m).Joins
          (fun kind => kind = .calls ∨ kind = .instantiates) name o'.qualifiedName) ∧
        Text.IsIncreasing calls ∧ Text.IsIncreasing callers ∧
        (o'.qualifiedName ∈ calls ↔ o.qualifiedName ∈ callers)

namespace Analysis

variable {a : Analysis} {i : ObjectId} {o : CodeObject} {q : Question} {topic : Topic}

theorem answer_of_asksFor (ho : a.model.get? i = some o) (hq : q.AsksFor o topic) {text : String}
    (htext : a.topicAnswer? i o topic = some text) : a.answer q i = .text text := by
  unfold answer answerFor
  simp only [ho, hq.covers, hq.plain, hq.topic, htext, Bool.not_true, Bool.false_eq_true, if_false]

theorem topicAnswer?_of_function (h : o.functionData?.isSome) :
    a.topicAnswer? i o .calls = some (commaList (a.graph.callees o.qualifiedName)) ∧
      a.topicAnswer? i o .callers = some (commaList (a.graph.callers o.qualifiedName)) := by
  unfold CodeObject.functionData? at h
  unfold topicAnswer?
  cases hpayload : o.payload with
  | module => simp [hpayload] at h
  | «class» data => simp [hpayload] at h
  | function data => exact ⟨rfl, rfl⟩
  | method data => exact ⟨rfl, rfl⟩

end Analysis

theorem CodeModel.tellsCallsBothWays (m : CodeModel) : m.TellsCallsBothWays := by
  intro i j o o' q q' ho ho' hfunction hfunction' hq hq'
  have hcalls := (Graph.hasDualQueries (Graph.ofModel m)).calls
  have htold := (Analysis.topicAnswer?_of_function (a := Analysis.ofModel m) (i := i) hfunction).1
  have htold' := (Analysis.topicAnswer?_of_function (a := Analysis.ofModel m) (i := j) hfunction').2
  refine ⟨_, _, Analysis.answer_of_asksFor ho hq htold, Analysis.answer_of_asksFor ho' hq' htold',
    ?_, ?_, ?_, ?_, ?_⟩
  · exact hcalls.targets _
  · exact fun name => hcalls.sources name _
  · exact (hcalls.increasing _).1
  · exact (hcalls.increasing _).2
  · exact hcalls.dual _ _

/-- Queries of a graph that was made by operations are in order and dual, and so are the answers about
calls and callers of the functions of a model. -/
theorem Graph.queries_agree (operations : List GraphOperation) (m : CodeModel) :
    (ofOperations operations).HasDualQueries ∧
      (∀ wanted source target, (ofOperations operations).Joins wanted source target ↔
        ∃ r, .addEdge r ∈ operations ∧ wanted r.kind ∧ r.source = source ∧ r.target = target) ∧
      m.TellsCallsBothWays := by
  refine ⟨hasDualQueries _, fun wanted source target => ?_, m.tellsCallsBothWays⟩
  rw [(hasEdges_ofOperations operations).joins_iff]
  have hmem : ∀ r, r ∈ operations.filterMap (·.relation?) ↔ .addEdge r ∈ operations := by
    intro r
    rw [List.mem_filterMap]
    constructor
    · rintro ⟨operation, hoperation, hr⟩
      cases operation with
      | addNode node => cases hr
      | addEdge r' => exact Option.some.inj hr ▸ hoperation
    · exact fun hr => ⟨_, hr, rfl⟩
  simp only [hmem]

/-- A function that calls another is told of from both ends. -/
theorem Graph.queries_agree_of_one_call :
    let source := "def f():\n    g()\ndef g():\n    pass\n"
    let ask : String → Question := fun id => ⟨id, "", .standalone, .list, true⟩
    ∃ m o o', Extraction.extract "t.py" source = .ok m ∧ m.get? 1 = some o ∧ m.get? 2 = some o' ∧
      o.functionData?.isSome ∧ o'.functionData?.isSome ∧
      (ask "function_calls").AsksFor o .calls ∧ (ask "function_callers").AsksFor o' .callers ∧
      (Analysis.ofModel m).answer (ask "function_calls") 1 = .text "g" ∧
      (Analysis.ofModel m).answer (ask "function_callers") 2 = .text "f" ∧ m.TellsCallsBothWays := by
  intro source ask
  let m := Extraction.modelOf "t.py" source.toList (Syntax.parse source.toList)
  have hextract : Extraction.extract "t.py" source = .ok m :=
    Extraction.extract_eq_ok_iff.2 ⟨by decide +kernel, rfl⟩
  obtain ⟨o, ho, hfunction⟩ := Option.map_eq_some_iff.1 (show (m.get? 1).map
    (fun o => (o.functionData?.isSome, o.kind)) = some (true, .function) by decide +kernel)
  obtain ⟨o', ho', hfunction'⟩ := Option.map_eq_some_iff.1 (show (m.get? 2).map
    (fun o => (o.functionData?.isSome, o.kind)) = some (true, .function) by decide +kernel)
  obtain ⟨hdata, hkind⟩ := Prod.mk.inj hfunction
  obtain ⟨hdata', hkind'⟩ := Prod.mk.inj hfunction'
  have hcalls : (ask "function_calls").AsksFor o .calls :=
    ⟨by rw [hkind]; rfl, rfl, by decide +kernel⟩
  have hcallers : (ask "function_callers").AsksFor o' .callers :=
    ⟨by rw [hkind']; rfl, rfl, by decide +kernel⟩
  exact ⟨m, o, o', hextract, ho, ho', hdata, hdata', hcalls, hcallers, by decide +kernel,
    by decide +kernel, (queries_agree [] m).2.2⟩

end SourceCorpus
