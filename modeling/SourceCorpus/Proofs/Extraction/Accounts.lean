import Mathlib.Data.List.Forall2
import SourceCorpus.Proofs.Extraction.Reach
import SourceCorpus.Extraction.Arena

/-!
When facts account for the calls and definitions of a stretch of source. Accounts add up, also when
the facts of the parts of a node are gathered in several rounds.
-/

namespace SourceCorpus.Extraction

open Syntax Tree

mutual

/-- The definitions that the fact states, each before those inside it, with the facts of its body. -/
def entriesOf : Fact → List (Header × List Fact)
  | .defined header body => (header, body) :: entriesOfAll body
  | _ => []

def entriesOfAll : List Fact → List (Header × List Fact)
  | [] => []
  | fact :: facts => entriesOf fact ++ entriesOfAll facts

end

def bodyCalls (pass : Pass) (d : Tree) : List Tree :=
  (d.children.filter (·.hasRole .body)).flatMap (callsVia pass)

theorem flatMap_eq_of_filter {α β : Type} {p : α → Bool} {g : α → List β} {l : List α}
    (h : ∀ a ∈ l, p a = false → g a = []) : l.flatMap g = (l.filter p).flatMap g := by
  induction l with
  | nil => rfl
  | cons a l ih =>
    rw [List.forall_mem_cons] at h
    rw [List.flatMap_cons, ih h.2, List.filter_cons]
    cases hp : p a with
    | true => rfl
    | false =>
      rw [h.1 hp]
      rfl

theorem bodyCalls_node (pass : Pass) {kind : Kind} {role : Option Role} {extent : Extent}
    {children : List Tree} :
    bodyCalls pass (.node kind role extent children) =
      children.flatMap fun c => if c.hasRole .body then callsVia pass c else [] := by
  rw [flatMap_eq_of_filter fun c _ hrole => if_neg (Bool.eq_false_iff.1 hrole)]
  refine List.flatMap_congr fun c hc => ?_
  rw [if_pos (List.mem_filter.1 hc).2]

structure Describes (source : List Char) (entry : Header × List Fact) (d : Tree) : Prop where
  isDefinition : d.isDefinition = true
  name : (d.child? .name).map (·.text source) = some entry.1.name
  span : entry.1.span = spanOf d
  kind : entry.1.kind ≠ .module
  isClass : entry.1.kind = .class ↔ d.isKind .classDefinition
  bases : entry.1.bases = classArguments source false d
  calls : ((callsIn entry.2).map some).Perm ((bodyCalls isRecorded d).map (callSite? source))
  /-- The facts are those of the body, read where the definition stands. -/
  origin : ∃ (place : Place) (decorators : List String),
    headerOf? source place.owner decorators d = some entry.1 ∧
      entry.2 = factsInRole source .body (place.inside (some entry.1)) .body d.children

/-- The facts state the calls, and the definitions in their order. -/
structure Accounts (source : List Char) (facts : List Fact) (calls defs : List Tree) : Prop where
  calls : ((callsIn facts).map some).Perm (calls.map (callSite? source))
  definitions : List.Forall₂ (Describes source) (entriesOfAll facts) defs

structure IsSilent (facts : List Fact) : Prop where
  calls : callsIn facts = []
  definitions : entriesOfAll facts = []

variable {source : List Char} {facts facts' : List Fact} {calls calls' defs defs' : List Tree}

theorem callsIn_append (facts facts' : List Fact) :
    callsIn (facts ++ facts') = callsIn facts ++ callsIn facts' := List.filterMap_append ..

theorem entriesOfAll_eq_flatMap (facts : List Fact) :
    entriesOfAll facts = facts.flatMap entriesOf := by
  induction facts with
  | nil => rfl
  | cons fact facts ih => rw [entriesOfAll, ih, List.flatMap_cons]

theorem entriesOfAll_append (facts facts' : List Fact) :
    entriesOfAll (facts ++ facts') = entriesOfAll facts ++ entriesOfAll facts' := by
  simp only [entriesOfAll_eq_flatMap, List.flatMap_append]

theorem entriesOfAll_flatMap (ts : List Tree) (f : Tree → List Fact) :
    entriesOfAll (ts.flatMap f) = ts.flatMap fun t => entriesOfAll (f t) := by
  simp only [entriesOfAll_eq_flatMap, List.flatMap_assoc]

namespace IsSilent

theorem nil : IsSilent [] := ⟨rfl, rfl⟩

theorem append (h : IsSilent facts) (h' : IsSilent facts') : IsSilent (facts ++ facts') := by
  refine ⟨?_, ?_⟩
  · rw [callsIn_append, h.calls, h'.calls, List.append_nil]
  · rw [entriesOfAll_append, h.definitions, h'.definitions, List.append_nil]

theorem map {α : Type} {f : α → Fact} (h : ∀ a, IsSilent [f a]) (l : List α) :
    IsSilent (l.map f) := by
  induction l with
  | nil => exact nil
  | cons a l ih => exact (h a).append ih

theorem toList_map {α : Type} {f : α → Fact} (h : ∀ a, IsSilent [f a]) (o : Option α) :
    IsSilent (o.map f).toList := by
  rw [Option.toList_map]
  exact map h o.toList

theorem accounts (h : IsSilent facts) : Accounts source facts [] [] := by
  refine ⟨?_, ?_⟩
  · rw [h.calls]
    exact .nil
  · rw [h.definitions]
    exact .nil

end IsSilent

namespace Accounts

theorem append (h : Accounts source facts calls defs) (h' : Accounts source facts' calls' defs') :
    Accounts source (facts ++ facts') (calls ++ calls') (defs ++ defs') := by
  refine ⟨?_, ?_⟩
  · rw [callsIn_append, List.map_append, List.map_append]
    exact h.calls.append h'.calls
  · rw [entriesOfAll_append]
    exact List.rel_append h.definitions h'.definitions

theorem silent_append (h : IsSilent facts) (h' : Accounts source facts' calls defs) :
    Accounts source (facts ++ facts') calls defs := h.accounts.append h'

theorem flatMap {ts : List Tree} {f : Tree → List Fact} {g k : Tree → List Tree}
    (h : ∀ t ∈ ts, Accounts source (f t) (g t) (k t)) :
    Accounts source (ts.flatMap f) (ts.flatMap g) (ts.flatMap k) := by
  induction ts with
  | nil => exact IsSilent.nil.accounts
  | cons t ts ih =>
    rw [List.forall_mem_cons] at h
    simp only [List.flatMap_cons]
    exact h.1.append (ih h.2)

/-- The order of the calls does not matter, and that of the definitions does. -/
theorem of_perm (hcalls : (callsIn facts').Perm (callsIn facts))
    (hentries : entriesOfAll facts' = entriesOfAll facts) (h : Accounts source facts calls defs) :
    Accounts source facts' calls defs :=
  ⟨(hcalls.map some).trans h.calls, hentries ▸ h.definitions⟩

end Accounts

theorem flatMap_append_flatMap {α β : Type} {f g : α → List β} {l : List α}
    (h : l.Pairwise fun a later => g a = [] ∨ f later = []) :
    l.flatMap f ++ l.flatMap g = l.flatMap fun a => f a ++ g a := by
  induction l with
  | nil => rfl
  | cons a l ih =>
    rw [List.pairwise_cons] at h
    simp only [List.flatMap_cons]
    rw [← ih h.2]
    by_cases hg : g a = []
    · simp only [hg, List.nil_append, List.append_nil, List.append_assoc]
    · have hf : l.flatMap f = [] :=
        List.flatMap_eq_nil_iff.2 fun later hlater => (h.1 later hlater).resolve_left hg
      simp only [hf, List.nil_append, List.append_assoc]

theorem Accounts.entries_eq_nil (h : Accounts source facts calls []) : entriesOfAll facts = [] :=
  List.forall₂_nil_right_iff.1 h.definitions

/-- The facts are those that the parts give, gathered in several rounds over them. -/
structure Gathers (ts : List Tree) (facts : List Fact) (f : Tree → List Fact) : Prop where
  calls : (callsIn facts).Perm (callsIn (ts.flatMap f))
  definitions : entriesOfAll facts = entriesOfAll (ts.flatMap f)

namespace Gathers

variable {ts : List Tree} {f f' : Tree → List Fact} {g k : Tree → List Tree}

theorem first (ts : List Tree) (f : Tree → List Fact) : Gathers ts (ts.flatMap f) f :=
  ⟨.refl _, rfl⟩

/-- Another round. No definition is met in it that stands before one of a round before. -/
theorem round (h : Gathers ts facts f) (hordered : ts.Pairwise fun t later =>
      entriesOfAll (f' t) = [] ∨ entriesOfAll (f later) = []) :
    Gathers ts (facts ++ ts.flatMap f') fun t => f t ++ f' t := by
  refine ⟨?_, ?_⟩
  · rw [callsIn_append]
    refine (h.calls.append_right _).trans ?_
    rw [← callsIn_append]
    exact (List.flatMap_append_perm ts f f').filterMap _
  · rw [entriesOfAll_append, h.definitions, entriesOfAll_flatMap, entriesOfAll_flatMap,
      entriesOfAll_flatMap, flatMap_append_flatMap hordered]
    simp only [entriesOfAll_append]

theorem silent (h : Gathers ts facts f) (hsilent : IsSilent facts') :
    Gathers ts (facts ++ facts') f := by
  refine ⟨?_, ?_⟩
  · rw [callsIn_append, hsilent.calls, List.append_nil]
    exact h.calls
  · rw [entriesOfAll_append, hsilent.definitions, List.append_nil]
    exact h.definitions

theorem accounts (h : Gathers ts facts f) (hparts : ∀ t ∈ ts, Accounts source (f t) (g t) (k t)) :
    Accounts source facts (ts.flatMap g) (ts.flatMap k) :=
  .of_perm h.calls h.definitions (.flatMap hparts)

end Gathers

/-- Facts that account for no definitions state none. -/
theorem entriesOfAll_of_accounts_append (h : Accounts source (facts ++ facts') calls []) :
    entriesOfAll facts = [] ∧ entriesOfAll facts' = [] := by
  have hentries := h.entries_eq_nil
  rw [entriesOfAll_append] at hentries
  exact List.append_eq_nil_iff.1 hentries

end SourceCorpus.Extraction
