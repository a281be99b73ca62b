import SourceCorpus.Proofs.Extraction.Accounts
import SourceCorpus.Proofs.Extraction.Naming
import SourceCorpus.Extraction.Extract

/-!
From facts to objects. Main statement: the objects of a model are its module and then one object for
each definition that the facts state, with the calls of its body.
-/

namespace SourceCorpus.Extraction

structure Represents (entry : Header × List Fact) (o : CodeObject) : Prop where
  name : o.name = entry.1.name
  docstring : o.docstring = entry.1.docstring
  span : o.span = entry.1.span
  parameters : o.parameters = entry.1.parameters
  calls : o.calls = callsIn entry.2
  references : o.references = referencesIn entry.2
  payload : o.payload = payloadOf entry.1 entry.2

theorem kind_payloadOf (header : Header) (facts : List Fact) :
    (payloadOf header facts).kind = header.kind := by
  rw [payloadOf]
  cases header.kind <;> rfl

theorem mem_referencesIn {facts : List Fact} {ref : NameRef} :
    ref ∈ referencesIn facts ↔ .named ref ∈ facts := by
  rw [referencesIn, firstOccurrences_eq_eraseDups, List.mem_eraseDups, List.mem_filterMap]
  constructor
  · rintro ⟨fact, hfact, href⟩
    cases fact <;> cases href
    exact hfact
  · exact fun h => ⟨_, h, rfl⟩

/-- The arena has got the objects of some more definitions, under names of their own. -/
structure Grows (a a' : Arena) (entries : List (Header × List Fact)) : Prop where
  objects : ∃ added, a'.objects.toList = a.objects.toList ++ added ∧
    List.Forall₂ Represents entries added
  names_nodup : a.names.Nodup → a'.names.Nodup

namespace Grows

variable {a a' a'' : Arena} {entries entries' : List (Header × List Fact)}

theorem of_objects_eq (h : a'.objects = a.objects) : Grows a a' [] := by
  refine ⟨⟨[], ?_, .nil⟩, fun hnodup => ?_⟩
  · rw [h, List.append_nil]
  · rwa [Arena.names, h]

theorem trans (h : Grows a a' entries) (h' : Grows a' a'' entries') :
    Grows a a'' (entries ++ entries') := by
  obtain ⟨⟨added, hadded, hentries⟩, hnames⟩ := h
  obtain ⟨⟨added', hadded', hentries'⟩, hnames'⟩ := h'
  refine ⟨⟨added ++ added', ?_, List.rel_append hentries hentries'⟩, fun h => hnames' (hnames h)⟩
  rw [hadded', hadded, List.append_assoc]

theorem push (a : Arena) (owner : ObjectId) (parent : CodeObject) (header : Header)
    (body : List Fact) :
    Grows a { a with objects := a.objects.push (objectOf a owner parent header body) }
      [(header, body)] := by
  refine ⟨⟨[objectOf a owner parent header body], ?_, .cons ⟨rfl, rfl, rfl, rfl, rfl, rfl, rfl⟩ .nil⟩,
    fun hnodup => ?_⟩
  · exact Array.toList_push ..
  · have hnew : a.uniqueName (nameInside parent header.name) ∉ a.names :=
      Arena.uniqueName_not_mem a _
    rw [Arena.names, Array.toList_push, List.map_append, List.map_singleton]
    refine List.nodup_append.2 ⟨hnodup, List.nodup_singleton _, fun name hname name' hname' => ?_⟩
    rw [List.mem_singleton] at hname'
    rintro rfl
    rw [hname'] at hname
    exact hnew hname

end Grows

mutual

theorem grows_addFact (owner : ObjectId) (parent : CodeObject) (a : Arena) :
    ∀ fact : Fact, Grows a (addFact owner parent a fact) (entriesOf fact)
  | .defined header body =>
    (Grows.push a owner parent header body).trans (grows_addFacts _ _ _ body)
  | .imported _ => .of_objects_eq rfl
  | .called _ => .of_objects_eq rfl
  | .named _ => .of_objects_eq rfl
  | .assigned _ => .of_objects_eq rfl
  | .returned _ => .of_objects_eq rfl
  | .instanceAttribute _ => .of_objects_eq rfl

theorem grows_addFacts (owner : ObjectId) (parent : CodeObject) (a : Arena) :
    ∀ facts : List Fact, Grows a (addFacts owner parent a facts) (entriesOfAll facts)
  | [] => .of_objects_eq rfl
  | fact :: facts =>
    (grows_addFact owner parent a fact).trans (grows_addFacts owner parent _ facts)

end

/-- What does not depend on the children of objects holds of them as before. -/
theorem forall₂_withChildren {α : Type} {R : α → CodeObject → Prop} {as : List α}
    {objects : List CodeObject} (h : List.Forall₂ R as objects)
    (hR : ∀ a o children, R a o → R a { o with children := children }) :
    List.Forall₂ R as (withChildren objects) := by
  rw [← List.zipIdx_map_fst 0 objects, List.forall₂_map_right_iff] at h
  rw [withChildren, List.forall₂_map_right_iff]
  exact h.imp fun a o ho => hR a o.1 _ ho

theorem map_qualifiedName_withChildren (objects : List CodeObject) :
    (withChildren objects).map (·.qualifiedName) = objects.map (·.qualifiedName) := by
  have hfirst := congrArg (List.map (·.qualifiedName)) (List.zipIdx_map_fst 0 objects)
  rw [withChildren, List.map_map]
  rw [List.map_map] at hfirst
  exact hfirst

def Arena.ofModule (module : CodeObject) : Arena := ⟨#[module], #[]⟩

/-- No object of the arena takes the place of another one in the model. -/
theorem toList_objects_modelOf (file : String) (source : List Char) (tree : Syntax.Tree) :
    let facts := factsOfAll source .value .top tree.children
    let module := moduleObject file source (docstringOf? source tree.children) facts
    (modelOf file source tree).objects.toList =
      withChildren (addFacts CodeModel.moduleId module (.ofModule module) facts).objects.toList := by
  intro facts module
  refine ObjectTable.toList_ofList ?_
  rw [map_qualifiedName_withChildren]
  exact (grows_addFacts CodeModel.moduleId module (.ofModule module) facts).names_nodup
    (List.nodup_singleton _)

theorem objects_modelOf (file : String) (source : List Char) (tree : Syntax.Tree) :
    let facts := factsOfAll source .value .top tree.children
    let module := moduleObject file source (docstringOf? source tree.children) facts
    ∃ added, (modelOf file source tree).objects.toList = withChildren (module :: added) ∧
      List.Forall₂ Represents (entriesOfAll facts) added := by
  intro facts module
  obtain ⟨⟨added, hadded, hentries⟩, -⟩ :=
    grows_addFacts CodeModel.moduleId module (.ofModule module) facts
  -- The arena begins with the module, and objects are only ever added behind it.
  refine ⟨added, ?_, hentries⟩
  rw [toList_objects_modelOf, hadded]
  rfl

end SourceCorpus.Extraction
