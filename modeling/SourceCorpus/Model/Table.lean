import SourceCorpus.Model.Object

/-!
The objects of a model, in order and by qualified name. Main statement: inserting an object under a
name that is there replaces the old object in its place, so no two objects share a name.
-/

namespace SourceCorpus

/-- Objects in order, no two of them with the same qualified name. -/
structure ObjectTable where
  objects : Array CodeObject
  names_nodup : (objects.toList.map (·.qualifiedName)).Nodup

namespace ObjectTable

def empty : ObjectTable := ⟨#[], by simp⟩

instance : Inhabited ObjectTable := ⟨empty⟩

def size (t : ObjectTable) : Nat := t.objects.size

def toList (t : ObjectTable) : List CodeObject := t.objects.toList

def get? (t : ObjectTable) (id : ObjectId) : Option CodeObject := t.objects[id]?

/-- The place of the object with the qualified name. -/
def idOf? (t : ObjectTable) (name : String) : Option ObjectId :=
  t.objects.findIdx? (·.qualifiedName == name)

theorem nodup_set {objects : Array CodeObject} {o : CodeObject} {i : Nat}
    (h : (objects.toList.map (·.qualifiedName)).Nodup)
    (hi : objects.findIdx? (·.qualifiedName == o.qualifiedName) = some i) :
    ((objects.setIfInBounds i o).toList.map (·.qualifiedName)).Nodup := by
  obtain ⟨hlt, hname, -⟩ := Array.findIdx?_eq_some_iff_getElem.1 hi
  have hset : (objects.setIfInBounds i o).toList.map (·.qualifiedName) =
      objects.toList.map (·.qualifiedName) := by
    apply List.ext_getElem
    · simp
    · intro j hj hj'
      by_cases hji : i = j
      · subst hji
        simpa using (beq_iff_eq.1 hname).symm
      · simp [hji]
  rw [hset]
  exact h

theorem nodup_push {objects : Array CodeObject} {o : CodeObject}
    (h : (objects.toList.map (·.qualifiedName)).Nodup)
    (hnone : objects.findIdx? (·.qualifiedName == o.qualifiedName) = none) :
    ((objects.push o).toList.map (·.qualifiedName)).Nodup := by
  rw [Array.findIdx?_eq_none_iff] at hnone
  simp only [Array.toList_push, List.map_append, List.map_cons, List.map_nil]
  refine List.nodup_append.2 ⟨h, by simp, ?_⟩
  intro a ha b hb hab
  obtain ⟨x, hx, rfl⟩ := List.mem_map.1 ha
  have hxo := hnone x (by simpa using hx)
  simp_all

/-- Puts the object at the end, or in the place of the object with its name. -/
def insert (t : ObjectTable) (o : CodeObject) : ObjectTable :=
  match h : t.objects.findIdx? (·.qualifiedName == o.qualifiedName) with
  | some i => ⟨t.objects.setIfInBounds i o, nodup_set t.names_nodup h⟩
  | none => ⟨t.objects.push o, nodup_push t.names_nodup h⟩

def ofList (objects : List CodeObject) : ObjectTable := objects.foldl insert empty

end ObjectTable

end SourceCorpus
