import SourceCorpus.Graph.Resolution
import SourceCorpus.Proofs.Extraction.Naming

/-!
What names refer to. Main statements: whatever a name is found to refer to is an object of the file,
and a name that is found to refer to nothing is the qualified name of no object but the module.
-/

namespace SourceCorpus

namespace CodeModel

variable {m : CodeModel} {id scope : ObjectId} {o : CodeObject} {found : Found}
  {name path : String}

def IsObject (m : CodeModel) (found : Found) : Prop := (m.get? found.id).isSome

/-! ### Scopes and paths -/

theorem isSome_get?_of_mem_members (h : id ∈ m.members scope name) : (m.get? id).isSome := by
  rw [members] at h
  split at h
  next =>
    obtain ⟨-, hname⟩ := List.mem_filter.1 h
    rw [Option.any_eq_true] at hname
    exact Option.isSome_iff_exists.2 (hname.imp fun _ => And.left)
  next => cases h

theorem isObject_of_lookup? {scopes : List ObjectId} (h : m.lookup? scopes name = some found) :
    m.IsObject found := by
  obtain ⟨id, hid, rfl⟩ := Option.map_eq_some_iff.1 h
  obtain ⟨scope, -, hmember⟩ := List.mem_flatMap.1 (List.mem_of_head? hid)
  exact isSome_get?_of_mem_members hmember

theorem isObject_of_follow? {first : Found} {names : List String} (hfirst : m.IsObject first)
    (h : m.follow? first names = some found) : m.IsObject found := by
  induction names generalizing first with
  | nil => exact Option.some.inj h ▸ hfirst
  | cons name names ih =>
    rw [follow?] at h
    split at h
    next => cases h
    next id ids hmembers =>
      exact ih (isSome_get?_of_mem_members (hmembers ▸ List.mem_cons_self)) h

theorem isObject_of_resolvePath? {scopes : List ObjectId}
    (h : m.resolvePath? scopes path = some found) : m.IsObject found := by
  rw [resolvePath?] at h
  split at h
  next => cases h
  next =>
    obtain ⟨first, hfirst, hfollow⟩ := Option.bind_eq_some_iff.1 h
    exact isObject_of_follow? (isObject_of_lookup? hfirst) hfollow

/-! ### Members of classes -/

theorem isObject_of_searchMember (depth : Nat) (visited : List ObjectId) (id : ObjectId) :
    ∀ found ∈ (m.searchMember path depth visited id).1, m.IsObject found := by
  induction depth generalizing visited id with
  | zero =>
    rintro found ⟨⟩
  | succ depth ih =>
    rw [searchMember]
    split
    · rintro found ⟨⟩
    · split
      next found hpath =>
        intro found' h
        exact Option.some.inj h ▸ isObject_of_resolvePath? hpath
      next =>
        -- The search through the bases stops at the first one that has the member.
        refine List.foldlRecOn (motive := fun state : Option Found × List ObjectId =>
          ∀ found ∈ state.1, m.IsObject found) _ _ ?_ fun state h base _ => ?_
        · rintro found ⟨⟩
        · split
          · exact h
          · exact ih state.2 base

theorem isObject_of_byFullName? (h : m.byFullName? name = some found) : m.IsObject found := by
  rw [byFullName?] at h
  split at h
  next id hid =>
    split at h
    · cases h
    · obtain ⟨hlt, -⟩ := Array.findIdx?_eq_some_iff_getElem.1 hid
      obtain rfl := Option.some.inj h
      exact Option.isSome_iff_exists.2 ⟨_, Array.getElem?_eq_getElem hlt⟩
  next => cases h

/-- A name that refers to something in the file refers to an object. -/
theorem isObject_of_resolveInFile? (h : m.resolveInFile? id name = some found) :
    m.IsObject found := by
  rw [resolveInFile?, Option.orElse_eq_orElse, Option.orElse_eq_or, Option.or_eq_some_iff] at h
  rcases h with h | ⟨-, h⟩
  · split at h
    next path _ =>
      obtain ⟨cls, -, h⟩ := Option.bind_eq_some_iff.1 h
      exact isObject_of_searchMember _ _ _ found h
    next => exact isObject_of_resolvePath? h
  · exact isObject_of_byFullName? h

/-! ### Names of nothing in the file -/

theorem qualifiedName_ne_of_resolveInFile? (h : m.resolveInFile? id name = none) {i : ObjectId}
    (ho : m.get? i = some o) (hi : i ≠ moduleId) : o.qualifiedName ≠ name := by
  rintro rfl
  have hfull : m.byFullName? o.qualifiedName = none := by
    rw [resolveInFile?, Option.orElse_eq_orElse, Option.orElse_eq_or, Option.or_eq_none_iff] at h
    exact h.2
  rw [byFullName?, idOf?, ObjectTable.idOf?_qualifiedName ho] at hfull
  simp [hi] at hfull

end CodeModel

end SourceCorpus
