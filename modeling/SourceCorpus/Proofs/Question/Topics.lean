import SourceCorpus.Question.Topic

/-!
What the identifiers of questions ask about. Main statement: an identifier is read by its grammar, as the
name of a topic with or without one of the prefixes, unless it is the bare `method_count`, whose
beginning is taken for a prefix.
-/

namespace SourceCorpus

theorem Text.stripStart?_eq_some_iff {start text rest : String} :
    Text.stripStart? start text = some rest ↔ text = start ++ rest := by
  rw [Text.stripStart?, Option.ite_none_right_eq_some, List.isPrefixOf_iff_prefix,
    ← String.toList_inj, String.toList_append]
  constructor
  · rintro ⟨⟨chars, hchars⟩, hrest⟩
    rw [← Option.some.inj hrest, String.toList_ofList, ← hchars, List.drop_left]
  · intro h
    rw [h, List.drop_left, String.ofList_toList]
    exact ⟨List.prefix_append _ _, rfl⟩

namespace Topic

def IsNamedBy (a : Topic) (id : String) : Prop :=
  id = a.name ∨ ∃ start ∈ idPrefixes, id = start ++ a.name

/-- The identifier is read as its grammar says, which leaves no choice between topics. -/
structure ReadsByGrammar (id : String) : Prop where
  reads : ∀ a, ofQuestionId? id = some a ↔ a.IsNamedBy id
  unambiguous : ∀ a b : Topic, a.IsNamedBy id → b.IsNamedBy id → a = b

variable {id rest start : String} {a b : Topic}

/-! ### Names and prefixes -/

theorem name_of_mem_names : ∀ x ∈ names, x.1 = x.2.name := by decide +kernel

theorem mem_names (a : Topic) : (a.name, a) ∈ names := by
  cases a <;> decide +kernel

theorem lookup_names_eq_some_iff : names.lookup rest = some a ↔ rest = a.name := by
  constructor
  · intro h
    obtain ⟨before, after, hnames, -⟩ := List.lookup_eq_some_iff.1 h
    exact name_of_mem_names (rest, a) (hnames ▸ List.mem_append_right _ List.mem_cons_self)
  · rintro rfl
    cases a <;> decide +kernel

theorem name_injective : Function.Injective name := fun _ _ h =>
  Option.some.inj ((lookup_names_eq_some_iff.2 rfl).symm.trans (lookup_names_eq_some_iff.2 h))

/-- One name begins like an identifier with a prefix. -/
theorem eq_methodCount_of_name (hstart : start ∈ idPrefixes) (h : a.name = start ++ rest) :
    a = methodCount := by
  have hnames : ∀ x ∈ names, ∀ start ∈ idPrefixes,
      start.toList.isPrefixOf x.1.toList = true → x.2 = methodCount := by decide +kernel
  refine hnames (a.name, a) (mem_names a) start hstart ?_
  rw [List.isPrefixOf_iff_prefix, h, String.toList_append]
  exact List.prefix_append _ _

/-- What stands behind its prefix is no name. -/
theorem name_ne_append (hstart : start ∈ idPrefixes) : a.name ≠ start ++ b.name := by
  have hnames : ∀ x ∈ names, ∀ start ∈ idPrefixes, ∀ y ∈ names,
      x.1.toList ≠ start.toList ++ y.1.toList := by decide +kernel
  intro h
  apply hnames (a.name, a) (mem_names a) start hstart (b.name, b) (mem_names b)
  rw [← String.toList_append, h]

/-- An identifier begins with one prefix at most. -/
theorem append_inj_of_mem {start' rest' : String} (hstart : start ∈ idPrefixes)
    (hstart' : start' ∈ idPrefixes) (h : start ++ rest = start' ++ rest') :
    start = start' ∧ rest = rest' := by
  have hprefixes : ∀ p ∈ idPrefixes, ∀ q ∈ idPrefixes,
      p.toList.isPrefixOf q.toList = true → p = q := by decide +kernel
  have hchars : start.toList ++ rest.toList = start'.toList ++ rest'.toList := by
    rw [← String.toList_append, ← String.toList_append, h]
  have hsame : start = start' := by
    have hleft : start.toList <+: start'.toList ++ rest'.toList := ⟨rest.toList, hchars⟩
    rcases List.prefix_or_prefix_of_prefix hleft (List.prefix_append _ rest'.toList) with hp | hp
    · exact hprefixes start hstart start' hstart' (List.isPrefixOf_iff_prefix.2 hp)
    · exact (hprefixes start' hstart' start hstart (List.isPrefixOf_iff_prefix.2 hp)).symm
  subst hsame
  exact ⟨rfl, String.toList_inj.1 (List.append_cancel_left hchars)⟩

theorem IsNamedBy.unique (h : a.IsNamedBy id) (h' : b.IsNamedBy id) : a = b := by
  rcases h with ha | ⟨start, hstart, ha⟩ <;> rcases h' with hb | ⟨start', hstart', hb⟩
  · exact name_injective (ha.symm.trans hb)
  · exact absurd (ha.symm.trans hb) (name_ne_append hstart')
  · exact absurd (hb.symm.trans ha) (name_ne_append hstart)
  · exact name_injective (append_inj_of_mem hstart hstart' (ha.symm.trans hb)).2

/-! ### What is read -/

/-- The first prefix that fits is taken off, even if what is left is no name. -/
theorem ofQuestionId?_append (hstart : start ∈ idPrefixes) :
    ofQuestionId? (start ++ rest) = names.lookup rest := by
  have hstrip : (idPrefixes.findSome? fun p => Text.stripStart? p (start ++ rest)) = some rest := by
    cases h : idPrefixes.findSome? fun p => Text.stripStart? p (start ++ rest) with
    | none =>
      have hnone := List.findSome?_eq_none_iff.1 h start hstart
      rw [Text.stripStart?_eq_some_iff.2 rfl] at hnone
      cases hnone
    | some left =>
      obtain ⟨p, hp, hleft⟩ := List.exists_of_findSome?_eq_some h
      rw [(append_inj_of_mem hstart hp (Text.stripStart?_eq_some_iff.1 hleft)).2]
  rw [ofQuestionId?, withoutPrefix, hstrip, Option.getD_some]

theorem ofQuestionId?_eq_lookup (h : ∀ start ∈ idPrefixes, ∀ rest, id ≠ start ++ rest) :
    ofQuestionId? id = names.lookup id := by
  have hstrip : (idPrefixes.findSome? fun start => Text.stripStart? start id) = none := by
    refine List.findSome?_eq_none_iff.2 fun start hstart => Option.eq_none_iff_forall_ne_some.2 ?_
    exact fun rest hrest => h start hstart rest (Text.stripStart?_eq_some_iff.1 hrest)
  rw [ofQuestionId?, withoutPrefix, hstrip, Option.getD_none]

theorem readsByGrammar_iff (id : String) : ReadsByGrammar id ↔ id ≠ methodCount.name := by
  constructor
  · rintro h rfl
    have hread : ofQuestionId? methodCount.name = some methodCount :=
      (h.reads methodCount).2 (.inl rfl)
    exact absurd hread (by decide +kernel)
  · intro hne
    refine ⟨fun a => ?_, fun _ _ => IsNamedBy.unique⟩
    by_cases hprefix : ∃ start ∈ idPrefixes, ∃ rest, id = start ++ rest
    · obtain ⟨start, hstart, rest, rfl⟩ := hprefix
      rw [ofQuestionId?_append hstart, lookup_names_eq_some_iff]
      constructor
      · rintro rfl
        exact .inr ⟨start, hstart, rfl⟩
      · rintro (hname | ⟨start', hstart', h⟩)
        · exact absurd (eq_methodCount_of_name hstart hname.symm ▸ hname) hne
        · exact (append_inj_of_mem hstart hstart' h).2
    · simp only [not_exists, not_and] at hprefix
      rw [ofQuestionId?_eq_lookup hprefix, lookup_names_eq_some_iff]
      refine ⟨.inl, fun h => h.resolve_right ?_⟩
      rintro ⟨start, hstart, h⟩
      exact hprefix start hstart a.name h

/-- The bare name means no topic, though it is the name of one, and is read behind any prefix. -/
theorem not_readsByGrammar_of_bare_name :
    IsNamedBy methodCount "method_count" ∧ ofQuestionId? "method_count" = none ∧
      (∀ start ∈ idPrefixes, ofQuestionId? (start ++ "method_count") = some methodCount) ∧
      ¬ReadsByGrammar "method_count" := by
  have hname : methodCount.name = "method_count" := by decide +kernel
  refine ⟨.inl hname.symm, by decide +kernel, by decide +kernel, fun h => ?_⟩
  exact absurd ((h.reads methodCount).2 (.inl hname.symm)) (by decide +kernel)

end Topic

end SourceCorpus
