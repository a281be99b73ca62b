import SourceCorpus.Dataset.Record
import SourceCorpus.Proofs.Json.Quoting

/-!
Spellings of JSON values. Both printers spell a value, and whatever spells a value is read back as
that value. Numbers and halves of surrogate pairs are left out: records hold none.
-/

namespace SourceCorpus.Json

def IsBlank (cs : List Char) : Prop := ∀ c ∈ cs, isSpace c = true

mutual

/-- The characters spell the value, without blanks around it. -/
inductive Spells : Json → List Char → Prop where
  | null : Spells .null "null".toList
  | true : Spells (.bool true) "true".toList
  | false : Spells (.bool false) "false".toList
  | string (text : String) : Spells (.string text) (quoted text)
  | emptyArray : Spells (.array []) ['[', ']']
  | array {items : List Json} {cs : List Char} (h : SpellsItems items cs) :
      Spells (.array items) ('[' :: cs)
  | emptyObject : Spells (.object []) ['{', '}']
  | object {fields : List (String × Json)} {cs : List Char} (h : SpellsFields fields cs) :
      Spells (.object fields) ('{' :: cs)

inductive SpellsItems : List Json → List Char → Prop where
  | last {item : Json} {before cs after : List Char} (hb : IsBlank before) (h : Spells item cs)
      (ha : IsBlank after) : SpellsItems [item] (before ++ cs ++ after ++ [']'])
  | more {item : Json} {items : List Json} {before cs rest : List Char} (hb : IsBlank before)
      (h : Spells item cs) (hr : SpellsItems items rest) :
      SpellsItems (item :: items) (before ++ cs ++ ',' :: rest)

inductive SpellsFields : List (String × Json) → List Char → Prop where
  | last (name : String) {value : Json} {before between cs after : List Char}
      (hb : IsBlank before) (hi : IsBlank between) (h : Spells value cs) (ha : IsBlank after) :
      SpellsFields [(name, value)] (before ++ quoted name ++ ':' :: between ++ cs ++ after ++ ['}'])
  | more (name : String) {value : Json} {fields : List (String × Json)}
      {before between cs rest : List Char} (hb : IsBlank before) (hi : IsBlank between)
      (h : Spells value cs) (hr : SpellsFields fields rest) :
      SpellsFields ((name, value) :: fields)
        (before ++ quoted name ++ ':' :: between ++ cs ++ ',' :: rest)

end

/-! ### Reading a spelling -/

theorem skipSpace_append {before : List Char} (h : IsBlank before) (cs : List Char) :
    skipSpace (before ++ cs) = skipSpace cs := by
  rw [skipSpace, skipSpace, List.dropWhile_append_of_pos h]

theorem skipSpace_cons {c : Char} (h : isSpace c = false) (cs : List Char) :
    skipSpace (c :: cs) = c :: cs := by
  simp [skipSpace, h]

theorem skipSpace_quoted (text : String) (cs : List Char) :
    skipSpace (quoted text ++ cs) = '"' :: (text.toList.flatMap escape ++ '"' :: cs) := by
  rw [quoted_append]
  exact skipSpace_cons (by decide) _

/-- A value begins with a token of its own, which closes nothing. -/
theorem Spells.head {j : Json} {cs : List Char} (h : Spells j cs) :
    ∃ c rest, cs = c :: rest ∧ isSpace c = Bool.false ∧ c ≠ ']' := by
  cases h with
  | null => exact ⟨'n', _, rfl, by decide, by decide⟩
  | true => exact ⟨'t', _, rfl, by decide, by decide⟩
  | false => exact ⟨'f', _, rfl, by decide, by decide⟩
  | string text => exact ⟨'"', _, rfl, by decide, by decide⟩
  | emptyArray | array => exact ⟨'[', _, rfl, by decide, by decide⟩
  | emptyObject | object => exact ⟨'{', _, rfl, by decide, by decide⟩

theorem Spells.skipSpace_append {j : Json} {cs : List Char} (h : Spells j cs) (rest : List Char) :
    skipSpace (cs ++ rest) = cs ++ rest := by
  obtain ⟨c, cs, rfl, hc, -⟩ := h.head
  exact skipSpace_cons hc _

theorem SpellsItems.skipSpace_ne {items : List Json} {cs : List Char} (h : SpellsItems items cs)
    (rest tail : List Char) : skipSpace (cs ++ rest) ≠ ']' :: tail := by
  cases h with
  | last hb h ha =>
    obtain ⟨c, cs, rfl, hc, hne⟩ := h.head
    simp [Json.skipSpace_append hb, skipSpace_cons hc, hne]
  | more hb h hr =>
    obtain ⟨c, cs, rfl, hc, hne⟩ := h.head
    simp [Json.skipSpace_append hb, skipSpace_cons hc, hne]

theorem SpellsFields.skipSpace_ne {fields : List (String × Json)} {cs : List Char}
    (h : SpellsFields fields cs) (rest tail : List Char) :
    skipSpace (cs ++ rest) ≠ '}' :: tail := by
  cases h with
  | last name hb => simp [Json.skipSpace_append hb, skipSpace_quoted]
  | more name hb => simp [Json.skipSpace_append hb, skipSpace_quoted]

theorem readName?_append {before : List Char} (h : IsBlank before) (cs : List Char) :
    readName? (before ++ cs) = readName? cs := by
  rw [readName?, readName?, skipSpace_append h]

theorem readValue?_append {before : List Char} (h : IsBlank before) (fuel : Nat)
    (cs : List Char) : readValue? fuel (before ++ cs) = readValue? fuel cs := by
  cases fuel with
  | zero => rfl
  | succ fuel => rw [readValue?, readValue?, skipSpace_append h]

mutual

theorem Spells.readValue? {j : Json} {cs : List Char} (h : Spells j cs) (rest : List Char)
    (fuel : Nat) (hf : 2 * cs.length ≤ fuel + 1) :
    readValue? fuel (cs ++ rest) = some (j, rest) := by
  obtain _ | fuel := fuel
  · obtain ⟨c, cs, rfl, -⟩ := h.head
    simp only [List.length_cons] at hf
    omega
  rw [Json.readValue?, h.skipSpace_append]
  cases h with
  | null | true | false | emptyArray | emptyObject => rfl
  | string text =>
    rw [quoted_append]
    exact readString?_quoted text rest
  | array h =>
    have hread := h.readItems? rest fuel (by simp at hf; omega)
    simp only [List.cons_append, hread]
    split
    · next heq => exact absurd heq (h.skipSpace_ne rest _)
    · rfl
  | object h =>
    have hread := h.readFields? rest fuel (by simp at hf; omega)
    simp only [List.cons_append, hread]
    split
    · next heq => exact absurd heq (h.skipSpace_ne rest _)
    · rfl

theorem SpellsItems.readItems? {items : List Json} {cs : List Char} (h : SpellsItems items cs)
    (rest : List Char) (fuel : Nat) (hf : 2 * cs.length ≤ fuel) :
    readItems? fuel (cs ++ rest) = some (items, rest) := by
  obtain _ | fuel := fuel
  · cases h <;> simp at hf
  cases h with
  | @last item before cs after hb h ha =>
    have hread := h.readValue? (after ++ ']' :: rest) fuel (by simp at hf; omega)
    have hclose : skipSpace (after ++ ']' :: rest) = ']' :: rest := by
      rw [skipSpace_append ha]
      exact skipSpace_cons (by decide) _
    simp [Json.readItems?, readValue?_append hb, hread, hclose]
  | @more item items before cs tail hb h hr =>
    have hread := h.readValue? (',' :: (tail ++ rest)) fuel (by simp at hf; omega)
    have hmore : skipSpace (',' :: (tail ++ rest)) = ',' :: (tail ++ rest) :=
      skipSpace_cons (by decide) _
    have htail := hr.readItems? rest fuel (by simp at hf; omega)
    simp [Json.readItems?, readValue?_append hb, hread, hmore, htail]

theorem SpellsFields.readFields? {fields : List (String × Json)} {cs : List Char}
    (h : SpellsFields fields cs) (rest : List Char) (fuel : Nat) (hf : 2 * cs.length ≤ fuel) :
    readFields? fuel (cs ++ rest) = some (fields, rest) := by
  obtain _ | fuel := fuel
  · cases h <;> simp at hf
  cases h with
  | @last name value before between cs after hb hi h ha =>
    have hread := h.readValue? (after ++ '}' :: rest) fuel (by simp at hf; omega)
    have hclose : skipSpace (after ++ '}' :: rest) = '}' :: rest := by
      rw [skipSpace_append ha]
      exact skipSpace_cons (by decide) _
    simp [Json.readFields?, readName?_append hb, readName?_quoted, readValue?_append hi, hread,
      hclose]
  | @more name value fields before between cs tail hb hi h hr =>
    have hread := h.readValue? (',' :: (tail ++ rest)) fuel (by simp at hf; omega)
    have hmore : skipSpace (',' :: (tail ++ rest)) = ',' :: (tail ++ rest) :=
      skipSpace_cons (by decide) _
    have htail := hr.readFields? rest fuel (by simp at hf; omega)
    simp [Json.readFields?, readName?_append hb, readName?_quoted, readValue?_append hi, hread,
      hmore, htail]

end

/-- A text that spells a value, blanks around it allowed, is read as that value. -/
theorem Spells.parse? {j : Json} {before cs after : List Char} (h : Spells j cs)
    (hb : IsBlank before) (ha : IsBlank after) :
    parse? (String.ofList (before ++ cs ++ after)) = some j := by
  have hread : Json.readValue? (2 * (before ++ cs ++ after).length + 2) (before ++ cs ++ after) =
      some (j, after) := by
    rw [List.append_assoc, readValue?_append hb]
    exact h.readValue? after _ (by simp; omega)
  have hrest : skipSpace after = [] := by
    simpa [skipSpace] using Json.skipSpace_append ha []
  simp only [Json.parse?, String.toList_ofList, hread, hrest, if_true]

/-! ### Both printers spell -/

theorem isBlank_nil : IsBlank [] := by simp [IsBlank]

theorem isBlank_newLine (level : Nat) : IsBlank (newLine level) := by
  simp +decide [IsBlank, newLine, isSpace]

theorem spellsItems_compactItems {item : Json} {items : List Json}
    (h : ∀ j ∈ item :: items, Spells j (compactChars j)) :
    SpellsItems (item :: items) (compactItems (item :: items)) := by
  induction items generalizing item with
  | nil => simpa [compactItems] using SpellsItems.last isBlank_nil (h item (by simp)) isBlank_nil
  | cons next items ih =>
    have hitems := ih fun j hj => h j (List.mem_cons_of_mem _ hj)
    simpa [compactItems] using SpellsItems.more isBlank_nil (h item (by simp)) hitems

theorem spellsFields_compactFields {field : String × Json} {fields : List (String × Json)}
    (h : ∀ f ∈ field :: fields, Spells f.2 (compactChars f.2)) :
    SpellsFields (field :: fields) (compactFields (field :: fields)) := by
  obtain ⟨name, value⟩ := field
  have hvalue := h (name, value) (by simp)
  induction fields generalizing name value with
  | nil =>
    simpa [compactFields] using
      SpellsFields.last name isBlank_nil isBlank_nil hvalue isBlank_nil
  | cons next fields ih =>
    have hfields := ih next.1 next.2 (fun f hf => h f (List.mem_cons_of_mem _ hf))
      (h next (by simp))
    simpa [compactFields] using
      SpellsFields.more name isBlank_nil isBlank_nil hvalue hfields

theorem spellsItems_prettyItems {level : Nat} {item : Json} {items : List Json}
    (h : ∀ j ∈ item :: items, Spells j (prettyChars level j)) {after : List Char}
    (ha : IsBlank after) :
    SpellsItems (item :: items) (prettyItems level (item :: items) ++ after ++ [']']) := by
  induction items generalizing item with
  | nil =>
    simpa [prettyItems] using SpellsItems.last (isBlank_newLine level) (h item (by simp)) ha
  | cons next items ih =>
    have hitems := ih fun j hj => h j (List.mem_cons_of_mem _ hj)
    simpa [prettyItems] using
      SpellsItems.more (isBlank_newLine level) (h item (by simp)) hitems

theorem spellsFields_prettyFields {level : Nat} {field : String × Json}
    {fields : List (String × Json)} (h : ∀ f ∈ field :: fields, Spells f.2 (prettyChars level f.2))
    {after : List Char} (ha : IsBlank after) :
    SpellsFields (field :: fields) (prettyFields level (field :: fields) ++ after ++ ['}']) := by
  obtain ⟨name, value⟩ := field
  have hvalue := h (name, value) (by simp)
  have hspace : IsBlank [' '] := List.forall_mem_singleton.2 rfl
  induction fields generalizing name value with
  | nil =>
    simpa [prettyFields] using
      SpellsFields.last name (isBlank_newLine level) hspace hvalue ha
  | cons next fields ih =>
    have hfields := ih next.1 next.2 (fun f hf => h f (List.mem_cons_of_mem _ hf))
      (h next (by simp))
    simpa [prettyFields] using
      SpellsFields.more name (isBlank_newLine level) hspace hvalue hfields

/-- An array is spelled if its items are. -/
theorem Spells.array_compactChars {items : List Json}
    (h : ∀ j ∈ items, Spells j (compactChars j)) :
    Spells (.array items) (compactChars (.array items)) := by
  cases items with
  | nil => exact .emptyArray
  | cons item items => exact .array (spellsItems_compactItems h)

theorem Spells.object_compactChars {fields : List (String × Json)}
    (h : ∀ f ∈ fields, Spells f.2 (compactChars f.2)) :
    Spells (.object fields) (compactChars (.object fields)) := by
  cases fields with
  | nil => exact .emptyObject
  | cons field fields => exact .object (spellsFields_compactFields h)

theorem Spells.array_prettyChars {level : Nat} {items : List Json}
    (h : ∀ j ∈ items, Spells j (prettyChars (level + 1) j)) :
    Spells (.array items) (prettyChars level (.array items)) := by
  cases items with
  | nil => exact .emptyArray
  | cons item items => exact .array (spellsItems_prettyItems h (isBlank_newLine level))

theorem Spells.object_prettyChars {level : Nat} {fields : List (String × Json)}
    (h : ∀ f ∈ fields, Spells f.2 (prettyChars (level + 1) f.2)) :
    Spells (.object fields) (prettyChars level (.object fields)) := by
  cases fields with
  | nil => exact .emptyObject
  | cons field fields => exact .object (spellsFields_prettyFields h (isBlank_newLine level))

end SourceCorpus.Json

namespace SourceCorpus.Record

open Json

theorem ofJson?_toJson (r : Record) : ofJson? r.toJson = some r := by
  simp [ofJson?, toJson, record?, string?]

theorem mapM_ofJson? (records : List Record) :
    (records.map toJson).mapM ofJson? = some records := by
  induction records with
  | nil => rfl
  | cons r records ih => simp [List.mapM_cons, ofJson?_toJson, ih]

theorem listOfText?_of_parse? {text : String} {records : List Record}
    (h : Json.parse? text = some (listToJson records)) : listOfText? text = some records := by
  rw [listOfText?, h]
  exact mapM_ofJson? records

/-- Records that are written on one line are read back. -/
theorem listOfText?_compact (records : List Record) :
    listOfText? (listToJson records).compact = some records := by
  have hspells : Spells (listToJson records) (compactChars (listToJson records)) := by
    refine Spells.array_compactChars fun j hj => ?_
    obtain ⟨r, -, rfl⟩ := List.mem_map.1 hj
    refine Spells.object_compactChars fun f hf => ?_
    simp only [List.mem_cons, List.not_mem_nil, or_false] at hf
    obtain rfl | rfl | rfl := hf <;> exact .string _
  apply listOfText?_of_parse?
  simpa [compact] using hspells.parse? isBlank_nil isBlank_nil

/-- Records that are written as the text of a file are read back. -/
theorem listOfText?_pretty (records : List Record) :
    listOfText? ((listToJson records).pretty ++ "\n") = some records := by
  have hspells : Spells (listToJson records) (prettyChars 0 (listToJson records)) := by
    refine Spells.array_prettyChars fun j hj => ?_
    obtain ⟨r, -, rfl⟩ := List.mem_map.1 hj
    refine Spells.object_prettyChars fun f hf => ?_
    simp only [List.mem_cons, List.not_mem_nil, or_false] at hf
    obtain rfl | rfl | rfl := hf <;> exact .string _
  have hend : IsBlank "\n".toList := List.forall_mem_singleton.2 rfl
  apply listOfText?_of_parse?
  simpa [pretty] using hspells.parse? isBlank_nil hend

end SourceCorpus.Record
