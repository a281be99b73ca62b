import Mathlib.Data.List.TakeWhile
import SourceCorpus.Proofs.Text.Pieces
import SourceCorpus.Text.Path

/-!
Paths relative to others. Main statements: what is left of a path has the components that the base does
not have, and of a path that is put together from a base and names, the names are left as they are
written.
-/

namespace SourceCorpus.Path

open Text

def stepsOf (path : List Char) : List Component :=
  (splitChar '/' path).filterMap Component.ofSegment?

theorem components_eq (path : List Char) : components path = (leading? path).toList ++ stepsOf path :=
  rfl

variable {segment path rest tail : List Char} {c : Component} {steps steps' : List Component}

/-- A path is one segment, or one with a slash and a path behind it. -/
theorem segmentInduction {motive : List Char → Prop}
    (last : ∀ segment, '/' ∉ segment → motive segment)
    (more : ∀ segment rest, '/' ∉ segment → motive rest → motive (segment ++ '/' :: rest))
    (path : List Char) : motive path := by
  have hpieces : ∀ piece ∈ splitChar '/' path, '/' ∉ piece := fun piece =>
    not_mem_of_mem_splitChar
  rw [← joinWith_splitChar '/' path]
  generalize splitChar '/' path = pieces at hpieces
  induction pieces with
  | nil => exact last [] List.not_mem_nil
  | cons piece pieces ih =>
    rw [List.forall_mem_cons] at hpieces
    cases pieces with
    | nil => exact last piece hpieces.1
    | cons next pieces =>
      rw [joinWith_cons_cons, List.append_assoc]
      exact more piece _ hpieces.1 (ih hpieces.2)

/-! ### Segments -/

theorem ofSegment?_eq_none_iff :
    Component.ofSegment? segment = none ↔ segment = [] ∨ segment = ['.'] := by
  rw [Component.ofSegment?]
  split
  next h => exact iff_of_true rfl h
  next h => split <;> exact iff_of_false nofun h

theorem stepsOf_segment (h : '/' ∉ segment) :
    stepsOf segment = (Component.ofSegment? segment).toList := by
  rw [stepsOf, splitChar_of_not_mem h, List.filterMap_cons, List.filterMap_nil]
  cases Component.ofSegment? segment <;> rfl

theorem stepsOf_append (h : '/' ∉ segment) (rest : List Char) :
    stepsOf (segment ++ '/' :: rest) = (Component.ofSegment? segment).toList ++ stepsOf rest := by
  rw [stepsOf, splitChar_append_cons h, List.filterMap_cons]
  cases Component.ofSegment? segment <;> rfl

theorem stepsOf_slash (rest : List Char) : stepsOf ('/' :: rest) = stepsOf rest :=
  stepsOf_append List.not_mem_nil rest

theorem stepsOf_dot_slash (rest : List Char) : stepsOf ('.' :: '/' :: rest) = stepsOf rest := by
  have hdot : '/' ∉ ['.'] := by decide
  exact stepsOf_append hdot rest

/-- The start of a path is no step, and neither is what it begins with. -/
theorem stepsOf_drop_one (h : leading? path = some c) : stepsOf (path.drop 1) = stepsOf path := by
  rw [leading?.eq_def] at h
  split at h
  next rest => exact (stepsOf_slash rest).symm
  next => rfl
  next rest => exact (stepsOf_slash rest).trans (stepsOf_dot_slash rest).symm
  next => cases h

/-! ### Segments that count for nothing -/

theorem skipEmptySegments_of_empty (h : Component.ofSegment? segment = none) (rest : List Char) :
    skipEmptySegments (segment ++ '/' :: rest) = skipEmptySegments rest := by
  rcases ofSegment?_eq_none_iff.1 h with rfl | rfl
  · rw [List.nil_append, skipEmptySegments]
  · rw [List.singleton_append, skipEmptySegments]

/-- Nothing is taken from a text whose first segment is a component. -/
theorem skipEmptySegments_eq_self {pieces : List (List Char)}
    (h : splitChar '/' path = segment :: pieces) (hc : Component.ofSegment? segment = some c) :
    skipEmptySegments path = path := by
  have hproper : segment ≠ [] ∧ segment ≠ ['.'] := by
    rw [← not_or, ← ofSegment?_eq_none_iff, hc]
    exact nofun
  rw [skipEmptySegments.eq_def]
  split
  · rfl
  · obtain ⟨rfl, -⟩ := List.cons.inj h
    exact absurd rfl hproper.2
  · rw [splitChar, if_pos rfl] at h
    obtain ⟨rfl, -⟩ := List.cons.inj h
    exact absurd rfl hproper.1
  · next rest =>
    have hsplit : splitChar '/' (['.'] ++ '/' :: rest) = _ := splitChar_append_cons (by decide) rest
    obtain ⟨rfl, -⟩ := List.cons.inj (hsplit.symm.trans h)
    exact absurd rfl hproper.2
  · rfl

theorem stepsOf_skipEmptySegments (path : List Char) :
    stepsOf (skipEmptySegments path) = stepsOf path := by
  fun_induction skipEmptySegments path with
  | case1 => rfl
  | case2 => rfl
  | case3 rest ih => exact ih.trans (stepsOf_slash rest).symm
  | case4 rest ih => exact ih.trans (stepsOf_dot_slash rest).symm
  | case5 => rfl

def Component.reverse : Component → Component
  | .normal name => .normal name.reverse
  | c => c

theorem Component.reverse_reverse (c : Component) : c.reverse.reverse = c := by
  cases c <;> simp [reverse]

theorem ofSegment?_reverse (segment : List Char) :
    Component.ofSegment? segment.reverse = (Component.ofSegment? segment).map .reverse := by
  have hcurrent : segment.reverse = ['.'] ↔ segment = ['.'] := List.reverse_eq_iff
  have hparent : segment.reverse = ['.', '.'] ↔ segment = ['.', '.'] := List.reverse_eq_iff
  simp only [Component.ofSegment?, List.reverse_eq_nil_iff, hcurrent, hparent]
  split
  · rfl
  · split <;> rfl

theorem stepsOf_reverse (path : List Char) :
    stepsOf path.reverse = ((stepsOf path).map .reverse).reverse := by
  rw [stepsOf, splitChar_reverse, List.filterMap_reverse, List.filterMap_map, stepsOf,
    List.map_filterMap]
  exact congrArg List.reverse (List.filterMap_congr fun segment _ => ofSegment?_reverse segment)

theorem stepsOf_dropEmptySegments (path : List Char) :
    stepsOf (dropEmptySegments path) = stepsOf path := by
  have hback : stepsOf path.reverse.reverse = stepsOf path := by rw [List.reverse_reverse]
  rw [dropEmptySegments, stepsOf_reverse, stepsOf_skipEmptySegments, ← stepsOf_reverse, hback]

/-! ### Components one by one -/

theorem next?_eq (path : List Char) : next? true path =
    (Component.ofSegment? ((skipEmptySegments path).takeWhile (· ≠ '/'))).map fun c =>
      (c, ((skipEmptySegments path).dropWhile (· ≠ '/')).drop 1) := by
  rw [next?.eq_def]

theorem next?_segment (h : '/' ∉ segment) (hc : Component.ofSegment? segment = some c) :
    next? true segment = some (c, []) := by
  have hall : ∀ a ∈ segment, decide (a ≠ '/') = true := fun a ha =>
    decide_eq_true fun heq => h (heq ▸ ha)
  rw [next?_eq, skipEmptySegments_eq_self (splitChar_of_not_mem h) hc,
    List.takeWhile_eq_self_iff.2 hall, List.dropWhile_eq_nil_iff.2 hall, hc]
  rfl

theorem next?_append (h : '/' ∉ segment) (hc : Component.ofSegment? segment = some c)
    (rest : List Char) : next? true (segment ++ '/' :: rest) = some (c, rest) := by
  have hall : ∀ a ∈ segment, decide (a ≠ '/') = true := fun a ha =>
    decide_eq_true fun heq => h (heq ▸ ha)
  rw [next?_eq, skipEmptySegments_eq_self (splitChar_append_cons h rest) hc,
    takeWhile_ne_append_cons h, List.dropWhile_append_of_pos hall, hc]
  rfl

/-- Once a component was found, empty segments do not matter. -/
theorem stripComponents?_of_empty (h : Component.ofSegment? segment = none) (rest : List Char)
    (steps : List Component) :
    stripComponents? true (segment ++ '/' :: rest) steps = stripComponents? true rest steps := by
  have hskip := skipEmptySegments_of_empty h rest
  cases steps with
  | nil => rw [stripComponents?, stripComponents?, if_pos rfl, if_pos rfl, hskip]
  | cons c steps => rw [stripComponents?, stripComponents?, next?_eq, next?_eq, hskip]

theorem stripComponents?_append_cons (h : '/' ∉ segment)
    (hc : Component.ofSegment? segment = some c) (rest : List Char) (steps : List Component) :
    stripComponents? true (segment ++ '/' :: rest) (c :: steps) =
      stripComponents? true rest steps := by
  rw [stripComponents?, next?_append h hc]
  exact if_pos rfl

/-- A base and a slash are taken from what begins with them. -/
theorem stripComponents?_stepsOf (base tail : List Char) :
    stripComponents? true (base ++ '/' :: tail) (stepsOf base) = stripComponents? true tail [] := by
  induction base using segmentInduction with
  | last segment h =>
    rw [stepsOf_segment h]
    cases hc : Component.ofSegment? segment with
    | none => exact stripComponents?_of_empty hc tail []
    | some c => exact stripComponents?_append_cons h hc tail []
  | more segment rest h ih =>
    rw [stepsOf_append h, List.append_assoc, List.cons_append]
    cases hc : Component.ofSegment? segment with
    | none => exact (stripComponents?_of_empty hc _ _).trans ih
    | some c => exact (stripComponents?_append_cons h hc _ _).trans ih

/-- What is left of a path has the components that are left. -/
theorem exists_stripComponents?_of_stepsOf (h : stepsOf path = steps ++ steps') :
    ∃ rest, stripComponents? true path steps = some rest ∧ stepsOf rest = steps' := by
  have hnone {path : List Char} (h : stepsOf path = steps') :
      ∃ rest, stripComponents? true path [] = some rest ∧ stepsOf rest = steps' := by
    refine ⟨_, if_pos rfl, ?_⟩
    rw [stepsOf_dropEmptySegments, stepsOf_skipEmptySegments, h]
  -- A segment that stands for nothing is skipped without taking a step.
  induction path using segmentInduction generalizing steps with
  | last segment hsegment =>
    cases steps with
    | nil => exact hnone h
    | cons c steps =>
      rw [stepsOf_segment hsegment] at h
      cases hc : Component.ofSegment? segment with
      | none =>
        rw [hc] at h
        cases h
      | some c' =>
        rw [hc, Option.toList_some, List.cons_append, List.cons.injEq] at h
        obtain ⟨rfl, hrest⟩ := h
        obtain ⟨rfl, hsteps⟩ := List.append_eq_nil_iff.1 hrest.symm
        rw [stripComponents?, next?_segment hsegment hc]
        exact ⟨[], if_pos rfl, hsteps.symm⟩
  | more segment rest hsegment ih =>
    cases steps with
    | nil => exact hnone h
    | cons c steps =>
      rw [stepsOf_append hsegment] at h
      cases hc : Component.ofSegment? segment with
      | none =>
        rw [hc] at h
        rw [stripComponents?_of_empty hc]
        exact ih h
      | some c' =>
        rw [hc, Option.toList_some, List.singleton_append, List.cons_append, List.cons.injEq] at h
        obtain ⟨rfl, hrest⟩ := h
        rw [stripComponents?_append_cons hsegment hc]
        exact ih hrest

/-! ### Bases -/

theorem leading?_segment (h : '/' ∉ segment) :
    leading? segment = if segment = ['.'] then some .current else none := by
  rw [leading?.eq_def]
  split
  · exact absurd List.mem_cons_self h
  · rfl
  · exact absurd (List.mem_cons_of_mem _ List.mem_cons_self) h
  · next hcurrent _ => exact (if_neg hcurrent).symm

theorem leading?_segment_append (h : '/' ∉ segment) (rest : List Char) :
    leading? (segment ++ '/' :: rest) =
      if segment = [] then some .root else if segment = ['.'] then some .current else none := by
  by_cases hempty : segment = []
  · subst hempty
    rfl
  by_cases hcurrent : segment = ['.']
  · subst hcurrent
    rfl
  rw [if_neg hempty, if_neg hcurrent, leading?.eq_def]
  obtain ⟨a, cs, rfl⟩ := List.exists_cons_of_ne_nil hempty
  split
  next heq => exact absurd ((List.cons.inj heq).1 ▸ List.mem_cons_self) h
  next heq => simp at heq
  next heq =>
    obtain ⟨rfl, hrest⟩ := List.cons.inj heq
    cases cs with
    | nil => exact absurd rfl hcurrent
    | cons b cs =>
      obtain ⟨rfl, -⟩ := List.cons.inj hrest
      exact absurd (List.mem_cons_of_mem _ List.mem_cons_self) h
  next => rfl

theorem leading?_append (h : path ≠ []) (tail : List Char) :
    leading? (path ++ '/' :: tail) = leading? path := by
  induction path using segmentInduction with
  | last segment hsegment =>
    rw [leading?_segment_append hsegment, if_neg h, leading?_segment hsegment]
  | more segment rest hsegment _ =>
    rw [List.append_assoc, List.cons_append, leading?_segment_append hsegment,
      leading?_segment_append hsegment]

theorem leading?_ne_normal {name : List Char} : leading? path ≠ some (.normal name) := by
  rw [leading?.eq_def]
  split <;> exact nofun

theorem next?_of_leading (h : leading? path = some c) :
    next? false path = some (c, path.drop 1) := by
  rw [next?.eq_def, h]

/-- A path that has no start of its own begins with a step. -/
theorem stripComponents?_of_no_leading (h : leading? path = none) (c : Component)
    (steps : List Component) :
    stripComponents? false path (c :: steps) = stripComponents? true path (c :: steps) := by
  have hnext : next? false path = next? true path := by
    rw [next?.eq_def, next?.eq_def, h]
  rw [stripComponents?, stripComponents?, hnext]

theorem stepsOf_ne_nil (h : leading? path = none) (hne : path ≠ []) : stepsOf path ≠ [] := by
  have hsteps {segment : List Char} (hempty : segment ≠ []) (hcurrent : segment ≠ ['.']) :
      (Component.ofSegment? segment).toList ≠ [] := by
    rw [Ne, Option.toList_eq_nil_iff, ofSegment?_eq_none_iff]
    exact not_or.2 ⟨hempty, hcurrent⟩
  induction path using segmentInduction with
  | last segment hsegment =>
    rw [leading?_segment hsegment] at h
    rw [stepsOf_segment hsegment]
    exact hsteps hne fun hcurrent => by rw [if_pos hcurrent] at h; cases h
  | more segment rest hsegment _ =>
    rw [leading?_segment_append hsegment] at h
    rw [stepsOf_append hsegment]
    refine List.append_ne_nil_of_left_ne_nil (hsteps ?_ ?_) _
    · intro hempty
      rw [if_pos hempty] at h
      cases h
    · rintro rfl
      cases h

/-- What is left of a path behind a base has the components that the base does not have. -/
theorem exists_stripBase?_of_components {base : List Char} {names : List (List Char)}
    (h : components path = components base ++ names.map .normal) :
    ∃ rest, stripBase? base path = some rest ∧ stepsOf rest = names.map .normal := by
  rw [stripBase?]
  rw [components_eq path] at h
  cases hbase : components base with
  | nil =>
    -- Only what the path has in front of its names could be its start.
    rw [hbase, List.nil_append] at h
    cases hleading : leading? path with
    | some c =>
      rw [hleading, Option.toList_some, List.singleton_append] at h
      obtain ⟨name, -, rfl⟩ := List.mem_map.1 (h ▸ List.mem_cons_self)
      exact absurd hleading leading?_ne_normal
    | none =>
      rw [hleading, Option.toList_none, List.nil_append] at h
      refine ⟨dropEmptySegments path, ?_, (stepsOf_dropEmptySegments path).trans h⟩
      simp [stripComponents?, hleading]
  | cons c steps =>
    rw [hbase] at h
    cases hleading : leading? path with
    | some c' =>
      rw [hleading, Option.toList_some, List.singleton_append, List.cons_append,
        List.cons.injEq] at h
      obtain ⟨rfl, hsteps⟩ := h
      rw [stripComponents?, next?_of_leading hleading]
      rw [← stepsOf_drop_one hleading] at hsteps
      dsimp only
      rw [if_pos rfl]
      exact exists_stripComponents?_of_stepsOf hsteps
    | none =>
      rw [hleading, Option.toList_none, List.nil_append] at h
      rw [stripComponents?_of_no_leading hleading]
      exact exists_stripComponents?_of_stepsOf h

/-- What stands behind a base and a slash is left as it is written, up to empty segments at its ends. -/
theorem stripBase?_append {base : List Char} (h : base ≠ []) (tail : List Char) :
    stripBase? base (base ++ '/' :: tail) = some (dropEmptySegments (skipEmptySegments tail)) := by
  have htail : stripComponents? true tail [] =
      some (dropEmptySegments (skipEmptySegments tail)) := if_pos rfl
  rw [stripBase?, components_eq]
  cases hleading : leading? base with
  | some c =>
    have hdrop : (base ++ '/' :: tail).drop 1 = base.drop 1 ++ '/' :: tail := by
      obtain ⟨a, cs, rfl⟩ := List.exists_cons_of_ne_nil h
      rfl
    rw [Option.toList_some, List.singleton_append, stripComponents?,
      next?_of_leading ((leading?_append h tail).trans hleading), hdrop]
    dsimp only
    rw [if_pos rfl, ← stepsOf_drop_one hleading, stripComponents?_stepsOf, htail]
  | none =>
    obtain ⟨c, steps, hsteps⟩ := List.exists_cons_of_ne_nil (stepsOf_ne_nil hleading h)
    rw [Option.toList_none, List.nil_append, hsteps,
      stripComponents?_of_no_leading ((leading?_append h tail).trans hleading), ← hsteps,
      stripComponents?_stepsOf, htail]

/-! ### Paths made of names -/

section

variable {names : List (List Char)}

/-- Names that are joined to a path have no empty segments before them. -/
theorem skipEmptySegments_joinWith (hne : names ≠ []) (hslash : ∀ name ∈ names, '/' ∉ name)
    (h : ∀ name ∈ names, Component.ofSegment? name = some (.normal name)) :
    skipEmptySegments (joinWith ['/'] names) = joinWith ['/'] names := by
  obtain ⟨name, others, hnames⟩ := List.exists_cons_of_ne_nil hne
  exact skipEmptySegments_eq_self ((splitChar_joinWith hne hslash).trans hnames)
    (h name (hnames ▸ List.mem_cons_self))

theorem dropEmptySegments_joinWith (hne : names ≠ []) (hslash : ∀ name ∈ names, '/' ∉ name)
    (h : ∀ name ∈ names, Component.ofSegment? name = some (.normal name)) :
    dropEmptySegments (joinWith ['/'] names) = joinWith ['/'] names := by
  have hback : skipEmptySegments (joinWith ['/'] names).reverse = (joinWith ['/'] names).reverse := by
    rw [reverse_joinWith]
    refine skipEmptySegments_joinWith (by simpa using hne) (fun name hname => ?_) fun name hname => ?_
    all_goals obtain ⟨other, hother, rfl⟩ := List.mem_map.1 (List.mem_reverse.1 hname)
    · exact mt List.mem_reverse.1 (hslash other hother)
    · rw [ofSegment?_reverse, h other hother]
      rfl
  rw [dropEmptySegments, hback, List.reverse_reverse]

end

/-- A character that no name holds is not in the path, unless it is a slash or a dot. -/
theorem not_mem_of_stepsOf {a : Char} (hslash : a ≠ '/') (hdot : a ≠ '.')
    (h : ∀ name, .normal name ∈ stepsOf path → a ∉ name) : a ∉ path := by
  have hsegment {segment : List Char}
      (h : ∀ name, .normal name ∈ (Component.ofSegment? segment).toList → a ∉ name) :
      a ∉ segment := by
    by_cases hparent : segment = ['.', '.']
    · subst hparent
      simp [hdot]
    cases hc : Component.ofSegment? segment with
    | none => rcases ofSegment?_eq_none_iff.1 hc with rfl | rfl <;> simp [hdot]
    | some c =>
      rw [hc] at h
      rw [Component.ofSegment?] at hc
      split at hc
      · cases hc
      · exact h segment (Option.some.inj hc ▸ List.mem_cons_self)
  induction path using segmentInduction with
  | last segment hno =>
    rw [stepsOf_segment hno] at h
    exact hsegment h
  | more segment rest hno ih =>
    rw [stepsOf_append hno] at h
    rw [List.mem_append, List.mem_cons, not_or, not_or]
    exact ⟨hsegment fun name hname => h name (List.mem_append_left _ hname), hslash,
      ih fun name hname => h name (List.mem_append_right _ hname)⟩

end SourceCorpus.Path
