import SourceCorpus.Extraction.Extract
import SourceCorpus.Proofs.Syntax.Shape

/-!
The first problem of a tree. Main statement: a search that enters marked parts only finds what a search
of all nodes finds, if a part is marked exactly when a problem is in it; so a text is refused exactly
if its tree has a problem, and the error tells where the first one is.
-/

namespace SourceCorpus

namespace Syntax.Tree

mutual

/-- The first problem of the tree, looked for only in the parts that are marked. -/
def firstMarked? (mark : Tree → Bool) : Tree → Option Tree
  | node _ _ _ children => firstMarkedOf? mark children
  | t => some t

def firstMarkedOf? (mark : Tree → Bool) : List Tree → Option Tree
  | [] => none
  | t :: ts =>
    if mark t then (firstMarked? mark t).or (firstMarkedOf? mark ts) else firstMarkedOf? mark ts

end

/-- In the tree, exactly the nodes that are a problem or stand above one are marked. -/
def MarksProblems (mark : Tree → Bool) (t : Tree) : Prop :=
  ∀ n ∈ t.preorder, mark n = true ↔ ∃ problem ∈ n.preorder, problem.isProblem = true

/-- Wherever in the tree it starts, the search for the first problem does not miss it by passing over
what is not marked. -/
structure FindsFirstProblem (t : Tree) : Prop where
  /-- This is all that is used of the marks. -/
  marked : ∀ mark, MarksProblems mark t → ∀ n ∈ t.preorder,
    n.firstMarked? mark = n.preorder.find? (·.isProblem)
  /-- The marks with which problems are looked for are such marks. -/
  marks : MarksProblems hasProblem t
  search : ∀ n ∈ t.preorder, n.firstProblem? = n.firstMarked? hasProblem
  nothing : ∀ n ∈ t.preorder,
    n.firstProblem? = none ↔ ∀ part ∈ n.preorder, part.isProblem = false

variable {mark : Tree → Bool} {t n : Tree} {ts : List Tree}

/-! ### The search -/

theorem find?_preorder_node (kind : Kind) (role : Option Role) (extent : Extent)
    (children : List Tree) : (node kind role extent children).preorder.find? (·.isProblem) =
      (children.flatMap preorder).find? (·.isProblem) := by
  rw [preorder_node, List.find?_cons_of_neg]
  exact Bool.false_ne_true

theorem MarksProblems.of_mem (h : MarksProblems mark t) (hn : n ∈ t.preorder) :
    MarksProblems mark n := fun m hm => h m (mem_preorder_trans hn hm)

/-- What is passed over in a row of trees holds no problem. -/
theorem firstMarkedOf?_eq
    (hmarks : ∀ c ∈ ts, mark c = true ↔ ∃ problem ∈ c.preorder, problem.isProblem = true)
    (hfirst : ∀ c ∈ ts, c.firstMarked? mark = c.preorder.find? (·.isProblem)) :
    firstMarkedOf? mark ts = (ts.flatMap preorder).find? (·.isProblem) := by
  induction ts with
  | nil => rfl
  | cons c ts ih =>
    rw [List.forall_mem_cons] at hmarks hfirst
    have hrest := ih hmarks.2 hfirst.2
    rw [firstMarkedOf?, List.flatMap_cons, List.find?_append, hfirst.1, hrest]
    split
    next => rfl
    next hmark =>
      have hnone : c.preorder.find? (·.isProblem) = none :=
        List.find?_eq_none.2 fun m hm hproblem => hmark (hmarks.1.2 ⟨m, hm, hproblem⟩)
      rw [hnone, Option.none_or]

theorem MarksProblems.firstMarked?_eq (h : MarksProblems mark t) :
    t.firstMarked? mark = t.preorder.find? (·.isProblem) := by
  induction t using Tree.induction with
  | node kind role extent children ih =>
    have hbelow : ∀ c ∈ children, c ∈ (node kind role extent children).preorder := fun c hc =>
      mem_preorder_of_mem_children hc (self_mem_preorder c)
    rw [firstMarked?, find?_preorder_node]
    apply firstMarkedOf?_eq
    · exact fun c hc => h c (hbelow c hc)
    · exact fun c hc => ih c hc (h.of_mem (hbelow c hc))
  | error extent children ih => rfl
  | missing token place => rfl

/-! ### The marks of the program -/

theorem anyHasProblem_eq (ts : List Tree) : anyHasProblem ts = ts.any hasProblem := by
  induction ts with
  | nil => rfl
  | cons t ts ih => rw [anyHasProblem, ih, List.any_cons]

theorem hasProblem_iff (t : Tree) :
    t.hasProblem = true ↔ ∃ problem ∈ t.preorder, problem.isProblem = true := by
  induction t using Tree.induction with
  | node kind role extent children ih =>
    rw [hasProblem, anyHasProblem_eq, List.any_eq_true, preorder_node]
    constructor
    · rintro ⟨c, hc, hproblem⟩
      obtain ⟨problem, hmem, hproblem⟩ := (ih c hc).1 hproblem
      exact ⟨problem, List.mem_cons_of_mem _ (List.mem_flatMap.2 ⟨c, hc, hmem⟩), hproblem⟩
    · rintro ⟨problem, hmem, hproblem⟩
      rcases List.mem_cons.1 hmem with rfl | hmem
      · cases hproblem
      · obtain ⟨c, hc, hmem⟩ := List.mem_flatMap.1 hmem
        exact ⟨c, hc, (ih c hc).2 ⟨problem, hmem, hproblem⟩⟩
  | error extent children ih => exact iff_of_true rfl ⟨_, self_mem_preorder _, rfl⟩
  | missing token place => exact iff_of_true rfl ⟨_, self_mem_preorder _, rfl⟩

theorem marksProblems_hasProblem (t : Tree) : MarksProblems hasProblem t := fun n _ =>
  hasProblem_iff n

theorem firstProblemOf_eq (h : ∀ c ∈ ts, c.firstProblem? = c.firstMarked? hasProblem) :
    firstProblemOf ts = firstMarkedOf? hasProblem ts := by
  induction ts with
  | nil => rfl
  | cons c ts ih =>
    rw [List.forall_mem_cons] at h
    rw [firstProblemOf, firstMarkedOf?, h.1, ih h.2]
    cases c.firstMarked? hasProblem <;> rfl

theorem firstProblem?_eq_firstMarked? (t : Tree) :
    t.firstProblem? = t.firstMarked? hasProblem := by
  induction t using Tree.induction with
  | node kind role extent children ih =>
    rw [firstProblem?, firstMarked?]
    exact firstProblemOf_eq ih
  | error extent children ih => rfl
  | missing token place => rfl

theorem firstProblem?_eq (t : Tree) : t.firstProblem? = t.preorder.find? (·.isProblem) :=
  (firstProblem?_eq_firstMarked? t).trans (marksProblems_hasProblem t).firstMarked?_eq

theorem findsFirstProblem (t : Tree) : t.FindsFirstProblem := by
  refine ⟨fun mark h n hn => (h.of_mem hn).firstMarked?_eq, marksProblems_hasProblem t,
    fun n _ => firstProblem?_eq_firstMarked? n, fun n _ => ?_⟩
  rw [firstProblem?_eq, List.find?_eq_none]
  simp only [Bool.not_eq_true]

end Syntax.Tree

namespace Extraction

open Syntax

/-- A text is read if its tree has no problem, and otherwise refused for the first one, with the place
where that one begins. -/
structure ReportsFirstProblem (file : String) (source : List Char) : Prop where
  accepted : ∀ tree, parseSource file source = .ok tree ↔
    tree = parse source ∧ ∀ n ∈ tree.preorder, n.isProblem = false
  refused : ∀ e, parseSource file source = .error e ↔
    ∃ problem, (parse source).preorder.find? (·.isProblem) = some problem ∧
      e = ⟨file, describe problem, some (problem.start.row + 1), some (problem.start.column + 1)⟩

theorem parseErrorOf_of_find? {file : String} {tree problem : Tree}
    (h : tree.preorder.find? (·.isProblem) = some problem) : parseErrorOf file tree =
      ⟨file, describe problem, some (problem.start.row + 1), some (problem.start.column + 1)⟩ := by
  rw [parseErrorOf, Tree.firstProblem?_eq, h]

theorem reportsFirstProblem (file : String) (source : List Char) :
    ReportsFirstProblem file source := by
  cases hfind : (parse source).preorder.find? (·.isProblem) with
  | none =>
    have hnone : ∀ n ∈ (parse source).preorder, n.isProblem = false := fun n hn =>
      Bool.eq_false_iff.2 (List.find?_eq_none.1 hfind n hn)
    have hclean : (parse source).hasProblem = false := by
      rw [← Bool.not_eq_true, Tree.hasProblem_iff]
      rintro ⟨problem, hmem, hproblem⟩
      exact absurd hproblem (Bool.eq_false_iff.1 (hnone problem hmem))
    have hread : parseSource file source = .ok (parse source) := by
      rw [parseSource, hclean]
      rfl
    refine ⟨fun tree => ?_, fun e => ?_⟩
    · rw [hread]
      constructor
      · rintro ⟨⟩
        exact ⟨rfl, hnone⟩
      · rintro ⟨rfl, -⟩
        rfl
    · rw [hread, hfind]
      simp
  | some problem =>
    have hmem : problem ∈ (parse source).preorder := List.mem_of_find?_eq_some hfind
    have hproblem : problem.isProblem = true := List.find?_some hfind
    have hbroken : (parse source).hasProblem = true :=
      (Tree.hasProblem_iff _).2 ⟨problem, hmem, hproblem⟩
    have hrefused : parseSource file source = .error (parseErrorOf file (parse source)) := by
      rw [parseSource, hbroken]
      rfl
    refine ⟨fun tree => ?_, fun e => ?_⟩
    · rw [hrefused]
      refine iff_of_false nofun ?_
      rintro ⟨rfl, hnone⟩
      exact absurd hproblem (Bool.eq_false_iff.1 (hnone problem hmem))
    · rw [hrefused, parseErrorOf_of_find? hfind, hfind]
      simp [eq_comm]

/-- Passing over what is free of problems changes neither what is found in a tree nor what is reported
of a text. -/
theorem pruned_search_agrees (t : Tree) (file : String) (source : List Char) :
    t.FindsFirstProblem ∧ ReportsFirstProblem file source :=
  ⟨t.findsFirstProblem, reportsFirstProblem file source⟩

end Extraction

end SourceCorpus
