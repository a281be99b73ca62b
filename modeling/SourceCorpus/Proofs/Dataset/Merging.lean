import SourceCorpus.Dataset.Corpus
import SourceCorpus.Proofs.Order.FirstOccurrences

/-!
Corpora of many lists of records. Main statement: a corpus lists the records, and what they say for
training, once each and in the order in which they come first, and a corpus that was merged before
may stand for the lists that it was merged from.
-/

namespace SourceCorpus

namespace Corpus

/-- The corpus lists the records of the files, and for training what is left of them without their
inputs. -/
structure ListsRecords (c : Corpus) (perFile : List (List Record)) (withTrain : Bool) : Prop where
  instruct : ListsFirst c.instruct perFile.flatten
  train : withTrain = true →
    ∃ train, c.train = some train ∧ ListsFirst train (perFile.flatten.map Record.toTrain)
  untrained : withTrain = false → c.train = none

theorem merge_eq (perFile : List (List Record)) (withTrain : Bool) :
    merge perFile withTrain =
      { instruct := firstOccurrences perFile.flatten
        train := if withTrain then some (firstOccurrences (perFile.flatten.map Record.toTrain))
          else none } := by
  rw [merge, firstOccurrences_map_firstOccurrences]

theorem listsRecords_merge (perFile : List (List Record)) (withTrain : Bool) :
    (merge perFile withTrain).ListsRecords perFile withTrain := by
  rw [merge_eq]
  exact
    { instruct := listsFirst_firstOccurrences _
      train := fun h => ⟨_, if_pos h, listsFirst_firstOccurrences _⟩
      untrained := fun h => if_neg (ne_true_of_eq_false h) }

/-- What a corpus is depends on the records only by the order of their first occurrences. -/
theorem merge_congr {xs ys : List (List Record)}
    (h : firstOccurrences xs.flatten = firstOccurrences ys.flatten) (withTrain : Bool) :
    merge xs withTrain = merge ys withTrain := by
  rw [merge, merge, h]

/-- Merging lists records once, may be done in stages, and changes nothing the second time. -/
theorem merge_listsRecords_and_stages (xs ys : List (List Record)) (early late : Bool) :
    (merge xs late).ListsRecords xs late ∧
      merge ((merge xs early).instruct :: ys) late = merge (xs ++ ys) late ∧
      merge [(merge xs early).instruct] late = merge xs late := by
  have hstage : ∀ ys, merge ((merge xs early).instruct :: ys) late = merge (xs ++ ys) late := by
    intro ys
    refine merge_congr ?_ late
    rw [List.flatten_cons, List.flatten_append]
    exact firstOccurrences_firstOccurrences_append xs.flatten ys.flatten
  refine ⟨listsRecords_merge xs late, hstage ys, ?_⟩
  rw [hstage [], List.append_nil]

end Corpus

end SourceCorpus
