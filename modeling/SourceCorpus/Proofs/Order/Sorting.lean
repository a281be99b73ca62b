import Mathlib.Data.List.Nodup
import Mathlib.Order.Lattice

/-!
Values that are put in order by a key. Main statement: if no two of them share a key, they come out
in the one order in which the keys increase.
-/

namespace SourceCorpus

section

variable {α β : Type} [LinearOrder β] {notAfter : α → α → Bool} {key : α → β} {xs ys : List α}

theorem pairwise_le_mergeSort (h : ∀ x y, notAfter x y = true ↔ key x ≤ key y) (xs : List α) :
    (xs.mergeSort notAfter).Pairwise fun x y => key x ≤ key y := by
  refine (List.pairwise_mergeSort (fun x y z hxy hyz => ?_) (fun x y => ?_) xs).imp fun hxy => ?_
  · rw [h] at hxy hyz ⊢
    exact le_trans hxy hyz
  · rw [Bool.or_eq_true, h, h]
    exact le_total _ _
  · exact (h _ _).1 hxy

theorem pairwise_lt_mergeSort (h : ∀ x y, notAfter x y = true ↔ key x ≤ key y)
    (hkeys : (xs.map key).Nodup) : (xs.mergeSort notAfter).Pairwise fun x y => key x < key y := by
  have hapart : (xs.mergeSort notAfter).Pairwise fun x y => key x ≠ key y := by
    rw [← List.pairwise_map]
    exact ((List.mergeSort_perm xs notAfter).map key).nodup_iff.2 hkeys
  exact ((pairwise_le_mergeSort h xs).and hapart).imp fun hxy => lt_of_le_of_ne hxy.1 hxy.2

/-- There is one order only in which the keys increase. -/
theorem mergeSort_eq_of_perm (h : ∀ x y, notAfter x y = true ↔ key x ≤ key y) (hperm : xs.Perm ys)
    (hys : ys.Pairwise fun x y => key x < key y) : xs.mergeSort notAfter = ys := by
  have hkeys : (xs.map key).Nodup :=
    (hperm.map key).nodup_iff.2 (List.pairwise_map.2 (hys.imp ne_of_lt))
  refine List.Perm.eq_of_pairwise (fun x y _ _ hxy hyx => ?_) (pairwise_lt_mergeSort h hkeys) hys
    ((List.mergeSort_perm xs notAfter).trans hperm)
  exact absurd hyx (lt_asymm hxy)

end

end SourceCorpus
