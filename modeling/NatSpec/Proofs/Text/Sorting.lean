import Mathlib.Data.List.Sort
import Mathlib.Data.List.Nodup

/-!
Sorting by a text. A sorted list is known by its order and by being a permutation, and two of them
with the same items and texts that all differ are one list.
-/

namespace NatSpec

theorem pairwise_mergeSort_le {α : Type} (f : α → String) (items : List α) :
    (items.mergeSort fun a b => f a ≤ f b).Pairwise fun a b => f a ≤ f b := by
  refine (List.pairwise_mergeSort ?_ ?_ items).imp of_decide_eq_true
  · intro a b c hab hbc
    exact decide_eq_true (String.le_trans (of_decide_eq_true hab) (of_decide_eq_true hbc))
  · intro a b
    simpa using String.le_total (f a) (f b)

/-- Sorting by a text and then taking the texts is sorting the texts. -/
theorem map_mergeSort_eq {α : Type} (f : α → String) {items : List α} {names : List String}
    (h : (items.map f).Perm names) :
    (items.mergeSort fun a b => f a ≤ f b).map f = names.mergeSort fun a b => a ≤ b := by
  refine List.Perm.eq_of_pairwise (fun _ _ _ _ => String.le_antisymm) ?_
    (pairwise_mergeSort_le id names) ?_
  · exact List.pairwise_map.2 (pairwise_mergeSort_le f items)
  · exact ((List.mergeSort_perm _ _).map f).trans (h.trans (List.mergeSort_perm _ _).symm)

theorem mergeSort_congr {texts others : List String} (h : texts.Perm others) :
    texts.mergeSort (fun a b => a ≤ b) = others.mergeSort fun a b => a ≤ b := by
  simpa using map_mergeSort_eq id ((List.map_id texts).symm ▸ h)

/-- Texts that all differ stand in strictly increasing order once they are sorted. -/
theorem pairwise_mergeSort_lt {α : Type} (f : α → String) {items : List α}
    (h : (items.map f).Nodup) :
    ((items.mergeSort fun a b => f a ≤ f b).map f).Pairwise (· < ·) := by
  have hsorted := List.pairwise_map.2 (pairwise_mergeSort_le f items)
  have hnodup : ((items.mergeSort fun a b => f a ≤ f b).map f).Nodup :=
    (((List.mergeSort_perm _ _).map f).nodup_iff).2 h
  exact (hsorted.and hnodup).imp fun ⟨hle, hne⟩ => String.not_le.1 fun hge =>
    hne (String.le_antisymm hle hge)

/-- An arrangement in which the texts increase is what any other one is sorted to. -/
theorem mergeSort_eq_of_perm {α : Type} (f : α → String) {items ordered : List α}
    (hperm : items.Perm ordered) (hordered : (ordered.map f).Pairwise (· < ·)) :
    (items.mergeSort fun a b => f a ≤ f b) = ordered := by
  have hnodup : (ordered.map f).Nodup := by
    refine hordered.imp ?_
    rintro a _ hlt rfl
    exact String.lt_irrefl a hlt
  have hsorted := (List.mergeSort_perm items fun a b => f a ≤ f b).trans hperm
  refine hsorted.eq_of_pairwise (fun a b ha hb hab hba => ?_) (pairwise_mergeSort_le f items)
    (List.pairwise_map.1 (hordered.imp fun hlt => String.not_lt.1 (String.lt_asymm hlt)))
  exact List.inj_on_of_nodup_map hnodup (hsorted.mem_iff.1 ha) hb (String.le_antisymm hab hba)

end NatSpec
