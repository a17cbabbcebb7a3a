/- GID: MotifChess/Order/SortBy
   generality: general
   digest: Sorting a list by a key, and what the sorted list keeps. -/

import Mathlib.Data.List.Sort

set_option autoImplicit false
set_option relaxedAutoImplicit false

namespace MotifChess.Order

universe u v

variable {α : Type u} {κ : Type v} [LinearOrder κ]

/-- The list in ascending order of its keys; records with equal keys keep their order. -/
def sortBy (key : α → κ) (l : List α) : List α := l.insertionSort fun a b => key a ≤ key b

theorem sortBy_perm (key : α → κ) (l : List α) : (sortBy key l).Perm l :=
  List.perm_insertionSort _ l

@[simp] theorem mem_sortBy {key : α → κ} {l : List α} {a : α} : a ∈ sortBy key l ↔ a ∈ l :=
  (sortBy_perm key l).mem_iff

@[simp] theorem length_sortBy (key : α → κ) (l : List α) : (sortBy key l).length = l.length :=
  (sortBy_perm key l).length_eq

theorem pairwise_sortBy (key : α → κ) (l : List α) :
    (sortBy key l).Pairwise fun a b => key a ≤ key b := by
  have : Std.Total fun a b => key a ≤ key b := ⟨fun a b => le_total (key a) (key b)⟩
  have : IsTrans α fun a b => key a ≤ key b := ⟨fun _ _ _ hab hbc => hab.trans hbc⟩
  exact List.pairwise_insertionSort _ l

theorem sortedLE_map_sortBy (key : α → κ) (l : List α) : ((sortBy key l).map key).SortedLE := by
  refine List.Pairwise.sortedLE ?_
  rw [List.pairwise_map]
  exact pairwise_sortBy key l

/-- Distinct keys come out in strictly ascending order. -/
theorem pairwise_lt_map_sortBy {key : α → κ} {l : List α} (h : (l.map key).Nodup) :
    ((sortBy key l).map key).Pairwise (· < ·) := by
  have hnodup : ((sortBy key l).map key).Pairwise (· ≠ ·) :=
    ((sortBy_perm key l).map key).nodup_iff.mpr h
  exact List.Pairwise.imp₂ (fun a b hle hne => lt_of_le_of_ne hle hne)
    (sortedLE_map_sortBy key l).pairwise hnodup

example : sortBy (fun n => n % 4) [7, 4, 2, 6] = [4, 2, 6, 7] := by decide

end MotifChess.Order
