/- GID: MotifChess/Order/Bisection
   generality: general
   digest: Binary search for a partition point, and key lookup in an ascending list. -/

import Mathlib.Data.Nat.Notation
import Mathlib.Data.List.Sort

set_option autoImplicit false
set_option relaxedAutoImplicit false

namespace MotifChess.Order.Bisection

/-- Halve the index range `[first, first + count)` around the first index where `p` fails. -/
def bisect (p : ℕ → Bool) (first count : ℕ) : ℕ :=
  if count = 0 then first
  else if p (first + count / 2) then
    bisect p (first + count / 2 + 1) (count - count / 2 - 1)
  else bisect p first (count / 2)
termination_by count

/-- On a range where `p` holds exactly below `cut`, bisection returns `cut`. -/
theorem bisect_eq {p : ℕ → Bool} {first count cut : ℕ}
    (hfirst : first ≤ cut) (hcut : cut ≤ first + count)
    (below : ∀ i, first ≤ i → i < cut → p i = true)
    (above : ∀ i, cut ≤ i → i < first + count → p i = false) :
    bisect p first count = cut := by
  induction count using Nat.strong_induction_on generalizing first with
  | h count ih =>
    rw [bisect]
    split
    · omega
    · next hne =>
      by_cases hmid : first + count / 2 < cut
      · rw [if_pos (below _ (by omega) hmid)]
        exact ih _ (by omega) (by omega) (by omega)
          (fun i hi hlt => below i (by omega) hlt)
          (fun i hi hlt => above i hi (by omega))
      · rw [if_neg (by rw [above _ (by omega) (by omega)]; simp)]
        exact ih _ (by omega) hfirst (by omega) below
          (fun i hi hlt => above i hi (by omega))

theorem bisect_le (p : ℕ → Bool) (first count : ℕ) : bisect p first count ≤ first + count := by
  induction count using Nat.strong_induction_on generalizing first with
  | h count ih =>
    rw [bisect]
    split
    · omega
    · split
      · have := ih (count - count / 2 - 1) (by omega) (first + count / 2 + 1)
        omega
      · have := ih (count / 2) (by omega) first
        omega

variable {α κ : Type*}

/-- The number of leading elements that satisfy `p`, found by bisection. -/
def partitionPoint (p : α → Bool) (l : List α) : ℕ :=
  bisect (fun i => l[i]?.any p) 0 l.length

theorem partitionPoint_append {p : α → Bool} {front back : List α}
    (hfront : ∀ x ∈ front, p x = true) (hback : ∀ x ∈ back, p x = false) :
    partitionPoint p (front ++ back) = front.length := by
  apply bisect_eq (Nat.zero_le _) (by simp)
  · intro i _ hi
    rw [List.getElem?_append_left hi, List.getElem?_eq_getElem hi]
    exact hfront _ (List.getElem_mem hi)
  · intro i hi hlt
    have hback' : i - front.length < back.length := by
      rw [List.length_append] at hlt
      omega
    rw [List.getElem?_append_right hi, List.getElem?_eq_getElem hback']
    exact hback _ (List.getElem_mem hback')

variable [LinearOrder κ] {key : α → κ} {l : List α}

omit [LinearOrder κ] in
/-- A list whose predicate never returns once it has failed splits where it first fails. -/
theorem exists_split {p : α → Prop} (h : l.Pairwise fun a b => p b → p a) :
    ∃ front back, l = front ++ back ∧ (∀ x ∈ front, p x) ∧ ∀ x ∈ back, ¬p x := by
  induction l with
  | nil => exact ⟨[], [], rfl, by simp, by simp⟩
  | cons a l ih =>
    obtain ⟨hhead, htail⟩ := List.pairwise_cons.mp h
    by_cases ha : p a
    · obtain ⟨front, back, rfl, hfront, hback⟩ := ih htail
      exact ⟨a :: front, back, rfl, by simpa using ⟨ha, hfront⟩, hback⟩
    · refine ⟨[], a :: l, rfl, by simp, ?_⟩
      simp only [List.mem_cons, forall_eq_or_imp]
      exact ⟨ha, fun x hx hpx => ha (hhead x hx hpx)⟩

/-- An ascending list splits at any key into the smaller part and the rest. -/
theorem ascending_split (hl : (l.map key).SortedLE) (k : κ) :
    ∃ front back, l = front ++ back ∧ (∀ x ∈ front, key x < k) ∧ ∀ x ∈ back, k ≤ key x := by
  have hpair := List.pairwise_map.mp hl.pairwise
  obtain ⟨front, back, hsplit, hfront, hback⟩ :=
    exists_split (hpair.imp fun hle hlt => hle.trans_lt hlt : l.Pairwise fun a b =>
      key b < k → key a < k)
  exact ⟨front, back, hsplit, hfront, fun x hx => le_of_not_gt (hback x hx)⟩

/-- An ascending list splits at any key into the part up to it and the larger rest. -/
theorem ascending_split_le (hl : (l.map key).SortedLE) (k : κ) :
    ∃ front back, l = front ++ back ∧ (∀ x ∈ front, key x ≤ k) ∧ ∀ x ∈ back, k < key x := by
  have hpair := List.pairwise_map.mp hl.pairwise
  obtain ⟨front, back, hsplit, hfront, hback⟩ :=
    exists_split (hpair.imp fun hle hk => hle.trans hk : l.Pairwise fun a b =>
      key b ≤ k → key a ≤ k)
  exact ⟨front, back, hsplit, hfront, fun x hx => lt_of_not_ge (hback x hx)⟩

/-- Index of the first element whose key is at least `k`. -/
def lowerBound (key : α → κ) (l : List α) (k : κ) : ℕ :=
  partitionPoint (fun x => decide (key x < k)) l

/-- Index of the first element whose key exceeds `k`. -/
def upperBound (key : α → κ) (l : List α) (k : κ) : ℕ :=
  partitionPoint (fun x => decide (key x ≤ k)) l

/-- The element at the lower bound, when its key is the one sought. -/
def findKey (key : α → κ) (l : List α) (k : κ) : Option α :=
  l[lowerBound key l k]?.filter fun x => decide (key x = k)

/-- Whether an ascending list holds an element with the key sought. -/
def binarySearch (key : α → κ) (l : List α) (k : κ) : Bool :=
  l[lowerBound key l k]?.any fun x => decide (key x = k)

theorem lowerBound_le (key : α → κ) (l : List α) (k : κ) : lowerBound key l k ≤ l.length := by
  have h := bisect_le (fun i => l[i]?.any fun x => decide (key x < k)) 0 l.length
  rwa [Nat.zero_add] at h

theorem lowerBound_append {front back : List α} {k : κ}
    (hfront : ∀ x ∈ front, key x < k) (hback : ∀ x ∈ back, k ≤ key x) :
    lowerBound key (front ++ back) k = front.length :=
  partitionPoint_append (fun x hx => decide_eq_true (hfront x hx))
    (fun x hx => decide_eq_false (not_lt_of_ge (hback x hx)))

theorem upperBound_append {front back : List α} {k : κ}
    (hfront : ∀ x ∈ front, key x ≤ k) (hback : ∀ x ∈ back, k < key x) :
    upperBound key (front ++ back) k = front.length :=
  partitionPoint_append (fun x hx => decide_eq_true (hfront x hx))
    (fun x hx => decide_eq_false (not_le_of_gt (hback x hx)))

theorem binarySearch_eq_true (hl : (l.map key).SortedLE) {k : κ} :
    binarySearch key l k = true ↔ ∃ x ∈ l, key x = k := by
  obtain ⟨front, back, rfl, hfront, hback⟩ := ascending_split hl k
  rw [binarySearch, lowerBound_append hfront hback, List.getElem?_append_right le_rfl,
    Nat.sub_self, Option.any_eq_true]
  simp only [decide_eq_true_eq]
  constructor
  · rintro ⟨x, hx, hk⟩
    exact ⟨x, List.mem_append_right _ (List.mem_of_getElem? hx), hk⟩
  · rintro ⟨x, hx, hk⟩
    rcases List.mem_append.mp hx with hmem | hmem
    · exact absurd hk (hfront x hmem).ne
    · cases back with
      | nil => cases hmem
      | cons b back =>
        refine ⟨b, rfl, le_antisymm ?_ (hback b List.mem_cons_self)⟩
        have hpair := hl.pairwise
        rw [List.map_append] at hpair
        have hsorted := List.pairwise_cons.mp (List.pairwise_append.mp hpair).2.1
        rcases List.mem_cons.mp hmem with rfl | htail
        · exact hk.le
        · exact hk ▸ hsorted.1 _ (List.mem_map_of_mem htail)

theorem findKey_eq_some (hl : (l.map key).SortedLT) {k : κ} {x : α} :
    findKey key l k = some x ↔ x ∈ l ∧ key x = k := by
  obtain ⟨front, back, rfl, hfront, hback⟩ := ascending_split hl.sortedLE k
  rw [findKey, lowerBound_append hfront hback, List.getElem?_append_right le_rfl, Nat.sub_self,
    Option.filter_eq_some_iff, decide_eq_true_iff]
  refine and_congr_left fun hx => ?_
  constructor
  · intro h
    exact List.mem_append_right _ (List.mem_of_getElem? h)
  · intro h
    rcases List.mem_append.mp h with hmem | hmem
    · exact absurd hx (hfront x hmem).ne
    · cases back with
      | nil => cases hmem
      | cons b back =>
        rcases List.mem_cons.mp hmem with rfl | htail
        · rfl
        · have hpair := hl.pairwise
          rw [List.map_append] at hpair
          have hsorted := (List.pairwise_append.mp hpair).2.1
          have hlt := (List.pairwise_cons.mp hsorted).1 _ (List.mem_map_of_mem htail)
          exact absurd (hback b List.mem_cons_self) (not_le_of_gt (hx ▸ hlt))

theorem findKey_eq_none (hl : (l.map key).SortedLT) {k : κ} :
    findKey key l k = none ↔ ∀ x ∈ l, key x ≠ k := by
  rw [Option.eq_none_iff_forall_ne_some]
  simp only [ne_eq, findKey_eq_some hl, not_and]

theorem findKey_eq_find? (hl : (l.map key).SortedLT) (k : κ) :
    findKey key l k = l.find? fun x => decide (key x = k) := by
  cases hfind : l.find? fun x => decide (key x = k) with
  | none =>
    rw [findKey_eq_none hl]
    simpa using hfind
  | some x =>
    rw [findKey_eq_some hl]
    have hkey := List.find?_some hfind
    exact ⟨List.mem_of_find?_eq_some hfind, of_decide_eq_true hkey⟩

end MotifChess.Order.Bisection
