/- GID: MotifChess/Order/Buckets
   generality: general
   digest: Sorted lists without repetition, and the offsets of the buckets that they fall into. -/

import Mathlib.Algebra.GroupWithZero.Nat
import Mathlib.Data.List.Induction
import Mathlib.Data.List.Sort
import Mathlib.Data.Nat.Notation

set_option autoImplicit false
set_option relaxedAutoImplicit false

namespace MotifChess.Order.Buckets

universe u

variable {α : Type u}

section Unique

/-- The list without the records that equal the one before them; `previous` stands before the list. -/
def uniqueFrom [DecidableEq α] : Option α → List α → List α
  | _, [] => []
  | previous, a :: l => if previous = some a then uniqueFrom previous l else a :: uniqueFrom (some a) l

variable [LinearOrder α] {previous : Option α} {l : List α}

theorem mem_uniqueFrom (hsorted : l.Pairwise (· ≤ ·)) (hprevious : ∀ p ∈ previous, ∀ a ∈ l, p ≤ a)
    {a : α} : a ∈ uniqueFrom previous l ↔ a ∈ l ∧ previous ≠ some a := by
  induction l generalizing previous with
  | nil => simp [uniqueFrom]
  | cons b l ih =>
    obtain ⟨hb, hl⟩ := List.pairwise_cons.mp hsorted
    rw [uniqueFrom]
    split
    next hsame =>
      have hrest : ∀ p ∈ previous, ∀ a ∈ l, p ≤ a := fun p hp a ha =>
        hprevious p hp a (List.mem_cons_of_mem _ ha)
      rw [ih hl hrest, List.mem_cons, hsame]
      constructor
      · exact fun h => ⟨.inr h.1, h.2⟩
      · rintro ⟨rfl | hmem, hne⟩
        · exact absurd rfl hne
        · exact ⟨hmem, hne⟩
    next hnew =>
      have hrest : ∀ p ∈ some b, ∀ a ∈ l, p ≤ a := by
        rintro p ⟨⟩ a ha
        exact hb a ha
      rw [List.mem_cons, ih hl hrest, List.mem_cons]
      constructor
      · rintro (rfl | ⟨hmem, hne⟩)
        · exact ⟨.inl rfl, hnew⟩
        · refine ⟨.inr hmem, fun hp => hne ?_⟩
          -- What stands before the list is not above its head, nor below a later record.
          have hle := hprevious a hp b List.mem_cons_self
          rw [le_antisymm hle (hb a hmem)]
      · rintro ⟨rfl | hmem, hne⟩
        · exact .inl rfl
        · by_cases hab : a = b
          · exact .inl hab
          · exact .inr ⟨hmem, fun h => hab (Option.some.inj h).symm⟩

theorem pairwise_uniqueFrom (hsorted : l.Pairwise (· ≤ ·))
    (hprevious : ∀ p ∈ previous, ∀ a ∈ l, p ≤ a) : (uniqueFrom previous l).Pairwise (· < ·) := by
  induction l generalizing previous with
  | nil => exact .nil
  | cons b l ih =>
    obtain ⟨hb, hl⟩ := List.pairwise_cons.mp hsorted
    rw [uniqueFrom]
    split
    next hsame =>
      exact ih hl fun p hp a ha => hprevious p hp a (List.mem_cons_of_mem _ ha)
    next hnew =>
      have hrest : ∀ p ∈ some b, ∀ a ∈ l, p ≤ a := by
        rintro p ⟨⟩ a ha
        exact hb a ha
      refine List.pairwise_cons.mpr ⟨fun a ha => ?_, ih hl hrest⟩
      obtain ⟨hmem, hne⟩ := (mem_uniqueFrom hl hrest).mp ha
      exact lt_of_le_of_ne (hb a hmem) fun hba => hne (congrArg some hba)

/-- Two strictly ascending lists with the same members are one list. -/
theorem eq_of_pairwise_lt {l m : List α} (hl : l.Pairwise (· < ·)) (hm : m.Pairwise (· < ·))
    (hmem : ∀ a, a ∈ l ↔ a ∈ m) : l = m := by
  have hperm : l.Perm m := by
    rw [List.perm_ext_iff_of_nodup (hl.imp ne_of_lt) (hm.imp ne_of_lt)]
    exact hmem
  exact hperm.eq_of_pairwise (fun a b _ _ hab hba => absurd hba (lt_asymm hab)) hl hm

/-- The records of a sorted list, each of them once. -/
def unique (l : List α) : List α := uniqueFrom none l

theorem mem_unique (hsorted : l.Pairwise (· ≤ ·)) {a : α} : a ∈ unique l ↔ a ∈ l := by
  rw [unique, mem_uniqueFrom hsorted (by simp)]
  simp

theorem pairwise_unique (hsorted : l.Pairwise (· ≤ ·)) : (unique l).Pairwise (· < ·) :=
  pairwise_uniqueFrom hsorted (by simp)

/-- Sorted lists with the same members have the same records. -/
theorem unique_congr {m : List α} (hl : l.Pairwise (· ≤ ·)) (hm : m.Pairwise (· ≤ ·))
    (hmem : ∀ a, a ∈ l ↔ a ∈ m) : unique l = unique m := by
  refine eq_of_pairwise_lt (pairwise_unique hl) (pairwise_unique hm) fun a => ?_
  rw [mem_unique hl, mem_unique hm, hmem]

end Unique

section Offsets

variable (bucket : α → ℕ)

/-- How many records fall into each of the buckets, counted one record after the other. -/
def bucketCounts (size : ℕ) (l : List α) : List ℕ :=
  l.foldl (fun counts a => counts.modify (bucket a) (· + 1)) (List.replicate size 0)

/-- The sums of the list's prefixes, from `start` on. -/
def prefixSums (start : ℕ) : List ℕ → List ℕ
  | [] => [start]
  | n :: l => start :: prefixSums (start + n) l

/-- Where each bucket starts when the records lie one bucket after the other, and where the last one
ends. -/
def bucketOffsets (size : ℕ) (l : List α) : List ℕ :=
  (List.range (size + 1)).map fun p => l.countP fun a => bucket a < p

variable {bucket} {size : ℕ} {l : List α}

theorem getElem?_bucketCounts (p : ℕ) (hp : p < size) :
    (bucketCounts bucket size l)[p]? = some (l.countP fun a => bucket a = p) := by
  induction l using List.reverseRecOn with
  | nil => simp [bucketCounts, hp]
  | append_singleton l a ih =>
    have hfold : bucketCounts bucket size (l ++ [a]) =
        (bucketCounts bucket size l).modify (bucket a) (· + 1) := by
      simp [bucketCounts]
    rw [hfold, List.getElem?_modify, ih, List.countP_append, List.countP_singleton]
    by_cases ha : bucket a = p
    · simp [ha]
    · simp [ha]

@[simp] theorem length_bucketCounts : (bucketCounts bucket size l).length = size := by
  induction l using List.reverseRecOn with
  | nil => simp [bucketCounts]
  | append_singleton l a ih =>
    rw [bucketCounts, List.foldl_append]
    simpa [bucketCounts] using ih

theorem bucketCounts_eq : bucketCounts bucket size l =
    (List.range size).map fun p => l.countP fun a => bucket a = p := by
  apply List.ext_getElem?
  intro p
  by_cases hp : p < size
  · rw [getElem?_bucketCounts p hp]
    simp [hp]
  · rw [List.getElem?_eq_none (by simpa using hp), List.getElem?_eq_none (by simpa using hp)]

private theorem prefixSums_concat (start n : ℕ) (l : List ℕ) :
    prefixSums start (l ++ [n]) = prefixSums start l ++ [start + l.sum + n] := by
  induction l generalizing start with
  | nil => simp [prefixSums]
  | cons m l ih =>
    have hsum : start + m + l.sum + n = start + (m + l.sum) + n := by omega
    rw [List.cons_append, prefixSums, ih, prefixSums, List.cons_append, List.sum_cons, hsum]

private theorem prefixSums_map_range (f : ℕ → ℕ) (n : ℕ) :
    prefixSums 0 ((List.range n).map f) =
      (List.range (n + 1)).map fun p => ((List.range p).map f).sum := by
  induction n with
  | zero => rfl
  | succ n ih =>
    rw [List.range_succ, List.map_append, List.map_singleton, prefixSums_concat, ih,
      List.range_succ (n := n + 1), List.map_append, List.map_singleton, Nat.zero_add,
      List.range_succ (n := n), List.map_append, List.map_append, List.sum_append]
    simp

theorem countP_lt_succ (p : ℕ) : (l.countP fun a => bucket a < p + 1) =
    (l.countP fun a => bucket a < p) + l.countP fun a => bucket a = p := by
  induction l with
  | nil => rfl
  | cons a l ih =>
    simp only [List.countP_cons, ih, decide_eq_true_eq]
    split_ifs <;> omega

private theorem sum_countP (p : ℕ) :
    ((List.range p).map fun q => l.countP fun a => bucket a = q).sum =
      l.countP fun a => bucket a < p := by
  induction p with
  | zero => simp
  | succ p ih => rw [List.range_succ, List.map_append, List.sum_append, ih, countP_lt_succ]; simp

/-- Summing up the counts of the buckets gives their offsets. -/
theorem prefixSums_bucketCounts :
    prefixSums 0 (bucketCounts bucket size l) = bucketOffsets bucket size l := by
  rw [bucketCounts_eq, prefixSums_map_range, bucketOffsets]
  exact List.map_congr_left fun p _ => sum_countP p

@[simp] theorem length_bucketOffsets : (bucketOffsets bucket size l).length = size + 1 := by
  simp [bucketOffsets]

theorem getElem?_bucketOffsets {p : ℕ} (hp : p ≤ size) :
    (bucketOffsets bucket size l)[p]? = some (l.countP fun a => bucket a < p) := by
  simp [bucketOffsets, Nat.lt_succ_of_le hp]

theorem pairwise_bucketOffsets : (bucketOffsets bucket size l).Pairwise (· ≤ ·) := by
  rw [bucketOffsets, List.pairwise_map]
  refine List.pairwise_lt_range.imp fun hlt => List.countP_mono_left fun a _ ha => ?_
  exact decide_eq_true ((of_decide_eq_true ha).trans hlt)

theorem countP_lt_size (hbucket : ∀ a ∈ l, bucket a < size) :
    (l.countP fun a => bucket a < size) = l.length :=
  List.countP_eq_length.mpr fun a ha => decide_eq_true (hbucket a ha)

/-- The records of a bucket lie between its offset and the next one. -/
theorem take_drop_bucket (hsorted : (l.map bucket).Pairwise (· ≤ ·)) (p : ℕ) :
    (l.drop (l.countP fun a => bucket a < p)).take (l.countP fun a => bucket a = p) =
      l.filter fun a => bucket a = p := by
  induction l with
  | nil => rfl
  | cons a l ih =>
    obtain ⟨ha, hl⟩ := List.pairwise_cons.mp hsorted
    have hbelow : ∀ b ∈ l, bucket a ≤ bucket b := fun b hb => ha _ (List.mem_map_of_mem hb)
    rcases lt_trichotomy (bucket a) p with hlt | heq | hgt
    · have hne : bucket a ≠ p := Nat.ne_of_lt hlt
      simpa [List.countP_cons, hlt, hne] using ih hl
    · have hnone : (l.countP fun a => bucket a < p) = 0 := by
        rw [List.countP_eq_zero]
        intro b hb hdecide
        have hble := hbelow b hb
        have hblt := of_decide_eq_true hdecide
        omega
      have hrest := ih hl
      rw [hnone, List.drop_zero] at hrest
      simp [heq, hnone, hrest]
    · have hempty : ∀ b ∈ a :: l, ¬bucket b ≤ p := by
        intro b hb
        rcases List.mem_cons.mp hb with rfl | hb
        · omega
        · have hble := hbelow b hb
          omega
      have hfilter : (a :: l).filter (fun a => decide (bucket a = p)) = [] := by
        rw [List.filter_eq_nil_iff]
        intro b hb hdecide
        exact hempty b hb (Nat.le_of_eq (of_decide_eq_true hdecide))
      have hcount : ((a :: l).countP fun a => bucket a = p) = 0 := by
        rw [List.countP_eq_length_filter, hfilter, List.length_nil]
      rw [hfilter, hcount, List.take_zero]

end Offsets

end MotifChess.Order.Buckets
