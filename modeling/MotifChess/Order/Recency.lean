/- GID: MotifChess/Order/Recency
   generality: general
   digest: Bounded lists of recent records, in which a record of a known key moves to the front. -/

import MotifChess.Order.FirstWins

set_option autoImplicit false
set_option relaxedAutoImplicit false

namespace MotifChess.Order.FirstWins

universe u v

variable {α : Type u} {κ : Type v} [DecidableEq κ] (key : α → κ)

/-- A record at the front, in the place of those with its key, with a bound on the length. -/
def moveToFront (bound : ℕ) (x : α) (l : List α) : List α :=
  (x :: l.filter fun y => key y ≠ key x).take bound

variable {key}

/-- A record in front of others takes their key from them. -/
theorem firsts_cons (x : α) (l : List α) :
    firsts key (x :: l) = x :: (firsts key l).filter fun y => key y ≠ key x := by
  induction l using List.reverseRecOn with
  | nil => rfl
  | append_singleton l y ih =>
    rw [← List.cons_append, firsts_concat, firsts_concat, ih]
    by_cases hy : key y ∈ (firsts key l).map key
    · rw [insertNew_of_mem hy, insertNew_of_mem]
      by_cases hkey : key y = key x
      · rw [List.map_cons, hkey]
        exact List.mem_cons_self
      · obtain ⟨z, hz, hzy⟩ := List.mem_map.mp hy
        have hmem : z ∈ (firsts key l).filter fun y => key y ≠ key x :=
          List.mem_filter.mpr ⟨hz, decide_eq_true (hzy ▸ hkey)⟩
        rw [List.map_cons, ← hzy]
        exact List.mem_cons_of_mem _ (List.mem_map_of_mem hmem)
    · rw [insertNew_of_not_mem hy, List.filter_append]
      by_cases hkey : key y = key x
      · rw [insertNew_of_mem (by simp [hkey])]
        simp [hkey]
      · have hnew : key y ∉ (x :: (firsts key l).filter fun y => key y ≠ key x).map key := by
          rw [List.map_cons, List.mem_cons]
          rintro (h | h)
          · exact hkey h
          · obtain ⟨z, hz, hzy⟩ := List.mem_map.mp h
            exact hy (hzy ▸ List.mem_map_of_mem (List.mem_filter.mp hz).1)
        rw [insertNew_of_not_mem hnew]
        simp [hkey]

/-- Of the records with distinct keys in a bounded list, one place at most is freed by a key. -/
theorem take_filter_take {l : List α} (hl : (l.map key).Nodup) (k : κ) (n : ℕ) :
    (((l.take (n + 1)).filter fun y => key y ≠ k)).take n = (l.filter fun y => key y ≠ k).take n := by
  induction l generalizing n with
  | nil => rfl
  | cons a l ih =>
    obtain ⟨ha, hl⟩ := List.nodup_cons.mp hl
    rw [List.take_succ_cons]
    by_cases hkey : key a = k
    · have hothers : ∀ y ∈ l, decide (key y ≠ k) = true := by
        intro y hy
        apply decide_eq_true
        rintro rfl
        exact ha (hkey ▸ List.mem_map_of_mem hy)
      have hfirst : ¬decide (key a ≠ k) = true := by simp [hkey]
      rw [List.filter_cons, if_neg hfirst, List.filter_cons, if_neg hfirst,
        List.filter_eq_self.mpr fun y hy => hothers y (List.mem_of_mem_take hy),
        List.filter_eq_self.mpr hothers, List.take_take, min_self]
    · have hfirst : decide (key a ≠ k) = true := by simp [hkey]
      rw [List.filter_cons, if_pos hfirst, List.filter_cons, if_pos hfirst]
      cases n with
      | zero => rfl
      | succ n => rw [List.take_succ_cons, List.take_succ_cons, ih hl n]

/-- Records that move to the front of a bounded list one after another leave the latest record of every
key, as far as the bound allows: what was cut off is never missed. -/
theorem moveToFront_take_firsts (bound : ℕ) (x : α) (l : List α) :
    moveToFront key bound x ((firsts key l).take bound) = (firsts key (x :: l)).take bound := by
  rw [moveToFront, firsts_cons]
  cases bound with
  | zero => rfl
  | succ n => rw [List.take_succ_cons, List.take_succ_cons, take_filter_take nodup_firsts]

end MotifChess.Order.FirstWins
