/- GID: MotifChess/Order/FirstWins
   generality: general
   digest: Lists in which the first record of a key wins, and replaying records into them. -/

import Mathlib.Data.List.Induction
import Mathlib.Data.List.Nodup
import Mathlib.Order.Lattice

set_option autoImplicit false
set_option relaxedAutoImplicit false

namespace MotifChess.Order.FirstWins

universe u v w

variable {α : Type u} {κ : Type v} [DecidableEq κ] (key : α → κ)

/-- The list with a record at its end, unless its key is already taken. -/
def insertNew (l : List α) (x : α) : List α := if key x ∈ l.map key then l else l ++ [x]

def insertAll (l xs : List α) : List α := xs.foldl (insertNew key) l

/-- The first record of every key. -/
def firsts (l : List α) : List α := insertAll key [] l

section Insertion

variable {key} {l xs : List α} {x : α} {k : κ}

theorem insertNew_of_mem (h : key x ∈ l.map key) : insertNew key l x = l := if_pos h

theorem insertNew_of_not_mem (h : key x ∉ l.map key) : insertNew key l x = l ++ [x] := if_neg h

theorem mem_map_insertNew : k ∈ (insertNew key l x).map key ↔ k ∈ l.map key ∨ k = key x := by
  by_cases h : key x ∈ l.map key
  · rw [insertNew_of_mem h]
    exact ⟨Or.inl, fun hk => hk.elim id fun hx => hx ▸ h⟩
  · rw [insertNew_of_not_mem h]
    simp

theorem nodup_insertNew (h : (l.map key).Nodup) : ((insertNew key l x).map key).Nodup := by
  by_cases hx : key x ∈ l.map key
  · rwa [insertNew_of_mem hx]
  · rw [insertNew_of_not_mem hx, List.map_append]
    exact List.Nodup.append h (by simp) (by simpa using hx)

@[simp] theorem insertAll_nil : insertAll key l [] = l := rfl

@[simp] theorem insertAll_cons :
    insertAll key l (x :: xs) = insertAll key (insertNew key l x) xs := rfl

theorem insertAll_append (ys : List α) :
    insertAll key l (xs ++ ys) = insertAll key (insertAll key l xs) ys := List.foldl_append

theorem insertAll_concat :
    insertAll key l (xs ++ [x]) = insertNew key (insertAll key l xs) x := by
  rw [insertAll_append]
  rfl

theorem mem_map_insertAll :
    k ∈ (insertAll key l xs).map key ↔ k ∈ l.map key ∨ k ∈ xs.map key := by
  induction xs generalizing l with
  | nil => simp
  | cons x xs ih => rw [insertAll_cons, ih, mem_map_insertNew, List.map_cons, List.mem_cons, or_assoc]

theorem nodup_insertAll (h : (l.map key).Nodup) : ((insertAll key l xs).map key).Nodup := by
  induction xs generalizing l with
  | nil => exact h
  | cons x xs ih => exact ih (nodup_insertNew h)

/-- Replaying records whose keys are all taken changes nothing. -/
theorem insertAll_of_forall_mem (h : ∀ x ∈ xs, key x ∈ l.map key) : insertAll key l xs = l := by
  induction xs with
  | nil => rfl
  | cons x xs ih =>
    rw [insertAll_cons, insertNew_of_mem (h x List.mem_cons_self)]
    exact ih fun y hy => h y (List.mem_cons_of_mem x hy)

/-- Replaying records answers a lookup by key as appending them would. -/
theorem find?_insertAll (k : κ) :
    ((insertAll key l xs).find? fun r => key r = k) = (l ++ xs).find? fun r => key r = k := by
  induction xs using List.reverseRecOn with
  | nil => rw [insertAll_nil, List.append_nil]
  | append_singleton xs x ih =>
    rw [insertAll_concat, ← List.append_assoc, List.find?_append , ← ih]
    by_cases hx : key x ∈ (insertAll key l xs).map key
    · rw [insertNew_of_mem hx]
      by_cases hk : key x = k
      · obtain ⟨r, hr, hkey⟩ := List.mem_map.mp hx
        have hfound : ((insertAll key l xs).find? fun r => key r = k).isSome := by
          rw [List.find?_isSome]
          exact ⟨r, hr, by simp [hkey, hk]⟩
        rw [Option.or_of_isSome hfound]
      · simp [hk]
    · rw [insertNew_of_not_mem hx, List.find?_append]

end Insertion

section Firsts

variable {key} {l : List α} {x : α}

theorem firsts_append (xs : List α) : firsts key (l ++ xs) = insertAll key (firsts key l) xs :=
  insertAll_append xs

theorem firsts_concat : firsts key (l ++ [x]) = insertNew key (firsts key l) x := insertAll_concat

theorem nodup_firsts : ((firsts key l).map key).Nodup := nodup_insertAll List.nodup_nil

theorem mem_map_firsts {k : κ} : k ∈ (firsts key l).map key ↔ k ∈ l.map key := by
  simp [firsts, mem_map_insertAll]

theorem firsts_of_nodup (h : (l.map key).Nodup) : firsts key l = l := by
  induction l using List.reverseRecOn with
  | nil => rfl
  | append_singleton l x ih =>
    rw [List.map_append, List.nodup_append] at h
    have hx : key x ∉ l.map key := fun hmem => h.2.2 _ hmem (key x) (by simp) rfl
    rw [firsts_concat, ih h.1, insertNew_of_not_mem hx]

/-- The kept records answer a lookup by key as the whole list does. -/
theorem find?_firsts (k : κ) :
    ((firsts key l).find? fun r => key r = k) = l.find? fun r => key r = k := find?_insertAll k

end Firsts

section Map

variable {β : Type w} (f : β → α)

theorem map_insertNew (l : List β) (x : β) :
    (insertNew (key ∘ f) l x).map f = insertNew key (l.map f) (f x) := by
  simp only [insertNew, List.map_map, Function.comp_apply]
  by_cases h : key (f x) ∈ l.map (key ∘ f)
  · rw [if_pos h, if_pos h]
  · rw [if_neg h, if_neg h, List.map_append, List.map_singleton]

theorem map_firsts (l : List β) : (firsts (key ∘ f) l).map f = firsts key (l.map f) := by
  induction l using List.reverseRecOn with
  | nil => rfl
  | append_singleton l x ih =>
    rw [firsts_concat, map_insertNew, ih, List.map_append, List.map_singleton, firsts_concat]

end Map

section Least

variable {ι : Type w} [LinearOrder ι] (rank : α → ι)

/-- The records of lowest rank among those with their key. -/
def leasts (l : List α) : List α :=
  l.filter fun r => l.all fun r' => key r' != key r || rank r ≤ rank r'

variable {key rank} {l : List α} {x : α}

private theorem filter_concat_of_lt (h : ∀ r ∈ l, rank r < rank x) :
    l.filter (fun r => (l ++ [x]).all fun r' => key r' != key r || rank r ≤ rank r') =
      leasts key rank l := by
  apply List.filter_congr
  intro r hr
  simp [le_of_lt (h r hr)]

private theorem leasts_concat (h : ∀ r ∈ l, rank r < rank x) :
    leasts key rank (l ++ [x]) = leasts key rank l ++ if key x ∈ l.map key then [] else [x] := by
  have hx : (l ++ [x]).all (fun r' => key r' != key x || rank x ≤ rank r') =
      decide (key x ∉ l.map key) := by
    rw [Bool.eq_iff_iff, decide_eq_true_iff, List.all_append, Bool.and_eq_true, List.all_eq_true]
    constructor
    · rintro ⟨hall, -⟩ hmem
      obtain ⟨r, hr, hkey⟩ := List.mem_map.mp hmem
      have := hall r hr
      simp only [hkey, bne_self_eq_false, Bool.false_or, decide_eq_true_eq] at this
      exact absurd this (not_le.mpr (h r hr))
    · intro hmem
      refine ⟨fun r hr => ?_, by simp⟩
      have hne : key r ≠ key x := fun hkey => hmem (hkey ▸ List.mem_map_of_mem hr)
      simp [hne]
  rw [leasts, List.filter_append, filter_concat_of_lt h]
  by_cases hmem : key x ∈ l.map key
  · rw [if_pos hmem, List.filter_singleton, hx]
    simp [hmem]
  · rw [if_neg hmem, List.filter_singleton, hx]
    simp [hmem]

/-- In ascending ranks the records of lowest rank are the first ones. -/
theorem leasts_eq_firsts (h : l.Pairwise fun a b => rank a < rank b) :
    leasts key rank l = firsts key l := by
  induction l using List.reverseRecOn with
  | nil => rfl
  | append_singleton l x ih =>
    rw [List.pairwise_append] at h
    have hlt : ∀ r ∈ l, rank r < rank x := fun r hr => h.2.2 r hr x List.mem_cons_self
    rw [leasts_concat hlt, firsts_concat, ih h.1, insertNew]
    by_cases hx : key x ∈ l.map key
    · rw [if_pos hx, if_pos (mem_map_firsts.mpr hx), List.append_nil]
    · rw [if_neg hx, if_neg (mt mem_map_firsts.mp hx)]

end Least

end MotifChess.Order.FirstWins
