/- GID: MotifChess/Order/Tally
   generality: general
   digest: Tallies of records by key, lists that ascend, and the progression from a number to another. -/

import Mathlib.Data.List.Induction
import Mathlib.Algebra.Order.Ring.Int
import Mathlib.Tactic.Ring
import Std.Data.TreeMap

set_option autoImplicit false
set_option relaxedAutoImplicit false

namespace MotifChess.Order

universe u v w

section Tally

variable {α : Type u} {κ : Type v} {ν : Type w} {cmp : κ → κ → Ordering}

/-- One value for each key, made from the records of the key in their order. -/
def tally (cmp : κ → κ → Ordering) (key : α → κ) (add : α → Option ν → ν) (l : List α) :
    Std.TreeMap κ ν cmp :=
  l.foldl (fun t a => t.alter (key a) fun value => some (add a value)) ∅

variable {key : α → κ} {add : α → Option ν → ν}

theorem tally_concat (l : List α) (a : α) : tally cmp key add (l ++ [a]) =
    (tally cmp key add l).alter (key a) fun value => some (add a value) := by
  rw [tally, List.foldl_append]
  rfl

variable [Std.TransCmp cmp] [Std.LawfulEqCmp cmp] [DecidableEq κ]

/-- The value of a key is made from its own records. -/
theorem getElem?_tally (l : List α) (k : κ) : (tally cmp key add l)[k]? =
    (l.filter fun a => key a = k).foldl (fun value a => some (add a value)) none := by
  induction l using List.reverseRecOn with
  | nil => exact Std.TreeMap.getElem?_emptyc
  | append_singleton l a ih =>
    rw [tally_concat, Std.TreeMap.getElem?_alter, List.filter_append, List.foldl_append, ← ih]
    by_cases hkey : key a = k
    · subst hkey
      simp
    · rw [if_neg (mt Std.LawfulEqCmp.eq_of_compare hkey)]
      simp [hkey]

theorem mem_tally_iff {l : List α} {k : κ} : k ∈ tally cmp key add l ↔ ∃ a ∈ l, key a = k := by
  rw [Std.TreeMap.mem_iff_isSome_getElem?, getElem?_tally]
  have hsome : ∀ m : List α, (m.foldl (fun value a => some (add a value)) none).isSome ↔ m ≠ [] := by
    intro m
    induction m using List.reverseRecOn with
    | nil => simp
    | append_singleton m a _ => simp
  rw [hsome, Ne, List.filter_eq_nil_iff]
  simp

end Tally

section Ascending

variable {κ : Type u} {ν : Type v} {cmp : κ → κ → Ordering} [Std.TransCmp cmp]

/-- Two lists that ascend by their keys are equal when they have the same members. -/
theorem eq_of_ascending {l m : List (κ × ν)} (hl : l.Pairwise fun a b => cmp a.1 b.1 = .lt)
    (hm : m.Pairwise fun a b => cmp a.1 b.1 = .lt) (hmem : ∀ e, e ∈ l ↔ e ∈ m) : l = m := by
  have hne : ∀ {a b : κ × ν}, cmp a.1 b.1 = .lt → a ≠ b := by
    rintro a b hlt rfl
    have hself : cmp a.1 a.1 = .eq := Std.ReflCmp.compare_self
    rw [hself] at hlt
    cases hlt
  have hperm := (List.perm_ext_iff_of_nodup (hl.imp hne) (hm.imp hne)).mpr hmem
  refine hperm.eq_of_pairwise (fun a b _ _ hab hba => ?_) hl hm
  have hswap : cmp a.1 b.1 = (cmp b.1 a.1).swap := Std.OrientedCmp.eq_swap
  rw [hswap, hba] at hab
  cases hab

private theorem pairwise_map_toList {ω : Type w} {t : Std.TreeMap κ ν cmp} {f : ν → ω} :
    (t.toList.map fun e => (e.1, f e.2)).Pairwise fun a b => cmp a.1 b.1 = .lt := by
  have hkeys := Std.TreeMap.ordered_keys_toList (t := t)
  rw [List.pairwise_map]
  exact hkeys

/-- Maps whose values look alike under every key are listed alike. -/
theorem map_toList_congr [Std.LawfulEqCmp cmp] {ν' : Type v} {ω : Type w} {t : Std.TreeMap κ ν cmp}
    {t' : Std.TreeMap κ ν' cmp} {f : ν → ω} {f' : ν' → ω}
    (h : ∀ k : κ, t[k]?.map f = t'[k]?.map f') :
    t.toList.map (fun e => (e.1, f e.2)) = t'.toList.map fun e => (e.1, f' e.2) := by
  have hmem : ∀ {μ : Type v} (m : Std.TreeMap κ μ cmp) (g : μ → ω) (e : κ × ω),
      e ∈ m.toList.map (fun e => (e.1, g e.2)) ↔ m[e.1]?.map g = some e.2 := by
    rintro μ m g ⟨k, value⟩
    rw [List.mem_map, Option.map_eq_some_iff]
    constructor
    · rintro ⟨⟨k', held⟩, hheld, heq⟩
      obtain ⟨rfl, rfl⟩ := Prod.mk.inj heq
      exact ⟨held, Std.TreeMap.mem_toList_iff_getElem?_eq_some.mp hheld, rfl⟩
    · rintro ⟨held, hheld, rfl⟩
      exact ⟨(k, held), Std.TreeMap.mem_toList_iff_getElem?_eq_some.mpr hheld, rfl⟩
  refine eq_of_ascending pairwise_map_toList pairwise_map_toList fun e => ?_
  rw [hmem, hmem, h]

end Ascending

section Least

variable {ν : Type u} {ρ : Type v} [LinearOrder ρ] (rank : ν → ρ)

/-- Of two values the one of the lower rank, and of two that rank alike the one that is held. -/
def keepLeast (v : ν) (held : Option ν) : ν :=
  held.elim v fun held => if rank v < rank held then v else held

variable {rank} {l : List ν} {v : ν}

/-- What is kept of some values is one of them, and none of them ranks lower. -/
theorem foldl_keepLeast (h : l.foldl (fun held v => some (keepLeast rank v held)) none = some v) :
    v ∈ l ∧ ∀ w ∈ l, rank v ≤ rank w := by
  induction l using List.reverseRecOn generalizing v with
  | nil => cases h
  | append_singleton l last ih =>
    rw [List.foldl_append] at h
    obtain rfl := Option.some.inj h
    cases hheld : l.foldl (fun held v => some (keepLeast rank v held)) none with
    | none =>
      have hnil : l = [] := by
        cases l using List.reverseRecOn with
        | nil => rfl
        | append_singleton l other =>
          rw [List.foldl_append] at hheld
          cases hheld
      subst hnil
      simp [keepLeast]
    | some held =>
      obtain ⟨hmem, hle⟩ := ih hheld
      rw [keepLeast, Option.elim_some]
      split
      next hlt =>
        refine ⟨List.mem_append_right _ List.mem_cons_self, fun w hw => ?_⟩
        rcases List.mem_append.mp hw with hw | hw
        · exact hlt.le.trans (hle w hw)
        · rw [List.mem_singleton.mp hw]
      next hnot =>
        refine ⟨List.mem_append_left _ hmem, fun w hw => ?_⟩
        rcases List.mem_append.mp hw with hw | hw
        · exact hle w hw
        · rw [List.mem_singleton.mp hw]
          exact not_lt.mp hnot

end Least

section Blocks

variable {κ : Type u} {ν : Type v} {β : Type w} [DecidableEq κ] {key : β → κ} {f : κ × ν → List β}

/-- The records of a key among blocks of records, one block for each key. -/
theorem filter_flatMap_block {l : List (κ × ν)} (hl : (l.map Prod.fst).Nodup)
    (hf : ∀ p, ∀ b ∈ f p, key b = p.1) {p : κ × ν} (hp : p ∈ l) :
    ((l.flatMap f).filter fun b => key b = p.1) = f p := by
  have hother : ∀ m : List (κ × ν), p.1 ∉ m.map Prod.fst →
      ((m.flatMap f).filter fun b => key b = p.1) = [] := by
    intro m hm
    rw [List.filter_eq_nil_iff]
    intro b hb
    obtain ⟨q, hq, hmem⟩ := List.mem_flatMap.mp hb
    rw [decide_eq_true_eq, hf q b hmem]
    exact fun heq => hm (heq ▸ List.mem_map_of_mem hq)
  obtain ⟨before, after, rfl⟩ := List.append_of_mem hp
  rw [List.map_append, List.map_cons] at hl
  obtain ⟨-, hafter, hdisjoint⟩ := List.nodup_append.mp hl
  rw [List.flatMap_append, List.flatMap_cons, List.filter_append, List.filter_append,
    hother before fun hmem => hdisjoint _ hmem _ List.mem_cons_self rfl,
    hother after (List.nodup_cons.mp hafter).1, List.nil_append, List.append_nil,
    List.filter_eq_self]
  exact fun b hb => decide_eq_true (hf p b hb)

end Blocks

section Progression

/-- The numbers from `first` on in steps of one length, up to a number that must be met exactly;
nothing while `fuel` steps have not met it. -/
def progression (step last : ℤ) : ℕ → ℤ → Option (List ℤ)
  | 0, _ => none
  | fuel + 1, first =>
    if first = last then some [first] else (progression step last fuel (first + step)).map (first :: ·)

/-- A number that is some steps away is met by all that go far enough. -/
theorem progression_eq {step first : ℤ} (hstep : 0 < step) {n fuel : ℕ} (hfuel : n < fuel) :
    progression step (first + n * step) fuel first =
      some ((List.range (n + 1)).map fun (i : ℕ) => first + i * step) := by
  induction n generalizing first fuel with
  | zero =>
    obtain ⟨fuel, rfl⟩ := Nat.exists_eq_succ_of_ne_zero (Nat.ne_of_gt hfuel)
    simp [progression]
  | succ n ih =>
    obtain ⟨fuel, rfl⟩ := Nat.exists_eq_succ_of_ne_zero (Nat.ne_of_gt (Nat.zero_lt_of_lt hfuel))
    have hmore : 0 < ((n + 1 : ℕ) : ℤ) * step := mul_pos (by omega) hstep
    have hlast : first + ((n + 1 : ℕ) : ℤ) * step = first + step + n * step := by
      push_cast
      ring
    rw [progression, if_neg (by omega), hlast, ih (Nat.lt_of_succ_lt_succ hfuel), Option.map_some,
      List.range_succ_eq_map (n := n + 1), List.map_cons, List.map_map]
    refine congrArg some (List.cons_eq_cons.mpr ⟨by simp, List.map_congr_left fun i _ => ?_⟩)
    simp only [Function.comp_apply, Nat.succ_eq_add_one]
    push_cast
    ring

end Progression

end MotifChess.Order
