/- GID: MotifChess/Order/Runs
   generality: general
   digest: Streaming grouping of adjacent records with equal keys. -/

import Mathlib.Data.List.Induction
import Mathlib.Data.List.Sort

set_option autoImplicit false
set_option relaxedAutoImplicit false

namespace MotifChess.Order.Runs

universe u v

variable {κ : Type u} {ν : Type v}

/-- Finished groups, and the group that still accepts records of its key. -/
structure Grouping (κ : Type u) (ν : Type v) where
  closed : List (κ × List ν)
  current : Option (κ × List ν)

namespace Grouping

def empty : Grouping κ ν := ⟨[], none⟩

/-- Extend the current group, or close it and start one for a new key. -/
def push [DecidableEq κ] (g : Grouping κ ν) (p : κ × ν) : Grouping κ ν :=
  match g.current with
  | none => ⟨g.closed, some (p.1, [p.2])⟩
  | some (k, vs) =>
    if k = p.1 then ⟨g.closed, some (k, vs ++ [p.2])⟩
    else ⟨g.closed ++ [(k, vs)], some (p.1, [p.2])⟩

def finish (g : Grouping κ ν) : List (κ × List ν) := g.closed ++ g.current.toList

end Grouping

def grouping [DecidableEq κ] (l : List (κ × ν)) : Grouping κ ν := l.foldl Grouping.push .empty

/-- Maximal runs of adjacent records with equal keys. -/
def groupRuns [DecidableEq κ] (l : List (κ × ν)) : List (κ × List ν) := (grouping l).finish

def ungroup (groups : List (κ × List ν)) : List (κ × ν) :=
  groups.flatMap fun g => g.2.map fun v => (g.1, v)

@[simp] theorem ungroup_append (a b : List (κ × List ν)) :
    ungroup (a ++ b) = ungroup a ++ ungroup b := List.flatMap_append

@[simp] theorem ungroup_singleton (g : κ × List ν) :
    ungroup [g] = g.2.map fun v => (g.1, v) := by simp [ungroup]

section Plain

variable [DecidableEq κ]

@[simp] theorem grouping_concat (l : List (κ × ν)) (p : κ × ν) :
    grouping (l ++ [p]) = (grouping l).push p := by simp [grouping]

theorem push_of_current {g : Grouping κ ν} {p : κ × ν} {vs : List ν}
    (h : g.current = some (p.1, vs)) : g.push p = ⟨g.closed, some (p.1, vs ++ [p.2])⟩ := by
  rw [Grouping.push, h]
  exact if_pos rfl

/-- A record whose key is not current closes the current group. -/
theorem push_of_ne {g : Grouping κ ν} {p : κ × ν} (h : g.current.map Prod.fst ≠ some p.1) :
    g.push p = ⟨g.finish, some (p.1, [p.2])⟩ := by
  unfold Grouping.push Grouping.finish
  cases hcur : g.current with
  | none => simp
  | some open' =>
    have hne : open'.1 ≠ p.1 := by simpa [hcur] using h
    simp [hne]

theorem ungroup_finish_push (g : Grouping κ ν) (p : κ × ν) :
    ungroup (g.push p).finish = ungroup g.finish ++ [p] := by
  obtain ⟨closed, current⟩ := g
  cases current with
  | none => simp [Grouping.push, Grouping.finish]
  | some open' =>
    obtain ⟨k, vs⟩ := open'
    by_cases hk : k = p.1 <;> simp [Grouping.push, Grouping.finish, hk, ungroup]

@[simp] theorem grouping_nil : grouping ([] : List (κ × ν)) = .empty := rfl

theorem ungroup_groupRuns (l : List (κ × ν)) : ungroup (groupRuns l) = l := by
  induction l using List.reverseRecOn with
  | nil => simp [groupRuns, grouping, Grouping.empty, Grouping.finish, ungroup]
  | append_singleton l p ih =>
    rw [groupRuns, grouping_concat, ungroup_finish_push]
    rw [groupRuns] at ih
    rw [ih]

theorem mem_of_mem_groupRuns {l : List (κ × ν)} {g : κ × List ν} (hg : g ∈ groupRuns l) {v : ν}
    (hv : v ∈ g.2) : (g.1, v) ∈ l := by
  rw [← ungroup_groupRuns l]
  exact List.mem_flatMap.mpr ⟨g, hg, List.mem_map_of_mem hv⟩

theorem exists_mem_groupRuns {l : List (κ × ν)} {p : κ × ν} (hp : p ∈ l) :
    ∃ g ∈ groupRuns l, g.1 = p.1 ∧ p.2 ∈ g.2 := by
  rw [← ungroup_groupRuns l] at hp
  obtain ⟨g, hg, hp⟩ := List.mem_flatMap.mp hp
  obtain ⟨v, hv, rfl⟩ := List.mem_map.mp hp
  exact ⟨g, hg, rfl, hv⟩

theorem current_isSome_concat (l : List (κ × ν)) (p : κ × ν) :
    ∃ vs, (grouping (l ++ [p])).current = some (p.1, vs) := by
  rw [grouping_concat]
  cases hcur : (grouping l).current with
  | none => exact ⟨[p.2], by simp [Grouping.push, hcur]⟩
  | some open' =>
    obtain ⟨k, vs⟩ := open'
    by_cases hk : k = p.1
    · exact ⟨vs ++ [p.2], by simp [Grouping.push, hcur, hk]⟩
    · exact ⟨[p.2], by simp [Grouping.push, hcur, hk]⟩

theorem ne_nil_of_mem_groupRuns {l : List (κ × ν)} :
    ∀ g ∈ groupRuns l, g.2 ≠ [] := by
  induction l using List.reverseRecOn with
  | nil => simp [groupRuns, grouping, Grouping.empty, Grouping.finish]
  | append_singleton l p ih =>
    rw [groupRuns, Grouping.finish] at ih ⊢
    rw [grouping_concat]
    cases hcur : (grouping l).current with
    | none =>
      rw [hcur] at ih
      intro g hg
      simp only [Grouping.push, hcur, Option.toList_some, List.mem_append,
        List.mem_singleton] at hg
      rcases hg with hg | rfl
      · exact ih g (List.mem_append_left _ hg)
      · simp
    | some open' =>
      obtain ⟨k, vs⟩ := open'
      rw [hcur] at ih
      intro g hg
      by_cases hk : k = p.1
      · simp only [Grouping.push, hcur, hk, if_pos, Option.toList_some, List.mem_append,
          List.mem_singleton] at hg
        rcases hg with hg | rfl
        · exact ih g (List.mem_append_left _ hg)
        · simp
      · simp only [Grouping.push, hcur, hk, if_false, Option.toList_some, List.mem_append,
          List.mem_singleton, or_assoc] at hg
        rcases hg with hg | rfl | rfl
        · exact ih g (List.mem_append_left _ hg)
        · exact ih _ (List.mem_append_right _ (by simp))
        · simp

end Plain

section Sorted

variable [LinearOrder κ]

/-- Grouping records in ascending key order yields strictly ascending keys. -/
theorem pairwise_groupRuns {l : List (κ × ν)} (hl : (l.map Prod.fst).Pairwise (· ≤ ·)) :
    ((groupRuns l).map Prod.fst).Pairwise (· < ·) := by
  induction l using List.reverseRecOn with
  | nil => simp [groupRuns, grouping, Grouping.empty, Grouping.finish]
  | append_singleton l p ih =>
    rw [List.map_append, List.pairwise_append] at hl
    have hkeys := ih hl.1
    have hmem : ∀ g ∈ groupRuns l, g.1 ≤ p.1 := by
      intro g hg
      obtain ⟨v, hv⟩ := List.exists_mem_of_ne_nil _ (ne_nil_of_mem_groupRuns g hg)
      have hrec : (g.1, v) ∈ l := mem_of_mem_groupRuns hg hv
      exact hl.2.2 _ (List.mem_map_of_mem hrec) _ (by simp)
    rw [groupRuns, Grouping.finish] at hkeys hmem ⊢
    rw [grouping_concat]
    cases hcur : (grouping l).current with
    | none =>
      rcases List.eq_nil_or_concat' l with rfl | ⟨front, last, rfl⟩
      · simp [grouping, Grouping.empty, Grouping.push]
      · obtain ⟨vs, hvs⟩ := current_isSome_concat front last
        rw [hvs] at hcur
        cases hcur
    | some open' =>
      obtain ⟨k, vs⟩ := open'
      rw [hcur] at hkeys hmem
      by_cases hk : k = p.1
      · simpa [Grouping.push, hcur, hk] using hkeys
      · have hlt : k < p.1 := lt_of_le_of_ne (hmem (k, vs) (by simp)) hk
        simp only [Grouping.push, hcur, hk, if_false]
        have hlist : (grouping l).closed ++ [(k, vs)] ++ (some (p.1, [p.2])).toList =
            ((grouping l).closed ++ (some (k, vs)).toList) ++ [(p.1, [p.2])] := by simp
        rw [hlist, List.map_append, List.pairwise_append]
        refine ⟨hkeys, by simp, ?_⟩
        intro a ha b hb
        obtain rfl : b = p.1 := by simpa using hb
        rw [List.map_append, List.pairwise_append] at hkeys
        rw [List.map_append, List.mem_append] at ha
        rcases ha with ha | ha
        · exact (hkeys.2.2 a ha k (by simp)).trans hlt
        · obtain rfl : a = k := by simpa using ha
          exact hlt

theorem filter_ungroup {groups : List (κ × List ν)}
    (hkeys : (groups.map Prod.fst).Pairwise (· < ·)) {g : κ × List ν} (hg : g ∈ groups) :
    ((ungroup groups).filter fun p => decide (p.1 = g.1)) = g.2.map fun v => (g.1, v) := by
  induction groups with
  | nil => cases hg
  | cons a groups ih =>
    have hpair := List.pairwise_cons.mp hkeys
    have hsplit : ungroup (a :: groups) = (a.2.map fun v => (a.1, v)) ++ ungroup groups := rfl
    rw [hsplit, List.filter_append]
    rcases List.mem_cons.mp hg with rfl | htail
    · have hfirst : (g.2.map fun v => (g.1, v)).filter (fun p => decide (p.1 = g.1)) =
          g.2.map fun v => (g.1, v) := List.filter_eq_self.mpr (by simp)
      have hrest : (ungroup groups).filter (fun p => decide (p.1 = g.1)) = [] := by
        rw [List.filter_eq_nil_iff]
        intro p hp
        obtain ⟨other, hother, hp⟩ := List.mem_flatMap.mp hp
        obtain ⟨v, _, rfl⟩ := List.mem_map.mp hp
        have := hpair.1 _ (List.mem_map_of_mem hother)
        simpa using this.ne'
      rw [hfirst, hrest, List.append_nil]
    · have hlt := hpair.1 _ (List.mem_map_of_mem htail)
      have hfirst : (a.2.map fun v => (a.1, v)).filter (fun p => decide (p.1 = g.1)) = [] := by
        rw [List.filter_eq_nil_iff]
        intro p hp
        obtain ⟨v, _, rfl⟩ := List.mem_map.mp hp
        simpa using hlt.ne
      rw [hfirst, List.nil_append]
      exact ih hpair.2 htail

/-- The group of a key holds the values recorded under it, in their original order. -/
theorem mem_groupRuns_iff {l : List (κ × ν)} (hl : (l.map Prod.fst).Pairwise (· ≤ ·))
    {k : κ} {vs : List ν} :
    (k, vs) ∈ groupRuns l ↔
      vs ≠ [] ∧ vs = (l.filter fun p => decide (p.1 = k)).map Prod.snd := by
  have hkeys := pairwise_groupRuns hl
  have hvalues : ∀ g ∈ groupRuns l,
      g.2 = (l.filter fun p => decide (p.1 = g.1)).map Prod.snd := by
    intro g hg
    have h := filter_ungroup hkeys hg
    rw [ungroup_groupRuns] at h
    rw [h, List.map_map]
    simp [Function.comp_def]
  constructor
  · intro h
    exact ⟨ne_nil_of_mem_groupRuns _ h, hvalues _ h⟩
  · rintro ⟨hne, rfl⟩
    obtain ⟨v, hv⟩ := List.exists_mem_of_ne_nil _ hne
    obtain ⟨p, hp, rfl⟩ := List.mem_map.mp hv
    obtain ⟨hpl, hpk⟩ := List.mem_filter.mp hp
    obtain rfl := of_decide_eq_true hpk
    rw [← ungroup_groupRuns l] at hpl
    obtain ⟨g, hg, hpg⟩ := List.mem_flatMap.mp hpl
    obtain ⟨w, _, rfl⟩ := List.mem_map.mp hpg
    rw [← hvalues g hg]
    exact hg

theorem mem_values_iff {l : List (κ × ν)} (hl : (l.map Prod.fst).Pairwise (· ≤ ·))
    {g : κ × List ν} (hg : g ∈ groupRuns l) (v : ν) : v ∈ g.2 ↔ (g.1, v) ∈ l := by
  rw [((mem_groupRuns_iff hl).mp hg).2]
  simp only [List.mem_map, List.mem_filter, decide_eq_true_eq]
  constructor
  · rintro ⟨p, ⟨hp, hkey⟩, rfl⟩
    rwa [← hkey]
  · intro h
    exact ⟨_, ⟨h, rfl⟩, rfl⟩

theorem pairwise_keys {r : ν → ν → Prop} {l : List (κ × ν)}
    (hl : l.Pairwise (Prod.Lex (· < ·) r)) : (l.map Prod.fst).Pairwise (· ≤ ·) := by
  rw [List.pairwise_map]
  refine hl.imp fun {a b} h => ?_
  rcases Prod.lex_def.mp h with hlt | ⟨heq, _⟩
  · exact hlt.le
  · exact heq.le

/-- Records in lexicographic order leave the values of every group in order. -/
theorem pairwise_values {r : ν → ν → Prop} {l : List (κ × ν)}
    (hl : l.Pairwise (Prod.Lex (· < ·) r)) {g : κ × List ν} (hg : g ∈ groupRuns l) :
    g.2.Pairwise r := by
  rw [((mem_groupRuns_iff (pairwise_keys hl)).mp hg).2, List.pairwise_map]
  refine (hl.filter _).imp_of_mem fun {a b} ha hb h => ?_
  have hkeys : a.1 = b.1 := by
    rw [of_decide_eq_true (List.mem_filter.mp ha).2, of_decide_eq_true (List.mem_filter.mp hb).2]
  rcases Prod.lex_def.mp h with hlt | ⟨_, hr⟩
  · exact absurd hkeys hlt.ne
  · exact hr

end Sorted

end MotifChess.Order.Runs
