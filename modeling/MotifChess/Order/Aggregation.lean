/- GID: MotifChess/Order/Aggregation
   generality: general
   digest: Tables of one value for each key, and building them from sorted runs that were spilled. -/

import MotifChess.Order.RunMerge
import MotifChess.Order.SortBy
import Mathlib.Algebra.GroupWithZero.Nat
import Mathlib.Data.List.Induction

/-! A table lists every key once, in ascending order, with the combination of all values recorded
under it.  Records that exceed a buffer are aggregated into runs, and merging the runs aggregates
them all: where the runs end makes no difference to the table. -/

set_option autoImplicit false
set_option relaxedAutoImplicit false

namespace MotifChess.Order.Aggregation

open RunMerge

universe u

variable {κ ν : Type u} [LinearOrder κ] (op : ν → ν → ν)

section Combine

/-- Combine the values of adjacent records with equal keys, given the record before them. -/
def combineFrom (k : κ) (v : ν) : List (κ × ν) → List (κ × ν)
  | [] => [(k, v)]
  | p :: l => if p.1 = k then combineFrom k (op v p.2) l else (k, v) :: combineFrom p.1 p.2 l

def combine : List (κ × ν) → List (κ × ν)
  | [] => []
  | p :: l => combineFrom op p.1 p.2 l

/-- The table of all records. -/
def aggregate (l : List (κ × ν)) : List (κ × ν) := combine op (sortBy Prod.fst l)

/-- The combination of all values recorded under a key, if there are any. -/
def total (k : κ) : List (κ × ν) → Option ν
  | [] => none
  | p :: l => if p.1 = k then Option.merge op (some p.2) (total k l) else total k l

@[simp] theorem total_nil (k : κ) : total op k [] = none := rfl

theorem total_cons (k : κ) (p : κ × ν) (l : List (κ × ν)) :
    total op k (p :: l) = Option.merge op (total op k [p]) (total op k l) := by
  by_cases h : p.1 = k
  · simp [total, h]
  · simp [total, h]

theorem total_eq_none {k : κ} {l : List (κ × ν)} : total op k l = none ↔ k ∉ l.map Prod.fst := by
  induction l with
  | nil => simp
  | cons p l ih =>
    by_cases h : p.1 = k
    · subst h
      cases hl : total op p.1 l <;> simp [total, hl]
    · simp [total, h, Ne.symm h, ih]

/-- In a table the combination of all values of a key is its one value. -/
theorem total_eq_some_iff {l : List (κ × ν)} (hl : (l.map Prod.fst).Pairwise (· < ·)) {k : κ}
    {v : ν} : total op k l = some v ↔ (k, v) ∈ l := by
  induction l with
  | nil => simp
  | cons p l ih =>
    obtain ⟨hhead, htail⟩ := List.pairwise_cons.mp hl
    by_cases h : p.1 = k
    · have hnone : total op k l = none := by
        rw [total_eq_none]
        intro hk
        exact absurd (hhead k hk) (by simp [h])
      have hnot : (k, v) ∉ l := by
        intro hmem
        exact absurd (hhead k (List.mem_map_of_mem hmem)) (by simp [h])
      rw [total, if_pos h, hnone, Option.merge_none_right, Option.some.injEq]
      simp only [List.mem_cons, hnot, or_false, Prod.ext_iff, h, true_and, eq_comm]
    · simp only [total, if_neg h, ih htail, List.mem_cons, Prod.ext_iff, Ne.symm h, false_and,
        false_or]

theorem pairwise_lt_combineFrom {k : κ} {v : ν} {l : List (κ × ν)}
    (hl : ((k, v) :: l).Pairwise fun a b => a.1 ≤ b.1) :
    ((combineFrom op k v l).map Prod.fst).Pairwise (· < ·) ∧
      ∀ k' ∈ (combineFrom op k v l).map Prod.fst, k ≤ k' := by
  induction l generalizing k v with
  | nil => simp [combineFrom]
  | cons p l ih =>
    obtain ⟨hhead, htail⟩ := List.pairwise_cons.mp hl
    obtain ⟨hp, hrest⟩ := List.pairwise_cons.mp htail
    by_cases h : p.1 = k
    · rw [combineFrom, if_pos h]
      apply ih
      exact List.pairwise_cons.mpr ⟨fun q hq => hhead q (List.mem_cons_of_mem p hq), hrest⟩
    · rw [combineFrom, if_neg h]
      have hlt : k < p.1 := lt_of_le_of_ne (hhead p List.mem_cons_self) (Ne.symm h)
      obtain ⟨hkeys, hge⟩ := ih (v := p.2) htail
      rw [List.map_cons, List.pairwise_cons]
      refine ⟨⟨fun k' hk' => hlt.trans_le (hge k' hk'), hkeys⟩, ?_⟩
      intro k' hk'
      rcases List.mem_cons.mp hk' with rfl | hk'
      · exact le_rfl
      · exact hlt.le.trans (hge k' hk')

theorem pairwise_lt_combine {l : List (κ × ν)} (hl : l.Pairwise fun a b => a.1 ≤ b.1) :
    ((combine op l).map Prod.fst).Pairwise (· < ·) := by
  cases l with
  | nil => exact List.Pairwise.nil
  | cons p l => exact (pairwise_lt_combineFrom op hl).1

theorem pairwise_lt_aggregate (l : List (κ × ν)) :
    ((aggregate op l).map Prod.fst).Pairwise (· < ·) :=
  pairwise_lt_combine op (pairwise_sortBy Prod.fst l)

theorem length_combineFrom_le (k : κ) (v : ν) (l : List (κ × ν)) :
    (combineFrom op k v l).length ≤ l.length + 1 := by
  induction l generalizing k v with
  | nil => exact le_rfl
  | cons p l ih =>
    rw [combineFrom, List.length_cons]
    split
    · exact (ih k (op v p.2)).trans (Nat.le_succ _)
    · rw [List.length_cons]
      exact Nat.succ_le_succ (ih p.1 p.2)

theorem length_aggregate_le (l : List (κ × ν)) : (aggregate op l).length ≤ l.length := by
  rw [← length_sortBy Prod.fst l, aggregate]
  cases sortBy Prod.fst l with
  | nil => exact le_rfl
  | cons p l => exact length_combineFrom_le op p.1 p.2 l

/-- Two tables that hold the same records are equal. -/
theorem eq_of_mem_iff {l m : List (κ × ν)}
    (hl : (l.map Prod.fst).Pairwise (· < ·)) (hm : (m.map Prod.fst).Pairwise (· < ·))
    (h : ∀ p, p ∈ l ↔ p ∈ m) : l = m := by
  rw [List.pairwise_map] at hl hm
  have hperm : l.Perm m := (List.perm_ext_iff_of_nodup (hl.imp fun hlt heq => hlt.ne (by rw [heq]))
    (hm.imp fun hlt heq => hlt.ne (by rw [heq]))).mpr h
  exact hperm.eq_of_pairwise (fun a b _ _ hab hba => absurd hab hba.not_gt) hl hm

/-- A table is determined by the combinations of the values of every key. -/
theorem eq_of_total {l m : List (κ × ν)} (hl : (l.map Prod.fst).Pairwise (· < ·))
    (hm : (m.map Prod.fst).Pairwise (· < ·)) (h : ∀ k, total op k l = total op k m) : l = m := by
  apply eq_of_mem_iff hl hm
  rintro ⟨k, v⟩
  rw [← total_eq_some_iff op hl, ← total_eq_some_iff op hm, h]

end Combine

section Totals

variable [Std.Associative op]

omit [LinearOrder κ] in
private theorem merge_assoc (x y z : Option ν) :
    Option.merge op (Option.merge op x y) z = Option.merge op x (Option.merge op y z) :=
  Std.Associative.assoc x y z

theorem total_append (k : κ) (l m : List (κ × ν)) :
    total op k (l ++ m) = Option.merge op (total op k l) (total op k m) := by
  induction l with
  | nil => simp
  | cons p l ih =>
    rw [List.cons_append, total_cons, ih, total_cons op k p l, merge_assoc]

theorem total_combineFrom (k' k : κ) (v : ν) (l : List (κ × ν)) :
    total op k' (combineFrom op k v l) = total op k' ((k, v) :: l) := by
  induction l generalizing k v with
  | nil => rfl
  | cons p l ih =>
    by_cases h : p.1 = k
    · rw [combineFrom, if_pos h, ih, total_cons, total_cons op k' (k, v), total_cons op k' p l,
        ← merge_assoc]
      by_cases hk : k = k'
      · simp [total, h, hk]
      · simp [total, h, hk]
    · rw [combineFrom, if_neg h, total_cons, ih, ← total_cons]

theorem total_combine (k : κ) (l : List (κ × ν)) : total op k (combine op l) = total op k l := by
  cases l with
  | nil => rfl
  | cons p l => exact total_combineFrom op k p.1 p.2 l

variable [Std.Commutative op]

theorem total_perm {k : κ} {l m : List (κ × ν)} (h : l.Perm m) : total op k l = total op k m := by
  induction h with
  | nil => rfl
  | cons p _ ih => rw [total_cons, ih, ← total_cons]
  | swap p q l =>
    have hpair : ∀ a b : κ × ν, total op k (a :: b :: l) =
        Option.merge op (Option.merge op (total op k [a]) (total op k [b])) (total op k l) := by
      intro a b
      rw [total_cons, total_cons op k b l, merge_assoc]
    have hswap : Option.merge op (total op k [q]) (total op k [p]) =
        Option.merge op (total op k [p]) (total op k [q]) := Std.Commutative.comm _ _
    rw [hpair, hpair, hswap]
  | trans _ _ ih ih' => exact ih.trans ih'

theorem total_aggregate (k : κ) (l : List (κ × ν)) :
    total op k (aggregate op l) = total op k l := by
  rw [aggregate, total_combine]
  exact total_perm op (sortBy_perm Prod.fst l)

/-- The table of all records is the one table with their totals. -/
theorem eq_aggregate {t l : List (κ × ν)} (ht : (t.map Prod.fst).Pairwise (· < ·))
    (h : ∀ k, total op k t = total op k l) : t = aggregate op l := by
  apply eq_of_total op ht (pairwise_lt_aggregate op l)
  intro k
  rw [h, total_aggregate]

theorem mem_aggregate {l : List (κ × ν)} {k : κ} {v : ν} :
    (k, v) ∈ aggregate op l ↔ total op k l = some v := by
  rw [← total_eq_some_iff op (pairwise_lt_aggregate op l), total_aggregate]

theorem aggregate_perm {l m : List (κ × ν)} (h : l.Perm m) : aggregate op l = aggregate op m :=
  eq_aggregate op (pairwise_lt_aggregate op l) fun k => by rw [total_aggregate, total_perm op h]

theorem total_flatten_map_aggregate (k : κ) (chunks : List (List (κ × ν))) :
    total op k (chunks.map (aggregate op)).flatten = total op k chunks.flatten := by
  induction chunks with
  | nil => rfl
  | cons chunk chunks ih =>
    rw [List.map_cons, List.flatten_cons, List.flatten_cons, total_append, total_append, ih,
      total_aggregate]

/-- Translating the values of a table translates their combination. -/
theorem map_aggregate {ξ : Type u} {op' : ξ → ξ → ξ} [Std.Associative op'] [Std.Commutative op']
    {f : ν → ξ} (hf : ∀ a b, f (op a b) = op' (f a) (f b)) (l : List (κ × ν)) :
    (aggregate op l).map (Prod.map id f) = aggregate op' (l.map (Prod.map id f)) := by
  have htotal : ∀ (k : κ) (m : List (κ × ν)),
      total op' k (m.map (Prod.map id f)) = (total op k m).map f := by
    intro k m
    induction m with
    | nil => rfl
    | cons p m ih =>
      by_cases hk : p.1 = k
      · cases hm : total op k m <;> simp [total, hk, ih, hm, hf]
      · simp [total, hk, ih]
  apply eq_aggregate op'
  · rw [List.map_map]
    exact pairwise_lt_aggregate op l
  · intro k
    rw [htotal, htotal, total_aggregate]

end Totals

section Count

variable {κ : Type} [LinearOrder κ]

/-- Records that count every key once. -/
def ones (l : List κ) : List (κ × ℕ) := l.map fun k => (k, 1)

omit [LinearOrder κ] in
@[simp] theorem ones_append (l m : List κ) : ones (l ++ m) = ones l ++ ones m := List.map_append

theorem total_ones (k : κ) (l : List κ) :
    total (· + ·) k (ones l) = if l.count k = 0 then none else some (l.count k) := by
  induction l with
  | nil => rfl
  | cons a l ih =>
    have hcons : ones (a :: l) = (a, 1) :: ones l := rfl
    by_cases h : a = k
    · rw [hcons, total, if_pos h, ih, h, List.count_cons_self, if_neg (Nat.succ_ne_zero _)]
      by_cases hzero : l.count k = 0
      · simp [hzero]
      · simp [hzero, Nat.add_comm]
    · rw [hcons, total, if_neg h, ih, List.count_cons_of_ne h]

/-- The table of counts lists every key that occurs, with the number of its occurrences. -/
theorem mem_aggregate_ones {l : List κ} {k : κ} {n : ℕ} :
    (k, n) ∈ aggregate (· + ·) (ones l) ↔ l.count k = n ∧ n ≠ 0 := by
  rw [mem_aggregate, total_ones]
  split
  · next h =>
    simp only [reduceCtorEq, false_iff, not_and, not_not]
    omega
  · next h =>
    rw [Option.some.injEq]
    constructor
    · rintro rfl
      exact ⟨rfl, h⟩
    · exact And.left

end Count

section Merge

/-- A run that is being read: its current record and the records behind it. -/
structure Cursor (κ ν : Type u) where
  current : κ × ν
  rest : List (κ × ν)

def Cursor.ofRun : List (κ × ν) → Option (Cursor κ ν)
  | [] => none
  | p :: l => some ⟨p, l⟩

def Cursor.records (c : Cursor κ ν) : List (κ × ν) := c.current :: c.rest

def Cursor.key (c : Cursor κ ν) : κ := c.current.1

/-- Take the least current record, combining it with the record before when their keys agree. -/
def drainFrom : ℕ → κ × ν → List (Cursor κ ν) → List (κ × ν)
  | 0, last, _ => [last]
  | fuel + 1, last, heap =>
    match extractMin Cursor.key heap with
    | none => [last]
    | some (c, others) =>
      let heap := (Cursor.ofRun c.rest).toList ++ others
      if c.current.1 = last.1 then drainFrom fuel (last.1, op last.2 c.current.2) heap
      else last :: drainFrom fuel c.current heap

/-- Merge sorted runs into one table. -/
def mergeRuns (runs : List (List (κ × ν))) : List (κ × ν) :=
  (extractMin Cursor.key (runs.filterMap Cursor.ofRun)).elim [] fun picked =>
    drainFrom op (runs.map List.length).sum picked.1.current
      ((Cursor.ofRun picked.1.rest).toList ++ picked.2)

omit [LinearOrder κ] in
theorem flatMap_records_ofRun (run : List (κ × ν)) :
    (Cursor.ofRun run).toList.flatMap Cursor.records = run := by
  cases run with
  | nil => rfl
  | cons p l => simp [Cursor.ofRun, Cursor.records]

omit [LinearOrder κ] in
theorem flatMap_records_filterMap (runs : List (List (κ × ν))) :
    (runs.filterMap Cursor.ofRun).flatMap Cursor.records = runs.flatten := by
  induction runs with
  | nil => rfl
  | cons run runs ih =>
    rw [List.flatten_cons, ← ih]
    cases run with
    | nil => rfl
    | cons p l => rfl

/-- The cursor reads records in ascending order of their keys. -/
def Cursor.Ascending (c : Cursor κ ν) : Prop := c.records.Pairwise fun a b => a.1 ≤ b.1

theorem Cursor.Ascending.rest {c : Cursor κ ν} (h : c.Ascending) :
    ∀ d ∈ (Cursor.ofRun c.rest).toList, d.Ascending := by
  obtain ⟨current, rest⟩ := c
  have hrest := (List.pairwise_cons.mp h).2
  intro d hd
  cases rest with
  | nil => simp [Cursor.ofRun] at hd
  | cons p l =>
    obtain rfl : d = ⟨p, l⟩ := by simpa [Cursor.ofRun] using hd
    exact hrest

/-- Taking the least record of a heap leaves a heap of the others, none of them smaller. -/
theorem extractMin_records {heap others : List (Cursor κ ν)} {c : Cursor κ ν}
    (hheap : ∀ d ∈ heap, d.Ascending) (h : extractMin Cursor.key heap = some (c, others)) :
    (heap.flatMap Cursor.records).Perm
        (c.current :: ((Cursor.ofRun c.rest).toList ++ others).flatMap Cursor.records) ∧
      (∀ d ∈ (Cursor.ofRun c.rest).toList ++ others, d.Ascending) ∧
      ∀ p ∈ ((Cursor.ofRun c.rest).toList ++ others).flatMap Cursor.records,
        c.current.1 ≤ p.1 := by
  obtain ⟨hperm, hle⟩ := extractMin_spec h
  have hc := hheap c (hperm.mem_iff.mpr List.mem_cons_self)
  have hothers : ∀ d ∈ others, d.Ascending := fun d hd =>
    hheap d (hperm.mem_iff.mpr (List.mem_cons_of_mem c hd))
  refine ⟨?_, ?_, ?_⟩
  · have hflat := hperm.flatMap_right Cursor.records
    rw [List.flatMap_append, flatMap_records_ofRun]
    exact hflat
  · intro d hd
    rcases List.mem_append.mp hd with hd | hd
    · exact hc.rest d hd
    · exact hothers d hd
  · intro p hp
    rw [List.flatMap_append, flatMap_records_ofRun] at hp
    rcases List.mem_append.mp hp with hp | hp
    · exact (List.pairwise_cons.mp hc).1 p hp
    · obtain ⟨d, hd, hp⟩ := List.mem_flatMap.mp hp
      apply (hle d hd).trans
      rcases List.mem_cons.mp hp with rfl | hp
      · exact le_rfl
      · exact (List.pairwise_cons.mp (hothers d hd)).1 p hp

/-- Draining a heap combines an ascending permutation of its records. -/
theorem drainFrom_eq {fuel : ℕ} {heap : List (Cursor κ ν)} (hheap : ∀ c ∈ heap, c.Ascending)
    (hfuel : (heap.flatMap Cursor.records).length ≤ fuel) :
    ∃ merged, merged.Perm (heap.flatMap Cursor.records) ∧
      (merged.Pairwise fun a b => a.1 ≤ b.1) ∧
      ∀ last, drainFrom op fuel last heap = combineFrom op last.1 last.2 merged := by
  induction fuel generalizing heap with
  | zero =>
    have hnil : heap.flatMap Cursor.records = [] := List.length_eq_zero_iff.mp (by omega)
    exact ⟨[], by rw [hnil], List.Pairwise.nil, fun last => rfl⟩
  | succ fuel ih =>
    cases hmin : extractMin Cursor.key heap with
    | none =>
      obtain rfl := extractMin_eq_none hmin
      exact ⟨[], by simp, List.Pairwise.nil, fun last => by rw [drainFrom, hmin]; rfl⟩
    | some picked =>
      obtain ⟨c, others⟩ := picked
      obtain ⟨hperm, hlive, hleast⟩ := extractMin_records hheap hmin
      have hlength := hperm.length_eq
      rw [List.length_cons] at hlength
      obtain ⟨merged, hmerged, hsorted, hrun⟩ := ih hlive (by omega)
      refine ⟨c.current :: merged, (hmerged.cons _).trans hperm.symm, ?_, fun last => ?_⟩
      · refine List.pairwise_cons.mpr ⟨fun p hp => ?_, hsorted⟩
        exact hleast p (hmerged.mem_iff.mp hp)
      · rw [drainFrom, hmin, combineFrom]
        dsimp only
        rw [hrun, hrun]

/-- Merging sorted runs combines an ascending permutation of all their records. -/
theorem mergeRuns_eq {runs : List (List (κ × ν))}
    (hruns : ∀ run ∈ runs, run.Pairwise fun a b => a.1 ≤ b.1) :
    ∃ merged, merged.Perm runs.flatten ∧ (merged.Pairwise fun a b => a.1 ≤ b.1) ∧
      mergeRuns op runs = combine op merged := by
  have hheap : ∀ c ∈ runs.filterMap Cursor.ofRun, c.Ascending := by
    intro c hc
    obtain ⟨run, hrun, hc⟩ := List.mem_filterMap.mp hc
    cases run with
    | nil => cases hc
    | cons p l =>
      obtain rfl := Option.some.inj hc
      exact hruns _ hrun
  have hflat := flatMap_records_filterMap runs
  cases hmin : extractMin Cursor.key (runs.filterMap Cursor.ofRun) with
  | none =>
    rw [extractMin_eq_none hmin] at hflat
    exact ⟨[], by rw [← hflat]; simp, List.Pairwise.nil, by rw [mergeRuns, hmin]; rfl⟩
  | some picked =>
    obtain ⟨c, others⟩ := picked
    obtain ⟨hperm, hlive, hleast⟩ := extractMin_records hheap hmin
    rw [hflat] at hperm
    have hlength := hperm.length_eq
    rw [List.length_cons, List.length_flatten] at hlength
    have hfuel : (((Cursor.ofRun c.rest).toList ++ others).flatMap Cursor.records).length ≤
        (runs.map List.length).sum := by omega
    obtain ⟨merged, hmerged, hsorted, hrun⟩ := drainFrom_eq op hlive hfuel
    refine ⟨c.current :: merged, (hmerged.cons _).trans hperm.symm, ?_, ?_⟩
    · refine List.pairwise_cons.mpr ⟨fun p hp => ?_, hsorted⟩
      exact hleast p (hmerged.mem_iff.mp hp)
    · rw [mergeRuns, hmin]
      exact hrun c.current

theorem pairwise_le_aggregate (l : List (κ × ν)) :
    (aggregate op l).Pairwise fun a b => a.1 ≤ b.1 :=
  (List.pairwise_map.mp (pairwise_lt_aggregate op l)).imp le_of_lt

/-- Merging the tables of parts gives the table of the whole. -/
theorem mergeRuns_map_aggregate [Std.Associative op] [Std.Commutative op]
    (chunks : List (List (κ × ν))) :
    mergeRuns op (chunks.map (aggregate op)) = aggregate op chunks.flatten := by
  have hruns : ∀ run ∈ chunks.map (aggregate op), run.Pairwise fun a b => a.1 ≤ b.1 := by
    intro run hrun
    obtain ⟨chunk, -, rfl⟩ := List.mem_map.mp hrun
    exact pairwise_le_aggregate op chunk
  obtain ⟨merged, hperm, hsorted, hmerge⟩ := mergeRuns_eq op hruns
  rw [hmerge]
  apply eq_aggregate op (pairwise_lt_combine op hsorted)
  intro k
  rw [total_combine, total_perm op hperm, total_flatten_map_aggregate]

end Merge

section Spill

/-- Records in a buffer that is aggregated into a run whenever it is full. -/
structure Spiller (κ ν : Type u) where
  threshold : ℕ
  buffer : List (κ × ν)
  runs : List (List (κ × ν))

variable (fits : ν → Bool)

namespace Spiller

def new (threshold : ℕ) : Spiller κ ν := ⟨threshold, [], []⟩

/-- Aggregate the buffer into a new run; a value that does not fit a record of it is refused. -/
def spill (s : Spiller κ ν) : Option (Spiller κ ν) :=
  if s.buffer.isEmpty then some s
  else
    let run := aggregate op s.buffer
    if run.all fun p => fits p.2 then some { s with buffer := [], runs := s.runs ++ [run] }
    else none

def add (s : Spiller κ ν) (p : κ × ν) : Option (Spiller κ ν) :=
  let s := { s with buffer := s.buffer ++ [p] }
  if s.threshold ≤ s.buffer.length then s.spill op fits else some s

def addAll (s : Spiller κ ν) (l : List (κ × ν)) : Option (Spiller κ ν) := l.foldlM (add op fits) s

/-- The runs and the buffer together came from the records, in some order. -/
def Holds (s : Spiller κ ν) (l : List (κ × ν)) : Prop :=
  ∃ chunks : List (List (κ × ν)), s.runs = chunks.map (aggregate op) ∧
    (chunks.flatten ++ s.buffer).Perm l

theorem holds_new (threshold : ℕ) : Holds op (new threshold : Spiller κ ν) [] :=
  ⟨[], rfl, List.Perm.refl []⟩

variable {op} in
theorem Holds.perm {s : Spiller κ ν} {l m : List (κ × ν)} (h : Holds op s l) (hperm : l.Perm m) :
    Holds op s m := by
  obtain ⟨chunks, hruns, hl⟩ := h
  exact ⟨chunks, hruns, hl.trans hperm⟩

end Spiller

/-- Every combined value fits a record. -/
def Fit (l : List (κ × ν)) : Prop := ∀ k v, total op k l = some v → fits v = true

variable {op fits}

theorem Fit.perm [Std.Associative op] [Std.Commutative op] {l m : List (κ × ν)}
    (h : Fit op fits l) (hperm : l.Perm m) : Fit op fits m := by
  intro k v hv
  exact h k v (by rw [total_perm op hperm, hv])

section Monotone

variable [Std.Associative op] [Std.Commutative op]
  (hfits : ∀ a b, fits (op a b) = true → fits a = true)

include hfits

omit [Std.Commutative op] in
/-- Records whose combined values fit lose nothing of that when some are left out. -/
theorem Fit.of_append_left {l m : List (κ × ν)} (h : Fit op fits (l ++ m)) : Fit op fits l := by
  intro k v hv
  have hall := h k
  rw [total_append, hv] at hall
  cases hm : total op k m with
  | none => exact hall v (by simp [hm])
  | some w => exact hfits v w (hall _ (by simp [hm]))

theorem Fit.of_append_right {l m : List (κ × ν)} (h : Fit op fits (l ++ m)) : Fit op fits m :=
  (h.perm List.perm_append_comm).of_append_left hfits

end Monotone

theorem all_aggregate_iff [Std.Associative op] [Std.Commutative op] {l : List (κ × ν)} :
    ((aggregate op l).all fun p => fits p.2) = true ↔ Fit op fits l := by
  rw [List.all_eq_true]
  constructor
  · intro h k v hv
    exact h (k, v) ((mem_aggregate op).mpr hv)
  · rintro h ⟨k, v⟩ hp
    exact h k v ((mem_aggregate op).mp hp)

namespace Spiller

variable [Std.Associative op] [Std.Commutative op]
  (hfits : ∀ a b, fits (op a b) = true → fits a = true) {s : Spiller κ ν} {l : List (κ × ν)}

include hfits

/-- A spill empties the buffer, or meets a value that does not fit. -/
theorem Holds.spill (h : Holds op s l) :
    (∃ s', s.spill op fits = some s' ∧ s'.buffer = [] ∧ Holds op s' l) ∨
      (s.spill op fits = none ∧ ¬Fit op fits l) := by
  obtain ⟨chunks, hruns, hl⟩ := h
  unfold Spiller.spill
  by_cases hempty : s.buffer.isEmpty
  · rw [if_pos hempty]
    exact Or.inl ⟨s, rfl, by simpa using hempty, chunks, hruns, hl⟩
  · rw [if_neg hempty]
    by_cases hall : ((aggregate op s.buffer).all fun p => fits p.2) = true
    · refine Or.inl ⟨{ s with buffer := [], runs := s.runs ++ [aggregate op s.buffer] }, ?_, rfl,
        chunks ++ [s.buffer], by simp [hruns], by simpa using hl⟩
      exact if_pos hall
    · refine Or.inr ⟨if_neg hall, fun hfit => hall (all_aggregate_iff.mpr ?_)⟩
      exact (hfit.perm hl.symm).of_append_right hfits

theorem Holds.add (h : Holds op s l) (p : κ × ν) :
    (∃ s', s.add op fits p = some s' ∧ Holds op s' (l ++ [p])) ∨
      (s.add op fits p = none ∧ ¬Fit op fits (l ++ [p])) := by
  obtain ⟨chunks, hruns, hl⟩ := h
  have hpushed : Holds op { s with buffer := s.buffer ++ [p] } (l ++ [p]) :=
    ⟨chunks, hruns, by
      rw [← List.append_assoc]
      exact hl.append_right [p]⟩
  unfold Spiller.add
  dsimp only
  by_cases hfull : s.threshold ≤ (s.buffer ++ [p]).length
  · rw [if_pos hfull]
    rcases hpushed.spill hfits with ⟨s', hspill, -, hs'⟩ | hnone
    · exact Or.inl ⟨s', hspill, hs'⟩
    · exact Or.inr hnone
  · rw [if_neg hfull]
    exact Or.inl ⟨_, rfl, hpushed⟩

/-- Adding records keeps them all, or meets a value that does not fit. -/
theorem Holds.addAll (h : Holds op s l) (m : List (κ × ν)) :
    (∃ s', s.addAll op fits m = some s' ∧ Holds op s' (l ++ m)) ∨
      (s.addAll op fits m = none ∧ ¬Fit op fits (l ++ m)) := by
  induction m generalizing s l with
  | nil => exact Or.inl ⟨s, rfl, by rwa [List.append_nil]⟩
  | cons p m ih =>
    unfold Spiller.addAll
    rw [List.foldlM_cons]
    have hassoc : l ++ p :: m = l ++ [p] ++ m := by simp
    rw [hassoc]
    rcases h.add hfits p with ⟨s', hadd, hs'⟩ | ⟨hadd, hnot⟩
    · rw [hadd]
      exact ih hs'
    · rw [hadd]
      exact Or.inr ⟨rfl, fun hfit => hnot (hfit.of_append_left hfits)⟩

end Spiller

/-- Once everything is spilled, merging the runs aggregates all records. -/
theorem Spiller.Holds.mergeRuns_eq [Std.Associative op] [Std.Commutative op] {s : Spiller κ ν}
    {l : List (κ × ν)} (h : s.Holds op l) (hempty : s.buffer = []) :
    mergeRuns op s.runs = aggregate op l := by
  obtain ⟨chunks, hruns, hl⟩ := h
  rw [hempty, List.append_nil] at hl
  rw [hruns, mergeRuns_map_aggregate]
  exact aggregate_perm op hl

/-- Values may be translated when the runs are written, and combined on the other side. -/
theorem Spiller.Holds.mergeRuns_map_eq [Std.Associative op] [Std.Commutative op] {ξ : Type u}
    {op' : ξ → ξ → ξ} [Std.Associative op'] [Std.Commutative op'] {f : ν → ξ}
    (hf : ∀ a b, f (op a b) = op' (f a) (f b)) {s : Spiller κ ν} {l : List (κ × ν)}
    (h : s.Holds op l) (hempty : s.buffer = []) :
    mergeRuns op' (s.runs.map (List.map (Prod.map id f))) =
      (aggregate op l).map (Prod.map id f) := by
  obtain ⟨chunks, hruns, hl⟩ := h
  rw [hempty, List.append_nil] at hl
  have hchunks : (chunks.map (aggregate op)).map (List.map (Prod.map id f)) =
      (chunks.map (List.map (Prod.map id f))).map (aggregate op') := by
    rw [List.map_map, List.map_map]
    exact List.map_congr_left fun chunk _ => map_aggregate op hf chunk
  rw [hruns, hchunks, mergeRuns_map_aggregate, ← List.map_flatten, ← map_aggregate op hf,
    aggregate_perm op hl]

end Spill

example : aggregate (· + ·) [(3, 1), (1, 10), (3, 2), (2, 5)] = [(1, 10), (2, 5), (3, 3)] := by
  decide

end MotifChess.Order.Aggregation
