/- GID: MotifChess/Db/OpeningTreeIndex/ChildCounts
   generality: implementation
   digest: The file of child counts: how it is written, and looking a hash up in it on disk or in memory. -/

import MotifChess.Codec.LittleEndian
import MotifChess.Db.ByteStream
import MotifChess.Db.Types
import MotifChess.Order.Aggregation
import MotifChess.Order.Bisection
import Mathlib.Data.List.Dedup
import Mathlib.Data.List.TakeWhile

/-! The file starts with the number of records; a record is a hash of eight bytes and a count of
four. -/

set_option autoImplicit false
set_option relaxedAutoImplicit false

namespace MotifChess.Db.OpeningTreeIndex

open Codec LittleEndian
open MotifChess.Order (sortBy)
open MotifChess.Order.Aggregation MotifChess.Order.Bisection

def orIoFailure {α : Type} : Option α → Result α
  | some a => .ok a
  | none => .error .ioFailure

section Write

def countRecord (p : ℕ × UInt32) : List UInt8 := leBytes 8 p.1 ++ leBytes 4 p.2.toNat

def countsFile (counts : List (ℕ × UInt32)) : List UInt8 :=
  leBytes 8 counts.length ++ counts.flatMap countRecord

/-- A count of a spilled run has to fit 32 bits. -/
def countFits (count : ℕ) : Bool := decide (count ≤ uint32Max)

/-- `hash_visit_counter`: visited hashes that are counted in sorted runs. -/
abbrev HashVisitCounter := Spiller ℕ ℕ

namespace HashVisitCounter

def visit (counter : HashVisitCounter) (hash : ℕ) : Result HashVisitCounter :=
  orIoFailure (counter.add (· + ·) countFits (hash, 1))

/-- Spill the rest and merge all runs; the sums of the merge wrap at 32 bits. -/
def finalize (counter : HashVisitCounter) : Result (List UInt8) := do
  let counter ← orIoFailure (counter.spill (· + ·) countFits)
  return countsFile
    (mergeRuns (· + ·) (counter.runs.map (List.map (Prod.map id UInt32.ofNat))))

end HashVisitCounter

/-- `opening_tree_child_count_stream`: hands every hash and its count to a visitor. -/
structure ChildCountStream where
  forEach : {σ : Type} → (σ → ℕ → UInt32 → Result σ) → σ → Result σ

/-- The visitor refuses a count of zero and a hash that is not above the last one. -/
def writeChildCount (written : List (ℕ × UInt32)) (hash : ℕ) (frequency : UInt32) :
    Result (List (ℕ × UInt32)) :=
  if frequency = 0 ∨ ∃ previous ∈ written.getLast?, hash ≤ previous.1 then .error .ioFailure
  else .ok (written ++ [(hash, frequency)])

def materializeChildCounts (stream : ChildCountStream) : Result (List UInt8) := do
  let written ← stream.forEach writeChildCount []
  return countsFile written

end Write

section Lookup

def countRecordSize : ℕ := 12

def readCountRecord (input : List UInt8) : Option ((ℕ × ℕ) × List UInt8) := do
  let (hash, input) ← readLe 8 input
  let (frequency, input) ← readLe 4 input
  return ((hash, frequency), input)

/-- Seek to a record and read it. -/
def readCount (counts : List UInt8) (index : ℕ) : Result (ℕ × ℕ) :=
  orIoFailure ((readCountRecord (counts.drop (8 + index * countRecordSize))).map Prod.fst)

/-- The first index whose hash is not below the hash sought, found by halving on disk. -/
def lowerCount (counts : List UInt8) (hash lower upper : ℕ) : Result ℕ :=
  if lower < upper then do
    let middle := lower + (upper - lower) / 2
    let (candidate, _) ← readCount counts middle
    if candidate < hash then lowerCount counts hash (middle + 1) upper
    else lowerCount counts hash lower middle
  else .ok lower
termination_by upper - lower

def childFrequency (counts : List UInt8) (count hash : ℕ) : Result ℕ := do
  let lower ← lowerCount counts hash 0 count
  if lower = count then .error .ioFailure
  else do
    let (candidate, frequency) ← readCount counts lower
    if candidate ≠ hash then .error .ioFailure else return frequency

/-- Read the records in order and give their counts to the hashes among them. -/
def assignFrequencies : ℕ → List UInt8 → List ℕ → Result (List (ℕ × ℕ))
  | 0, _, hashes => .ok (hashes.map fun h => (h, 0))
  | count + 1, input, hashes =>
    if hashes.isEmpty then .ok []
    else do
      let ((hash, frequency), input) ← orIoFailure (readCountRecord input)
      let skipped := hashes.takeWhile (· < hash)
      let rest := hashes.dropWhile (· < hash)
      if rest.head? = some hash then do
        let later ← assignFrequencies count input rest.tail
        return skipped.map (fun h => (h, 0)) ++ (hash, frequency) :: later
      else do
        let later ← assignFrequencies count input rest
        return skipped.map (fun h => (h, 0)) ++ later

/-- `referenced_child_frequencies`: hashes in ascending order beside their counts, or nothing when the
table would exceed the memory limit. -/
def loadReferencedChildFrequencies (childHashes : List ℕ) (counts : List UInt8)
    (childCount memoryLimitBytes : ℕ) : Result (List (ℕ × ℕ)) :=
  if childHashes.length > memoryLimitBytes / countRecordSize then .ok []
  else assignFrequencies childCount (counts.drop 8) (sortBy id childHashes).dedup

def referencedChildFrequency (frequencies : List (ℕ × ℕ)) (hash : ℕ) : Result ℕ :=
  match findKey Prod.fst frequencies hash with
  | none => .error .ioFailure
  | some entry => if entry.2 = 0 then .error .ioFailure else .ok entry.2

/-- The count of a hash, from the table in memory when there is one. -/
def lookupChildFrequency (frequencies : List (ℕ × ℕ)) (counts : List UInt8)
    (childCount hash : ℕ) : Result ℕ :=
  if frequencies.isEmpty then childFrequency counts childCount hash
  else referencedChildFrequency frequencies hash

end Lookup

section Records

variable {counts : List (ℕ × UInt32)}

/-- A table of counts that a file can hold: ascending 64-bit hashes, no count of zero. -/
structure CountTable (counts : List (ℕ × UInt32)) : Prop where
  ascending : (counts.map Prod.fst).Pairwise (· < ·)
  hash_lt : ∀ p ∈ counts, p.1 < 2 ^ 64
  ne_zero : ∀ p ∈ counts, p.2 ≠ 0
  length_lt : counts.length < 2 ^ 64

private theorem readCountRecord_append {p : ℕ × UInt32} (hp : p.1 < 2 ^ 64) (rest : List UInt8) :
    readCountRecord (countRecord p ++ rest) = some ((p.1, p.2.toNat), rest) := by
  have hhash : p.1 < 256 ^ 8 := hp
  have hcount : p.2.toNat < 256 ^ 4 := p.2.toNat_lt
  rw [readCountRecord, countRecord, List.append_assoc, readLe_leBytes hhash]
  simp only [Option.bind_eq_bind, Option.bind_some]
  rw [readLe_leBytes hcount]
  rfl

private theorem length_countRecord (p : ℕ × UInt32) : (countRecord p).length = countRecordSize := by
  simp [countRecord, countRecordSize]

private theorem drop_flatMap_countRecord (counts : List (ℕ × UInt32)) (index : ℕ) :
    (counts.flatMap countRecord).drop (index * countRecordSize) =
      (counts.drop index).flatMap countRecord := by
  induction index generalizing counts with
  | zero => simp
  | succ index ih =>
    cases counts with
    | nil => simp
    | cons p counts =>
      have hsplit : (index + 1) * countRecordSize =
          (countRecord p).length + index * countRecordSize := by
        rw [length_countRecord, Nat.succ_mul, Nat.add_comm]
      rw [List.flatMap_cons, hsplit, ← List.drop_drop, List.drop_left, ih, List.drop_succ_cons]

private theorem readCount_countsFile (hlt : ∀ p ∈ counts, p.1 < 2 ^ 64) {index : ℕ}
    (hindex : index < counts.length) :
    readCount (countsFile counts) index = .ok (counts[index].1, counts[index].2.toNat) := by
  have hdrop : (countsFile counts).drop (8 + index * countRecordSize) =
      (counts.drop index).flatMap countRecord := by
    rw [countsFile, ← List.drop_drop, ← drop_flatMap_countRecord]
    congr 1
  rw [readCount, hdrop, List.drop_eq_getElem_cons hindex, List.flatMap_cons,
    readCountRecord_append (hlt _ (List.getElem_mem hindex))]
  rfl

theorem readLe_countsFile (h : counts.length < 2 ^ 64) :
    readLe 8 (countsFile counts) = some (counts.length, counts.flatMap countRecord) :=
  readLe_leBytes h _

end Records

section Disk

variable {counts : List (ℕ × UInt32)}

private theorem lowerCount_eq {file : List UInt8} {hash lower upper : ℕ} {p : ℕ → Bool}
    (hread : ∀ i, lower ≤ i → i < upper →
      ∃ r : ℕ × ℕ, readCount file i = .ok r ∧ decide (r.1 < hash) = p i) :
    lowerCount file hash lower upper = .ok (bisect p lower (upper - lower)) := by
  induction hcount : upper - lower using Nat.strong_induction_on generalizing lower upper with
  | h count ih =>
    rw [lowerCount, bisect]
    by_cases hlt : lower < upper
    · obtain ⟨r, hr, hp⟩ := hread (lower + (upper - lower) / 2) (by omega) (by omega)
      rw [if_pos hlt, if_neg (by omega), ← hcount, ← hp]
      dsimp only
      rw [hr, ok_bind]
      by_cases hbelow : r.1 < hash
      · rw [if_pos hbelow, if_pos (decide_eq_true hbelow)]
        rw [ih _ (by omega) (fun i hi hu => hread i (by omega) hu) rfl]
        congr 2
        omega
      · rw [if_neg hbelow, if_neg (by simpa using hbelow)]
        rw [ih _ (by omega) (fun i hi hu => hread i hi (by omega)) rfl]
        congr 2
        omega
    · rw [if_neg hlt, if_pos (by omega)]

private theorem childFrequency_eq (hlt : ∀ p ∈ counts, p.1 < 2 ^ 64) (hash : ℕ) :
    childFrequency (countsFile counts) counts.length hash =
      orIoFailure ((findKey Prod.fst counts hash).map fun p => p.2.toNat) := by
  have hlower : lowerCount (countsFile counts) hash 0 counts.length =
      .ok (lowerBound Prod.fst counts hash) := by
    apply lowerCount_eq
    intro i _ hi
    refine ⟨_, readCount_countsFile hlt hi, ?_⟩
    simp [List.getElem?_eq_getElem hi]
  rw [childFrequency, hlower, ok_bind, findKey]
  set lower := lowerBound Prod.fst counts hash with hset
  have hle : lower ≤ counts.length := lowerBound_le Prod.fst counts hash
  rcases Nat.lt_or_eq_of_le hle with hless | heq
  · rw [if_neg hless.ne, readCount_countsFile hlt hless, ok_bind, List.getElem?_eq_getElem hless]
    by_cases hkey : counts[lower].1 = hash
    · simp [hkey, Option.filter, orIoFailure, pure, Except.pure]
    · simp [hkey, Option.filter, orIoFailure]
  · rw [if_pos heq, List.getElem?_eq_none (by omega)]
    rfl

end Disk

section Memory

/-- The count that a table gives to a hash, zero when it does not list the hash. -/
def countOf (counts : List (ℕ × UInt32)) (hash : ℕ) : ℕ :=
  ((counts.find? fun p => decide (p.1 = hash)).map fun p => p.2.toNat).getD 0

variable {p : ℕ × UInt32} {counts : List (ℕ × UInt32)} {hashes : List ℕ} {hash : ℕ}

@[simp] theorem countOf_cons_self : countOf (p :: counts) p.1 = p.2.toNat := by simp [countOf]

private theorem countOf_cons_of_ne (h : p.1 ≠ hash) : countOf (p :: counts) hash = countOf counts hash := by
  simp [countOf, h]

private theorem countOf_eq_zero (h : hash ∉ counts.map Prod.fst) : countOf counts hash = 0 := by
  have hnone : (counts.find? fun p => decide (p.1 = hash)) = none := by
    rw [List.find?_eq_none]
    intro p hp
    simpa using fun hkey : p.1 = hash => h (hkey ▸ List.mem_map_of_mem hp)
  rw [countOf, hnone]
  rfl

private theorem le_of_mem_dropWhile (hhashes : hashes.Pairwise (· < ·)) {bound h : ℕ}
    (hmem : h ∈ hashes.dropWhile (· < bound)) : bound ≤ h := by
  induction hhashes with
  | nil => simp at hmem
  | @cons first hashes hfirst _ ih =>
    by_cases hlt : first < bound
    · rw [List.dropWhile_cons_of_pos (by simpa using hlt)] at hmem
      exact ih hmem
    · rw [List.dropWhile_cons_of_neg (by simpa using hlt)] at hmem
      rcases List.mem_cons.mp hmem with rfl | hmem
      · omega
      · have := hfirst h hmem
        omega

private theorem assignFrequencies_eq (hasc : (counts.map Prod.fst).Pairwise (· < ·))
    (hlt : ∀ p ∈ counts, p.1 < 2 ^ 64) (hhashes : hashes.Pairwise (· < ·)) :
    assignFrequencies counts.length (counts.flatMap countRecord) hashes =
      .ok (hashes.map fun h => (h, countOf counts h)) := by
  induction counts generalizing hashes with
  | nil => rfl
  | cons p counts ih =>
    rw [List.map_cons, List.pairwise_cons] at hasc
    obtain ⟨habove, hasc⟩ := hasc
    have hlater : ∀ p' ∈ counts, p'.1 < 2 ^ 64 := fun p' hp' => hlt p' (List.mem_cons_of_mem p hp')
    rw [List.length_cons, assignFrequencies]
    by_cases hempty : hashes.isEmpty
    · obtain rfl : hashes = [] := by simpa using hempty
      rfl
    rw [if_neg hempty, List.flatMap_cons, readCountRecord_append (hlt p List.mem_cons_self)]
    simp only [orIoFailure, ok_bind]
    have hsplit : hashes.takeWhile (· < p.1) ++ hashes.dropWhile (· < p.1) = hashes :=
      List.takeWhile_append_dropWhile
    have hge : ∀ h ∈ hashes.dropWhile (· < p.1), p.1 ≤ h := fun h hmem =>
      le_of_mem_dropWhile hhashes hmem
    have hskipped : ∀ h ∈ hashes.takeWhile (· < p.1), (h, 0) = (h, countOf (p :: counts) h) := by
      intro h hmem
      have hsmall : h < p.1 := by simpa using List.mem_takeWhile_imp hmem
      rw [countOf_eq_zero]
      intro hkey
      rcases List.mem_cons.mp hkey with heq | hkey
      · omega
      · have := habove h hkey
        omega
    rw [List.map_congr_left hskipped]
    generalize hashes.takeWhile (· < p.1) = skipped at hsplit
    generalize hashes.dropWhile (· < p.1) = rest at hsplit hge
    subst hsplit
    have hrest := (List.pairwise_append.mp hhashes).2.1
    by_cases hhead : rest.head? = some p.1
    · obtain ⟨rest', rfl⟩ : ∃ rest', rest = p.1 :: rest' := by
        cases rest with
        | nil => cases hhead
        | cons first rest' =>
          obtain rfl : first = p.1 := Option.some.inj hhead
          exact ⟨rest', rfl⟩
      obtain ⟨hfirst, hrest⟩ := List.pairwise_cons.mp hrest
      have hsame : ∀ h ∈ rest', (h, countOf counts h) = (h, countOf (p :: counts) h) := by
        intro h hmem
        rw [countOf_cons_of_ne (hfirst h hmem).ne]
      rw [if_pos hhead, List.tail_cons, ih hasc hlater hrest, ok_bind, List.map_congr_left hsame,
        List.map_append, List.map_cons, countOf_cons_self]
      rfl
    · have hne : ∀ h ∈ rest, p.1 ≠ h := by
        intro h hmem heq
        subst heq
        cases rest with
        | nil => cases hmem
        | cons first rest' =>
          rcases List.mem_cons.mp hmem with heq | hmem
          · exact hhead (by rw [List.head?_cons, heq])
          · have := hge first List.mem_cons_self
            have := (List.pairwise_cons.mp hrest).1 p.1 hmem
            omega
      have hsame : ∀ h ∈ rest, (h, countOf counts h) = (h, countOf (p :: counts) h) := by
        intro h hmem
        rw [countOf_cons_of_ne (hne h hmem)]
      rw [if_neg hhead, ih hasc hlater hrest, ok_bind, List.map_congr_left hsame, List.map_append]
      rfl

theorem lookup_eq (hcounts : CountTable counts) {childHashes : List ℕ} (limit : ℕ) :
    ∃ frequencies,
      loadReferencedChildFrequencies childHashes (countsFile counts) counts.length limit =
        .ok frequencies ∧
      ∀ hash ∈ childHashes,
        lookupChildFrequency frequencies (countsFile counts) counts.length hash =
          orIoFailure ((findKey Prod.fst counts hash).map fun p => p.2.toNat) := by
  have hsorted : (counts.map Prod.fst).SortedLT := hcounts.ascending.sortedLT
  rw [loadReferencedChildFrequencies]
  by_cases hlimit : childHashes.length > limit / countRecordSize
  · refine ⟨[], if_pos hlimit, fun hash _ => ?_⟩
    exact childFrequency_eq hcounts.hash_lt hash
  rw [if_neg hlimit]
  set hashes := (sortBy id childHashes).dedup with hset
  have hascending : hashes.Pairwise (· < ·) := by
    have hle := Order.pairwise_sortBy id childHashes
    have hpair : hashes.Pairwise (· ≤ ·) := hle.sublist (List.dedup_sublist _)
    exact hpair.imp₂ (fun a b hab hne => lt_of_le_of_ne hab hne) (List.nodup_dedup _)
  have hdrop : (countsFile counts).drop 8 = counts.flatMap countRecord :=
    List.drop_left' (length_leBytes 8 _)
  refine ⟨_, by rw [hdrop, assignFrequencies_eq hcounts.ascending hcounts.hash_lt hascending], ?_⟩
  intro hash hmem
  have hmem : hash ∈ hashes := by
    rw [hset, List.mem_dedup, Order.mem_sortBy]
    exact hmem
  have hne : ¬(hashes.map fun h => (h, countOf counts h)).isEmpty := by
    simpa using List.ne_nil_of_mem hmem
  have hkeys : ((hashes.map fun h => (h, countOf counts h)).map Prod.fst).SortedLT := by
    rw [List.map_map]
    simpa [Function.comp_def] using hascending.sortedLT
  have hfind : findKey Prod.fst (hashes.map fun h => (h, countOf counts h)) hash =
      some (hash, countOf counts hash) :=
    (findKey_eq_some hkeys).mpr ⟨List.mem_map.mpr ⟨hash, hmem, rfl⟩, rfl⟩
  rw [lookupChildFrequency, if_neg hne, referencedChildFrequency, hfind]
  dsimp only
  rw [findKey_eq_find? hsorted, countOf]
  cases hcount : counts.find? fun p => decide (p.1 = hash) with
  | none => rfl
  | some p =>
    have hpos : p.2.toNat ≠ 0 := by
      intro hzero
      exact hcounts.ne_zero p (List.mem_of_find?_eq_some hcount) (UInt32.toNat_inj.mp hzero)
    exact if_neg hpos

end Memory

end MotifChess.Db.OpeningTreeIndex
