/- GID: MotifChess/Db/Bundle/EloCounts
   generality: implementation
   digest: The rating distribution counts every game once in its bucket, without gaps between buckets. -/

import MotifChess.Db.Bundle.EloDistribution

set_option autoImplicit false
set_option relaxedAutoImplicit false

namespace MotifChess.Db

open MotifChess.Order MotifChess.Order.FirstWins PositionPostings OpeningTreeIndex
open MotifChess.Search.OpeningTree

section Counting

variable {bucketWidth : ℤ}

theorem foldl_eloCounting (samples : List EloSample) :
    samples.foldl (EloCounting.add bucketWidth) {} =
      ⟨(firsts EloSample.seenKey samples).map EloSample.seenKey,
        tally compareBuckets (EloSample.bucket bucketWidth) EloBucketCounts.add
          (firsts EloSample.seenKey samples)⟩ := by
  induction samples using List.reverseRecOn with
  | nil => rfl
  | append_singleton samples sample ih =>
    rw [List.foldl_append, List.foldl_cons, List.foldl_nil, ih, firsts_concat, EloCounting.add]
    by_cases hseen : sample.seenKey ∈ (firsts EloSample.seenKey samples).map EloSample.seenKey
    · rw [if_pos hseen, insertNew_of_mem hseen]
    · rw [if_neg hseen, insertNew_of_not_mem hseen, List.map_append, tally_concat]
      rfl

/-- The counts of some samples, by their results. -/
def EloBucketCounts.of (samples : List EloSample) : EloBucketCounts where
  whiteWins := samples.countP fun sample => 0 < sample.result
  draws := samples.countP fun sample => sample.result = 0
  blackWins := samples.countP fun sample => sample.result < 0
  gameCount := samples.length

theorem foldl_eloBucketCounts (samples : List EloSample) :
    (samples.foldl (fun counts sample => some (EloBucketCounts.add sample counts)) none).getD {} =
      EloBucketCounts.of samples := by
  induction samples using List.reverseRecOn with
  | nil => rfl
  | append_singleton samples sample ih =>
    rw [List.foldl_append, List.foldl_cons, List.foldl_nil, Option.getD_some, EloBucketCounts.add]
    dsimp only
    rw [ih]
    rcases lt_trichotomy sample.result 0 with hlost | hdrawn | hwon
    · rw [if_neg hlost.not_gt, if_pos hlost]
      simp [EloBucketCounts.of, hlost, hlost.ne, hlost.not_gt]
    · rw [if_neg hdrawn.not_gt, if_neg hdrawn.not_lt]
      simp [EloBucketCounts.of, hdrawn]
    · rw [if_pos hwon]
      simp [EloBucketCounts.of, hwon, hwon.ne', hwon.not_gt]

theorem EloBucketCounts.sum_of (samples : List EloSample) :
    (EloBucketCounts.of samples).whiteWins + (EloBucketCounts.of samples).draws +
      (EloBucketCounts.of samples).blackWins = (EloBucketCounts.of samples).gameCount := by
  induction samples with
  | nil => rfl
  | cons sample samples ih =>
    simp only [EloBucketCounts.of, List.countP_cons, List.length_cons, decide_eq_true_eq] at ih ⊢
    rcases lt_trichotomy sample.result 0 with hlost | hdrawn | hwon
    · rw [if_neg hlost.not_gt, if_neg hlost.ne, if_pos hlost]
      omega
    · rw [if_neg hdrawn.not_gt, if_pos hdrawn, if_neg hdrawn.not_lt]
      omega
    · rw [if_pos hwon, if_neg hwon.ne', if_neg hwon.not_gt]
      omega

end Counting

section Ranges

private theorem foldl_widenRange {buckets : List (UInt16 × ℤ)} {range : ℤ × ℤ}
    (h : buckets.foldl (fun range bucket => some (widenRange bucket range)) none = some range) :
    range.1 ∈ buckets.map Prod.snd ∧ range.2 ∈ buckets.map Prod.snd ∧
      ∀ floor ∈ buckets.map Prod.snd, range.1 ≤ floor ∧ floor ≤ range.2 := by
  induction buckets using List.reverseRecOn generalizing range with
  | nil => cases h
  | append_singleton buckets bucket ih =>
    rw [List.foldl_append, List.foldl_cons, List.foldl_nil] at h
    obtain rfl := Option.some.inj h
    rw [List.map_append, List.map_singleton]
    cases hrange : buckets.foldl (fun range bucket => some (widenRange bucket range)) none with
    | none =>
      have hnil : buckets = [] := by
        cases buckets using List.reverseRecOn with
        | nil => rfl
        | append_singleton l a =>
          rw [List.foldl_append] at hrange
          cases hrange
      subst hnil
      simp [widenRange]
    | some range =>
      obtain ⟨hlow, hhigh, hall⟩ := ih hrange
      have hbelow := (hall _ hhigh).1
      simp only [widenRange, Option.getD_some, List.mem_append, List.mem_singleton]
      refine ⟨?_, ?_, ?_⟩
      · rcases min_choice range.1 bucket.2 with hmin | hmin
        · exact .inl (hmin.symm ▸ hlow)
        · exact .inr hmin
      · rcases max_choice range.2 bucket.2 with hmax | hmax
        · exact .inl (hmax.symm ▸ hhigh)
        · exact .inr hmax
      · rintro floor (hfloor | rfl)
        · obtain ⟨hle, hge⟩ := hall floor hfloor
          exact ⟨(min_le_left _ _).trans hle, hge.trans (le_max_left _ _)⟩
        · exact ⟨min_le_right _ _, le_max_right _ _⟩

theorem bucketRanges_spec {buckets : EloBuckets} {encodedMove : UInt16} {range : ℤ × ℤ}
    (h : (bucketRanges buckets)[encodedMove]? = some range) :
    (encodedMove, range.1) ∈ buckets ∧ (encodedMove, range.2) ∈ buckets ∧
      ∀ floor, (encodedMove, floor) ∈ buckets → range.1 ≤ floor ∧ floor ≤ range.2 := by
  rw [bucketRanges, getElem?_tally] at h
  have hmem : ∀ floor, floor ∈ ((buckets.keys.filter fun bucket =>
      decide (bucket.1 = encodedMove)).map Prod.snd) ↔ (encodedMove, floor) ∈ buckets := by
    intro floor
    rw [List.mem_map, ← Std.TreeMap.mem_keys]
    constructor
    · rintro ⟨⟨move, floor⟩, hbucket, rfl⟩
      obtain ⟨hkey, hmove⟩ := List.mem_filter.mp hbucket
      obtain rfl := of_decide_eq_true hmove
      exact hkey
    · intro hkey
      exact ⟨_, List.mem_filter.mpr ⟨hkey, decide_eq_true rfl⟩, rfl⟩
  obtain ⟨hlow, hhigh, hall⟩ := foldl_widenRange h
  exact ⟨(hmem _).mp hlow, (hmem _).mp hhigh, fun floor hfloor => hall floor ((hmem floor).mpr hfloor)⟩

theorem mem_bucketRanges {buckets : EloBuckets} {encodedMove : UInt16} :
    encodedMove ∈ bucketRanges buckets ↔ ∃ floor, (encodedMove, floor) ∈ buckets := by
  rw [bucketRanges, mem_tally_iff]
  constructor
  · rintro ⟨⟨move, floor⟩, hkey, rfl⟩
    exact ⟨floor, Std.TreeMap.mem_keys.mp hkey⟩
  · rintro ⟨floor, hkey⟩
    exact ⟨_, Std.TreeMap.mem_keys.mpr hkey, rfl⟩

end Ranges

section Rows

variable {bucketWidth : ℤ} {buckets : EloBuckets} {fuel : ℕ}

/-- The floors from the lowest bucket of a range to its highest. -/
def rangeFloors (bucketWidth : ℤ) (range : ℤ × ℤ) : List ℤ :=
  (List.range (((range.2 - range.1) / bucketWidth).toNat + 1)).map fun (i : ℕ) =>
    range.1 + i * bucketWidth

/-- Every bucket is a multiple of the width, and not too many of them. -/
def AreMultiples (bucketWidth : ℤ) (fuel : ℕ) (buckets : EloBuckets) : Prop :=
  ∀ encodedMove floor, (encodedMove, floor) ∈ buckets → ∃ k : ℕ, k < fuel ∧ floor = k * bucketWidth

theorem exists_multiples (hwidth : 0 < bucketWidth) (hmultiples : AreMultiples bucketWidth fuel buckets)
    {encodedMove : UInt16} {range : ℤ × ℤ}
    (hrange : (bucketRanges buckets)[encodedMove]? = some range) :
    ∃ k n : ℕ, k + n < fuel ∧ range.1 = k * bucketWidth ∧ range.2 = (k + n : ℕ) * bucketWidth ∧
      ((range.2 - range.1) / bucketWidth).toNat = n := by
  obtain ⟨hlow, hhigh, hall⟩ := bucketRanges_spec hrange
  obtain ⟨low, -, hlow⟩ := hmultiples _ _ hlow
  obtain ⟨high, hfuel, hhigh'⟩ := hmultiples _ _ hhigh
  have hle : low ≤ high := by
    have hfloors := (hall _ hhigh).1
    rw [hlow, hhigh'] at hfloors
    exact_mod_cast le_of_mul_le_mul_right hfloors hwidth
  obtain ⟨n, rfl⟩ := Nat.exists_eq_add_of_le hle
  refine ⟨low, n, hfuel, hlow, hhigh', ?_⟩
  have hdiff : range.2 - range.1 = n * bucketWidth := by
    rw [hlow, hhigh']
    push_cast
    ring
  rw [hdiff, Int.mul_ediv_cancel _ hwidth.ne', Int.toNat_natCast]

private theorem progression_rangeFloors (hwidth : 0 < bucketWidth)
    (hmultiples : AreMultiples bucketWidth fuel buckets) {encodedMove : UInt16} {range : ℤ × ℤ}
    (hrange : (bucketRanges buckets)[encodedMove]? = some range) :
    progression bucketWidth range.2 fuel range.1 = some (rangeFloors bucketWidth range) := by
  obtain ⟨k, n, hfuel, hlow, hhigh, hn⟩ := exists_multiples hwidth hmultiples hrange
  have hlast : range.2 = range.1 + n * bucketWidth := by
    rw [hlow, hhigh]
    push_cast
    ring
  rw [rangeFloors, hn, hlast]
  exact progression_eq hwidth (by omega)

theorem bucketRows_eq (hwidth : 0 < bucketWidth) (hmultiples : AreMultiples bucketWidth fuel buckets) :
    bucketRows fuel bucketWidth buckets = some ((bucketRanges buckets).toList.flatMap fun entry =>
      (rangeFloors bucketWidth entry.2).map (bucketRow buckets entry.1)) := by
  have hrows : ∀ entries : List (UInt16 × ℤ × ℤ),
      (∀ entry ∈ entries, (bucketRanges buckets)[entry.1]? = some entry.2) →
      entries.mapM (fun entry => (progression bucketWidth entry.2.2 fuel entry.2.1).map fun floors =>
        floors.map (bucketRow buckets entry.1)) =
      some (entries.map fun entry =>
        (rangeFloors bucketWidth entry.2).map (bucketRow buckets entry.1)) := by
    intro entries hentries
    induction entries with
    | nil => rfl
    | cons entry entries ih =>
      rw [List.mapM_cons, progression_rangeFloors hwidth hmultiples
        (hentries entry List.mem_cons_self), ih fun e he => hentries e (List.mem_cons_of_mem _ he)]
      rfl
  rw [bucketRows, hrows _ fun entry hentry => Std.TreeMap.mem_toList_iff_getElem?_eq_some.mp hentry]
  rfl

theorem filter_bucketRows (hwidth : 0 < bucketWidth)
    (hmultiples : AreMultiples bucketWidth fuel buckets) {rows : List EloDistributionRow}
    (hrows : bucketRows fuel bucketWidth buckets = some rows) (encodedMove : UInt16) :
    (rows.filter fun row => row.encodedMove = encodedMove) =
      ((bucketRanges buckets)[encodedMove]?).elim [] fun range =>
        (rangeFloors bucketWidth range).map (bucketRow buckets encodedMove) := by
  rw [bucketRows_eq hwidth hmultiples] at hrows
  obtain rfl := Option.some.inj hrows
  have hkeys : ((bucketRanges buckets).toList.map Prod.fst).Nodup := by
    rw [List.Nodup, List.pairwise_map]
    refine Std.TreeMap.distinct_keys_toList.imp fun hne heq => hne ?_
    rw [heq]
    exact Std.ReflCmp.compare_self
  have hblock : ∀ entry : UInt16 × ℤ × ℤ, ∀ row ∈ (rangeFloors bucketWidth entry.2).map
      (bucketRow buckets entry.1), row.encodedMove = entry.1 := by
    intro entry row hrow
    obtain ⟨floor, -, rfl⟩ := List.mem_map.mp hrow
    rfl
  cases hrange : (bucketRanges buckets)[encodedMove]? with
  | some range =>
    have hentry : (encodedMove, range) ∈ (bucketRanges buckets).toList :=
      Std.TreeMap.mem_toList_iff_getElem?_eq_some.mpr hrange
    exact filter_flatMap_block hkeys hblock hentry
  | none =>
    rw [Option.elim_none, List.filter_eq_nil_iff]
    intro row hrow
    obtain ⟨entry, hentry, hmem⟩ := List.mem_flatMap.mp hrow
    rw [decide_eq_true_eq, hblock entry row hmem]
    rintro rfl
    rw [Std.TreeMap.mem_toList_iff_getElem?_eq_some.mp hentry] at hrange
    cases hrange

end Rows

end MotifChess.Db
