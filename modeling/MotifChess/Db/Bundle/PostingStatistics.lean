/- GID: MotifChess/Db/Bundle/PostingStatistics
   generality: implementation
   digest: The opening statistics that the postings tell are those of the allowed games. -/

import MotifChess.Db.Bundle.EdgeStatistics

set_option autoImplicit false
set_option relaxedAutoImplicit false

namespace MotifChess.Db

open MotifChess.Order OpeningTreeIndex PositionPostings

section Children

variable {rules : Chess.Rules}

private theorem mem_visitedFrom {child : UInt64} {board : rules.Board} {moves : List UInt16} :
    child ∈ visitedFrom rules board moves ↔
      child.toNat ∈ (rules.hash board).toNat :: hashesAfter rules board moves := by
  induction moves generalizing board with
  | nil => simp [visitedFrom, hashesAfter, UInt64.toNat_inj]
  | cons encodedMove moves ih =>
    rw [visitedFrom, List.mem_cons, ih, ← UInt64.toNat_inj, hashesAfter, ← List.mem_cons]

private theorem mem_visitedFrom_start {child : UInt64} (game : ReplayGame) :
    child ∈ visitedFrom rules rules.start game.moves ↔ child.toNat ∈ gameVisits rules game := by
  rw [mem_visitedFrom, mem_gameVisits]
  rfl

private theorem getD_foldl_count {childHashes : List UInt64} (hnodup : childHashes.Nodup)
    (visited : List UInt64) (counts : Std.TreeMap UInt64 ℕ) (child : UInt64) :
    (childHashes.foldl (fun counts childHash =>
        if childHash ∈ visited then counts.alter childHash fun count => some (count.getD 0 + 1)
        else counts) counts).getD child 0 =
      counts.getD child 0 + if child ∈ childHashes ∧ child ∈ visited then 1 else 0 := by
  induction childHashes generalizing counts with
  | nil => simp
  | cons first childHashes ih =>
    obtain ⟨hfirst, hrest⟩ := List.nodup_cons.mp hnodup
    rw [List.foldl_cons, ih hrest]
    by_cases hchild : first = child
    · subst hchild
      by_cases hvisited : first ∈ visited
      · simp [hvisited, hfirst, Std.TreeMap.getD_eq_getD_getElem?]
      · simp [hvisited]
    · have hcompare : compare first child ≠ .eq := mt Std.LawfulEqCmp.eq_of_compare hchild
      have hsame : (if first ∈ visited then counts.alter first fun count => some (count.getD 0 + 1)
          else counts).getD child 0 = counts.getD child 0 := by
        split
        · rw [Std.TreeMap.getD_alter, if_neg hcompare]
        · rfl
      rw [hsame]
      simp [Ne.symm hchild]

private theorem getD_localChildCounts {childHashes : List UInt64} (hnodup : childHashes.Nodup)
    (contexts : List (UInt32 × List UInt16)) {child : UInt64} (hchild : child ∈ childHashes) :
    (localChildCounts rules contexts childHashes).getD child 0 =
      contexts.countP fun context => child ∈ visitedFrom rules rules.start context.2 := by
  have hgeneral : ∀ counts : Std.TreeMap UInt64 ℕ, (contexts.foldl (fun counts context =>
      let visited := visitedFrom rules rules.start context.2
      childHashes.foldl (fun counts childHash =>
        if childHash ∈ visited then counts.alter childHash fun count => some (count.getD 0 + 1)
        else counts) counts) counts).getD child 0 = counts.getD child 0 +
      contexts.countP fun context => child ∈ visitedFrom rules rules.start context.2 := by
    induction contexts with
    | nil => simp
    | cons context contexts ih =>
      intro counts
      rw [List.foldl_cons, ih, getD_foldl_count hnodup, List.countP_cons]
      simp only [hchild, true_and, decide_eq_true_eq]
      omega
  rw [localChildCounts, hgeneral, Std.TreeMap.getD_emptyc, Nat.zero_add]

theorem distinctGameCount_summaryAt (rows : List PositionRow) (hash : UInt64) :
    (summaryAt rows hash).elim 0 PositionPostingsSummary.distinctGameCount =
      (gameIdsAt rows hash).length := by
  by_cases hnone : occurrencesAt rows hash = []
  · rw [summaryAt, gameIdsAt, hnone]
    rfl
  · have hplies : (occurrencesAt rows hash).map (fun o => o.ply.toNat) ≠ [] :=
      mt List.map_eq_nil_iff.mp hnone
    obtain ⟨minPly, hmin⟩ := exists_min? hplies
    obtain ⟨maxPly, hmax⟩ := exists_max? hplies
    rw [summaryAt, hmin, hmax]
    rfl

theorem length_gameIdsAt_eq_visitCount {games : List ReplayGame} (h : Replayed rules games)
    (hash : UInt64) :
    (gameIdsAt (gameRows rules games) hash).length = visitCount rules games hash.toNat := by
  rw [length_gameIdsAt h, count_visitsOf]
  rfl

private theorem globalChildCounts_eq {games : List ReplayGame} (h : Replayed rules games) {reader : Reader}
    {file : List UInt8} (hanswers : Answers reader file (gameRows rules games))
    (childHashes : List UInt64) : ∃ counts,
      globalChildCounts reader file childHashes = .ok counts ∧
        ∀ child ∈ childHashes, counts.getD child 0 = visitCount rules games child.toNat := by
  have hgeneral : ∀ start : Std.TreeMap UInt64 ℕ, ∃ counts : Std.TreeMap UInt64 ℕ,
      childHashes.foldlM (fun counts childHash => do
        let summary ← reader.summary file (UInt64.toNat childHash)
        return counts.insert childHash
          (summary.elim 0 PositionPostingsSummary.distinctGameCount)) start = Except.ok counts ∧
      ∀ child, counts.getD child 0 = if child ∈ childHashes then visitCount rules games child.toNat
        else start.getD child 0 := by
    induction childHashes with
    | nil => exact fun start => ⟨start, rfl, by simp⟩
    | cons first childHashes ih =>
      intro start
      obtain ⟨counts, hcounts, hgetD⟩ := ih (start.insert first (visitCount rules games first.toNat))
      refine ⟨counts, ?_, fun child => ?_⟩
      · rw [List.foldlM_cons, hanswers.summary, ok_bind, distinctGameCount_summaryAt,
          length_gameIdsAt_eq_visitCount h]
        exact hcounts
      · rw [hgetD, Std.TreeMap.getD_insert]
        by_cases hchild : first = child
        · subst hchild
          simp
        · rw [if_neg (mt Std.LawfulEqCmp.eq_of_compare hchild)]
          simp [Ne.symm hchild]
  obtain ⟨counts, hcounts, hgetD⟩ := hgeneral ∅
  refine ⟨counts, hcounts, fun child hchild => ?_⟩
  rw [hgetD, if_pos hchild]

end Children

section Rows

variable {rules : Chess.Rules} {t : Tables} {hash : UInt64}

/-- The row of a continuation: the games that play it make its statistics, and the counted games
that visit its child the transposition frequency. -/
def referenceRow (rules : Chess.Rules) (games counted : List ReplayGame) (key : EdgeKey) :
    ExactStatRow :=
  (ExactEdgeAggregate.ofAgg (referenceAgg rules uint16Max games key)).row (edgeOf key)
    (visitCount rules counted key.childHash)

/-- The rows of a position, by move and by the position reached. -/
def referenceRows (rules : Chess.Rules) (games counted : List ReplayGame) (hash : UInt64) :
    List ExactStatRow :=
  (referenceEdges rules uint16Max games hash.toNat).map (referenceRow rules games counted)

private theorem sortedLE_mergeSort (ids : List UInt32) : (ids.mergeSort.map UInt32.toNat).SortedLE := by
  have htrans : ∀ a b c : UInt32, decide (a ≤ b) = true → decide (b ≤ c) = true →
      decide (a ≤ c) = true := by
    intro a b c hab hbc
    exact decide_eq_true (UInt32.le_trans (of_decide_eq_true hab) (of_decide_eq_true hbc))
  have htotal : ∀ a b : UInt32, (decide (a ≤ b) || decide (b ≤ a)) = true := by
    intro a b
    simpa using UInt32.le_total a b
  have hpairwise := List.pairwise_mergeSort htrans htotal ids
  refine List.Pairwise.sortedLE (List.pairwise_map.mpr (hpairwise.imp fun hle => ?_))
  exact UInt32.le_iff_toNat_le.mp (of_decide_eq_true hle)

private theorem allowedGames_mergeSort (games : List ReplayGame) (ids : List UInt32) :
    allowedGames games ids.mergeSort = allowedGames games ids := by
  simp [allowedGames]

/-- The children of the contributions, each once. -/
def childHashesOf (contributions : DirectContributions) : List UInt64 :=
  (Std.TreeSet.ofList (contributions.keys.map fun key => key.2.2)).toList

private theorem nodup_childHashesOf (contributions : DirectContributions) :
    (childHashesOf contributions).Nodup := by
  refine Std.TreeSet.distinct_toList.imp ?_
  rintro a b hne rfl
  exact hne Std.ReflCmp.compare_self

variable {allowedGameIds : List UInt32}

private theorem mem_childHashesOf (h : Replayed rules t.replayGames) (hfit : t.IdsFit)
    (hsorted : (allowedGameIds.map UInt32.toNat).SortedLE) {key : EdgeKey}
    (hkey : key ∈ referenceEdges rules uint16Max (allowedGames t.replayGames allowedGameIds)
      hash.toNat) :
    (edgeOf key).2 ∈ childHashesOf (contributionsAt rules t hash allowedGameIds) := by
  obtain ⟨playing, hplaying⟩ := List.exists_mem_of_ne_nil _ (mem_referenceEdges_iff.mp hkey).1
  rw [← edgeFrom_edgeOf hkey] at hplaying
  have hfound := (getElem?_contributionsAt h hfit hsorted).mpr ⟨playing, hplaying, rfl, rfl⟩
  have hmem : (UInt32.ofNat playing.1.id, edgeOf key) ∈
      contributionsAt rules t hash allowedGameIds := by
    rw [Std.TreeMap.mem_iff_isSome_getElem?, hfound]
    rfl
  rw [childHashesOf, Std.TreeSet.mem_toList, Std.TreeSet.mem_ofList, List.contains_iff_mem,
    List.mem_map]
  exact ⟨_, Std.TreeMap.mem_keys.mpr hmem, rfl⟩

private theorem countP_allowedMoves (hfit : t.IdsFit) (child : UInt64) :
    ((allowedMoves t allowedGameIds).countP fun context =>
      child ∈ visitedFrom rules rules.start context.2) =
      visitCount rules (allowedGames t.replayGames allowedGameIds) child.toNat := by
  have hgames : allowedGames t.replayGames allowedGameIds =
      (t.withIds allowedGameIds).map fun row => (⟨row.id, row.readResult, row.stored.whiteElo,
        row.stored.blackElo, row.stored.moves⟩ : ReplayGame) := by
    rw [allowedGames, Tables.replayGames, List.filter_map, Tables.withIds]
    refine congrArg _ (List.filter_congr fun row hrow => ?_)
    have hmem : row ∈ t.withIds allowedGameIds ↔ row ∈ t.games ∧ UInt32.ofNat row.id ∈ allowedGameIds :=
      Tables.mem_withIds hfit
    rw [Tables.withIds, List.mem_filter, decide_eq_true_eq] at hmem
    exact decide_eq_decide.mpr ((and_congr_right_iff.mp hmem) hrow).symm
  rw [visitCount, hgames, allowedMoves, List.countP_map, List.countP_map]
  refine List.countP_congr fun row _ => ?_
  simp only [Function.comp_apply, decide_eq_true_eq]
  exact mem_visitedFrom_start ⟨row.id, row.readResult, row.stored.whiteElo, row.stored.blackElo,
    row.stored.moves⟩

private theorem map_row_aggregateExactly (h : Replayed rules t.replayGames) (hfit : t.IdsFit)
    (hlength : t.replayGames.length < 2 ^ 32) (hsorted : (allowedGameIds.map UInt32.toNat).SortedLE)
    {counts : Std.TreeMap UInt64 ℕ} {counted : List ReplayGame}
    (hcounts : ∀ child ∈ childHashesOf (contributionsAt rules t hash allowedGameIds),
      counts.getD child 0 = visitCount rules counted child.toNat) :
    ((aggregateExactly (contributionsAt rules t hash allowedGameIds)).toList.map fun entry =>
      entry.2.row entry.1 (counts.getD entry.1.2 0)) =
      referenceRows rules (allowedGames t.replayGames allowedGameIds) counted hash := by
  rw [toList_aggregateExactly h hfit hlength hsorted, List.map_map, referenceRows]
  refine List.map_congr_left fun key hkey => ?_
  rw [Function.comp_apply, hcounts _ (mem_childHashesOf h hfit hsorted hkey), referenceRow]
  have hchild : (edgeOf key).2.toNat = key.childHash :=
    congrArg EdgeKey.childHash (edgeFrom_edgeOf hkey)
  rw [hchild]

/-- The postings tell the rows of the allowed games, in which a child is counted among all games or
among the allowed ones. -/
theorem postingsOpeningStats_eq (h : Replayed rules t.replayGames) (hfit : t.IdsFit)
    (hlength : t.replayGames.length < 2 ^ 32) {reader : Reader} {file : List UInt8}
    (hanswers : Answers reader file (gameRows rules t.replayGames)) (allowedGameIds : List UInt32)
    (globalChildFrequency : Bool) :
    t.postingsOpeningStats rules reader file hash allowedGameIds globalChildFrequency =
      .ok (referenceRows rules (allowedGames t.replayGames allowedGameIds)
        (if globalChildFrequency then t.replayGames
          else allowedGames t.replayGames allowedGameIds) hash) := by
  have hsorted := sortedLE_mergeSort allowedGameIds
  have hcontexts : ((t.withIds allowedGameIds.mergeSort).map fun row =>
      (UInt32.ofNat row.id, row.context)).map (fun context => (context.1, context.2.moves)) =
      allowedMoves t allowedGameIds.mergeSort := List.map_map ..
  have hcontributions : ((window 0 0 (occurrencesAt (gameRows rules t.replayGames) hash)).map
      (matchAt (gameRows rules t.replayGames))).foldlM
        (addContribution rules allowedGameIds.mergeSort (allowedMoves t allowedGameIds.mergeSort)) ∅ =
      .ok (contributionsAt rules t hash allowedGameIds.mergeSort) := foldlM_addContribution _
  rw [Tables.postingsOpeningStats]
  dsimp only
  rw [hanswers.occurrences, ok_bind, Tables.getGameContexts, ok_bind, hcontexts, hcontributions, ok_bind,
    ← allowedGames_mergeSort]
  cases globalChildFrequency with
  | true =>
    obtain ⟨counts, hcounts, hgetD⟩ := globalChildCounts_eq h hanswers
      (childHashesOf (contributionsAt rules t hash allowedGameIds.mergeSort))
    rw [childHashesOf] at hcounts
    rw [if_pos rfl, hcounts, ok_bind, if_pos rfl]
    exact congrArg Except.ok (map_row_aggregateExactly h hfit hlength hsorted hgetD)
  | false =>
    rw [if_neg Bool.false_ne_true, ok_bind, if_neg Bool.false_ne_true]
    refine congrArg Except.ok (map_row_aggregateExactly h hfit hlength hsorted fun child hchild => ?_)
    rw [← countP_allowedMoves hfit]
    exact getD_localChildCounts (nodup_childHashesOf _) _ hchild

end Rows

end MotifChess.Db
