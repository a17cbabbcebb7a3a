/- GID: MotifChess/Search/OpeningStats/Rows
   generality: implementation
   digest: The rows that opening statistics are told from are those of the games that a filter keeps. -/

import MotifChess.Db.Bundle.OpeningAgreement
import MotifChess.Db.Bundle.PositionMatches
import MotifChess.Search.OpeningStats.Query

set_option autoImplicit false
set_option relaxedAutoImplicit false

namespace MotifChess.Search.OpeningStats

open MotifChess.Db MotifChess.Db.PositionPostings MotifChess.Db.OpeningTreeIndex
open MotifChess.Search.OpeningTree (ioResult)

section Kept

def recordOf (row : GameRow) : ReplayGame :=
  ⟨row.id, row.readResult, row.stored.whiteElo, row.stored.blackElo, row.stored.moves⟩

/-- The replay records of the games that a filter keeps. -/
def keptGames (t : Tables) (filter : SearchFilter) : List ReplayGame :=
  (filter.selected t.games).map recordOf

/-- The games among which the children of a position are counted: all games when there is no filter,
and otherwise those that the filter keeps and that reach the position. -/
def countedGames (rules : Chess.Rules) (t : Tables) (filter : SearchFilter) (hash : UInt64) :
    List ReplayGame :=
  if !filter.hasMetadataFilter then t.replayGames
  else (keptGames t filter).filter fun game => hash.toNat ∈ gameVisits rules game

variable {rules : Chess.Rules} {t : Tables} {filter : SearchFilter} {hash : UInt64}

theorem keptGames_of_not_hasMetadataFilter (h : filter.hasMetadataFilter = false) :
    keptGames t filter = t.replayGames := by
  have hall : filter.selected t.games = t.games :=
    List.filter_eq_self.mpr fun row _ => SearchFilter.keeps_of_not_hasMetadataFilter h _
  rw [keptGames, hall]
  rfl

theorem keptGames_sublist (t : Tables) (filter : SearchFilter) :
    (keptGames t filter).Sublist t.replayGames :=
  List.filter_sublist.map _

private theorem selected_withIds (h : Replayed rules t.replayGames) (hfit : t.IdsFit) :
    filter.selected (t.withIds (gameIdsAt (gameRows rules t.replayGames) hash)) =
      (filter.selected t.games).filter fun row => hash.toNat ∈ gameVisits rules (recordOf row) := by
  rw [SearchFilter.selected, Tables.withIds, SearchFilter.selected, List.filter_filter,
    List.filter_filter]
  refine List.filter_congr fun row hrow => ?_
  have hlisted : row ∈ t.withIds (gameIdsAt (gameRows rules t.replayGames) hash) ↔
      row ∈ t.games ∧ UInt32.ofNat row.id ∈ gameIdsAt (gameRows rules t.replayGames) hash :=
    Tables.mem_withIds hfit
  rw [Tables.withIds, List.mem_filter, decide_eq_true_eq] at hlisted
  have hvisits : UInt32.ofNat row.id ∈ gameIdsAt (gameRows rules t.replayGames) hash ↔
      hash.toNat ∈ gameVisits rules (recordOf row) := id_mem_gameIdsAt h (List.mem_map_of_mem hrow)
  rw [Bool.and_comm]
  congr 1
  exact decide_eq_decide.mpr (((and_congr_right_iff.mp hlisted) hrow).trans hvisits)

theorem findGameIdsWithFilter_spec (h : Replayed rules t.replayGames) (hfit : t.IdsFit) :
    ∃ filteredIds, t.findGameIdsWithFilter (gameIdsAt (gameRows rules t.replayGames) hash)
        { filter with position := none } = .ok filteredIds ∧
      filteredIds.length = visitCount rules (keptGames t filter) hash.toNat ∧
      allowedGames t.replayGames filteredIds =
        (keptGames t filter).filter fun game => hash.toNat ∈ gameVisits rules game := by
  refine ⟨(filter.selected (t.withIds (gameIdsAt (gameRows rules t.replayGames) hash))).map fun row =>
    UInt32.ofNat row.id, ?_, ?_, ?_⟩
  · rw [Tables.findGameIdsWithFilter, Tables.populatePositionTempTable, if_pos (nodup_gameIdsAt _ _)]
    split_ifs with hempty
    · have hnone : t.withIds (gameIdsAt (gameRows rules t.replayGames) hash) = [] := by
        rw [List.isEmpty_iff.mp hempty, Tables.withIds]
        exact List.filter_eq_nil_iff.mpr fun row _ => by simp
      rw [hnone]
      rfl
    · rfl
  · rw [List.length_map, selected_withIds h hfit, visitCount, keptGames, List.countP_map,
      ← List.countP_eq_length_filter]
    rfl
  · rw [allowedGames, keptGames, List.filter_map, selected_withIds h hfit]
    have hgames : t.replayGames = t.games.map recordOf := rfl
    rw [hgames, List.filter_map]
    refine congrArg _ ?_
    rw [SearchFilter.selected, List.filter_filter, List.filter_filter]
    refine List.filter_congr fun row hrow => ?_
    rw [Bool.eq_iff_iff, Function.comp_apply, decide_eq_true_eq, List.mem_map]
    constructor
    · rintro ⟨other, hother, hid⟩
      obtain ⟨hgame, hkept⟩ := List.mem_filter.mp hother
      obtain rfl := hfit.eq_of_id hgame hrow hid
      exact hkept
    · intro hkept
      exact ⟨row, List.mem_filter.mpr ⟨hrow, hkept⟩, rfl⟩

end Kept

section Queries

variable {rules : Chess.Rules} {encodeF64 : ℚ → ℕ} {decodeF64 : ℕ → ℚ}
  {buildTree : List ReplayGame → Reader → List UInt8 → Result (List UInt8)}
  {v : View (.ofRules rules Index buildTree (openIndex rules) Index.sourceGameCount)}
  {hash : UInt64} {filter : SearchFilter}

/-- Valid postings of the stored games are installed, and any tree that is installed was built of
these games. -/
structure ValidIndexes (encodeF64 : ℚ → ℕ)
    (v : View (.ofRules rules Index buildTree (openIndex rules) Index.sourceGameCount)) : Prop where
  postings : ∃ reader file, v.postings = some (reader, some file) ∧
    PostingsOf rules v.tables.replayGames reader file
  tree : ∀ tree treeFile, v.tree = some (tree, treeFile) → ∃ bytes, treeFile = some bytes ∧
    TreeOf rules encodeF64 v.tables.replayGames tree bytes

/-- The rows of a position: of all games, or of those among its games that the filter keeps. -/
def aggregation (decodeF64 : ℕ → ℚ)
    (v : View (.ofRules rules Index buildTree (openIndex rules) Index.sourceGameCount)) (hash : UInt64)
    (filter : SearchFilter) : Result (List ExactStatRow) :=
  if !filter.hasMetadataFilter then v.queryUnfilteredOpeningStats decodeF64 hash
  else do
    let allIds ← askView v fun reader file => reader.distinctGameIds file hash.toNat
    let filteredIds ← v.tables.findGameIdsWithFilter allIds { filter with position := none }
    v.queryFilteredOpeningStats hash filteredIds

/-- A row less what it says of Elos. -/
def withoutElos (row : ExactStatRow) : ExactStatRow :=
  { row with avgWhiteElo := none, avgBlackElo := none, eloWeightedScore := none }

private theorem withoutElos_exactRow (key : EdgeKey) (agg : EdgeAgg) (childCount : ℕ → ℕ) :
    withoutElos ((edgeContinuation encodeF64 childCount (key, agg)).exactRow decodeF64) =
      withoutElos ((ExactEdgeAggregate.ofAgg agg).row (edgeOf key) (childCount key.childHash)) := by
  unfold edgeContinuation OpeningTreeIndex.Continuation.exactRow ExactEdgeAggregate.row
    ExactEdgeAggregate.ofAgg withoutElos
  dsimp only
  simp only [UInt32.ofNat_toNat]
  rfl

private theorem map_withoutElos_treeRows (games : List ReplayGame) (hash : UInt64) :
    (treeRows rules encodeF64 decodeF64 games hash).map withoutElos =
      (referenceRows rules games games hash).map withoutElos := by
  rw [treeRows, recordsAt, List.map_map, List.map_map, referenceRows, List.map_map]
  exact List.map_congr_left fun key _ => withoutElos_exactRow key _ _

theorem aggregation_eq (hv : ValidIndexes encodeF64 v) (hfit : v.tables.IdsFit) :
    ∃ rows, aggregation decodeF64 v hash filter = .ok rows ∧ rows.map withoutElos =
      (referenceRows rules (keptGames v.tables filter) (countedGames rules v.tables filter hash)
        hash).map withoutElos := by
  obtain ⟨⟨reader, file, hpostings, hpostingsOf⟩, htree⟩ := hv
  obtain ⟨hreplayed, -, hanswers⟩ := hpostingsOf.answers
  rw [aggregation, countedGames]
  cases hmetadata : filter.hasMetadataFilter with
  | false =>
    rw [Bool.not_false, if_pos rfl, if_pos rfl, keptGames_of_not_hasMetadataFilter hmetadata]
    rcases queryUnfilteredOpeningStats_cases hfit hpostings hpostingsOf htree hash with
      hrows | hrows
    · exact ⟨_, hrows, rfl⟩
    · exact ⟨_, hrows, map_withoutElos_treeRows _ _⟩
  | true =>
    obtain ⟨filteredIds, hfiltered, -, hallowed⟩ :=
      @findGameIdsWithFilter_spec rules v.tables filter hash hreplayed hfit
    rw [Bool.not_true, if_neg Bool.false_ne_true, if_neg Bool.false_ne_true, askView, hpostings]
    dsimp only
    rw [hanswers.distinctGameIds, ok_bind, hfiltered, ok_bind,
      queryFilteredOpeningStats_eq hfit hpostings hpostingsOf, hallowed]
    refine ⟨_, rfl, congrArg _ (referenceRows_filter fun key hroot playing hplaying => ?_)⟩
    have hvisit := visits_of_mem_playings hplaying
    rw [hroot] at hvisit
    exact decide_eq_true hvisit

end Queries

end MotifChess.Search.OpeningStats
