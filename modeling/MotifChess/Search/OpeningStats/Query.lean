/- GID: MotifChess/Search/OpeningStats/Query
   generality: implementation
   digest: The opening statistics of a search: the rows of a position told as moves from its board. -/

import MotifChess.Db.Bundle.OpeningStats
import MotifChess.Search.OpeningTree.Open
import Mathlib.Data.List.Dedup

set_option autoImplicit false
set_option relaxedAutoImplicit false

namespace MotifChess.Search.OpeningStats

open MotifChess.Db MotifChess.Db.PositionPostings
open MotifChess.Search.OpeningTree (GameContext ioResult)

/-- What the opening statistics read of a database. -/
structure Database where
  positionSummary : UInt64 → Result (Option PositionPostingsSummary)
  positionGameIds : UInt64 → Result (List UInt32)
  queryUnfilteredOpeningStats : UInt64 → Result (List ExactStatRow)
  queryFilteredOpeningStats : UInt64 → List UInt32 → Result (List ExactStatRow)
  findGameIdsWithFilter : List UInt32 → SearchFilter → Result (List UInt32)
  getGameContexts : List UInt32 → Result (List (UInt32 × GameContext))

structure Continuation where
  san : String
  resultHash : UInt64
  frequency : UInt32
  directFrequency : UInt32
  whiteWins : UInt32
  draws : UInt32
  blackWins : UInt32
  averageWhiteElo : Option ℚ
  averageBlackElo : Option ℚ
  eco : Option String
  openingName : Option String
  eloWeightedScore : ℚ
  deriving DecidableEq

structure Stats where
  totalGames : UInt32 := 0
  continuations : List Continuation := []
  deriving DecidableEq

section Presentation

variable (rules : Chess.Rules)

/-- The two games of a row that its board and its opening are taken from. -/
def sampleIds (row : ExactStatRow) : List UInt32 := [row.ecoSampleMin, row.ecoSampleMax]

/-- The board of a sample game after so many plies, when it has the hash that is asked for. -/
def sampleBoard (contexts : List (UInt32 × GameContext)) (zobristHash : UInt64) (rootPly : UInt16)
    (candidateId : UInt32) : Option rules.Board :=
  ((contexts.lookup candidateId).bind fun context => rules.replay context.moves rootPly).filter
    fun board => rules.hash board = zobristHash

/-- `find_root_board`: every sample is replayed to the ply of the first row. -/
def findRootBoard (rows : List ExactStatRow) (rootPly : UInt16) (zobristHash : UInt64)
    (contexts : List (UInt32 × GameContext)) : Option rules.Board :=
  (rows.flatMap sampleIds).findSome? (sampleBoard rules contexts zobristHash rootPly)

/-- `resolve_eco`: the context of the first sample that has one. -/
def resolveEco (contexts : List (UInt32 × GameContext)) (row : ExactStatRow) : Option GameContext :=
  (sampleIds row).findSome? fun id => contexts.lookup id

/-- A row as a continuation; a row of which no sample is known is left out. -/
def presentRow (contexts : List (UInt32 × GameContext)) (position : rules.Board)
    (row : ExactStatRow) : Option Continuation :=
  (resolveEco contexts row).map fun context =>
    { san := rules.san position row.contEncodedMove
      resultHash := row.contHash
      frequency := row.transpositionFrequency
      directFrequency := row.frequency
      whiteWins := row.whiteWins
      draws := row.draws
      blackWins := row.blackWins
      averageWhiteElo := row.avgWhiteElo
      averageBlackElo := row.avgBlackElo
      eco := context.eco
      openingName := context.openingName
      eloWeightedScore := row.eloWeightedScore.getD 0 }

def continuationRank (c : Continuation) : ℕᵒᵈ ×ₗ String :=
  toLex (OrderDual.toDual c.frequency.toNat, c.san)

/-- The continuations of some rows, most frequent first and equally frequent ones by move text. -/
def present (contexts : List (UInt32 × GameContext)) (rows : List ExactStatRow) (totalGames : UInt32)
    (position : rules.Board) : Stats where
  totalGames := totalGames
  continuations := Order.sortBy continuationRank (rows.filterMap (presentRow rules contexts position))

/-- `build_stats`. Without a board of the position it reports nothing at all. -/
def buildStats (database : Database) (hash : UInt64) (rows : List ExactStatRow)
    (totalGames : UInt32) : Result Stats :=
  match rows.head? with
  | none => .ok { totalGames }
  | some front => do
    let candidateIds := (rows.flatMap sampleIds).mergeSort.dedup
    let contexts ← ioResult (database.getGameContexts candidateIds)
    let position := if 0 < front.rootPly then findRootBoard rules rows front.rootPly hash contexts
      else some rules.start
    return position.elim {} (present rules contexts rows totalGames)

/-- `query` without a filter. The summary of an indexed position counts its games. -/
def queryAll (database : Database) (hash : UInt64) : Result Stats := do
  let summary ← ioResult (database.positionSummary hash)
  match summary with
  | some summary =>
    let rows ← ioResult (database.queryUnfilteredOpeningStats hash)
    buildStats rules database hash rows (UInt32.ofNat summary.distinctGameCount)
  | none =>
    let gameIds ← ioResult (database.positionGameIds hash)
    if gameIds.isEmpty then return {}
    let rows ← ioResult (database.queryUnfilteredOpeningStats hash)
    buildStats rules database hash rows (UInt32.ofNat gameIds.length)

/-- `query`, with or without a filter. -/
def query (database : Database) (hash : UInt64) (filter : SearchFilter) : Result Stats :=
  if !filter.hasMetadataFilter then queryAll rules database hash
  else do
    let allIds ← ioResult (database.positionGameIds hash)
    if allIds.isEmpty then return {}
    let filteredIds ← ioResult
      (database.findGameIdsWithFilter allIds { filter with position := none })
    if filteredIds.isEmpty then return {}
    let rows ← ioResult (database.queryFilteredOpeningStats hash filteredIds)
    buildStats rules database hash rows (UInt32.ofNat filteredIds.length)

end Presentation

section Views

variable {rules : Chess.Rules}
  {buildTree : List ReplayGame → Reader → List UInt8 → Result (List UInt8)}
  (v : View (.ofRules rules OpeningTreeIndex.Index buildTree (OpeningTreeIndex.openIndex rules)
    OpeningTreeIndex.Index.sourceGameCount))

/-- A lookup in the postings of a view fails closed. -/
def askView {α : Type} (query : Reader → List UInt8 → Result α) : Result α :=
  match v.postings with
  | some (reader, some file) => query reader file
  | _ => .error .ioFailure

/-- The counts of a position; a view without valid postings has none to give. -/
def positionSummary (hash : UInt64) : Result (Option PositionPostingsSummary) :=
  if v.postings.isNone then .ok none else askView v fun reader file => reader.summary file hash.toNat

/-- What the opening statistics read of the view that an open bundle gives its queries. -/
def statsReads (decodeF64 : ℕ → ℚ) : Database where
  positionSummary := positionSummary v
  positionGameIds hash := askView v fun reader file => reader.distinctGameIds file hash.toNat
  queryUnfilteredOpeningStats := v.queryUnfilteredOpeningStats decodeF64
  queryFilteredOpeningStats := v.queryFilteredOpeningStats
  findGameIdsWithFilter := v.tables.findGameIdsWithFilter
  getGameContexts := v.tables.getGameContexts

end Views

end MotifChess.Search.OpeningStats
