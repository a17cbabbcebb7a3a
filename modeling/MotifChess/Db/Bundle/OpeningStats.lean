/- GID: MotifChess/Db/Bundle/OpeningStats
   generality: implementation
   digest: The opening statistics of a position, told from postings or from a tree, in exact numbers. -/

import MotifChess.Db.Bundle.OpeningQueries
import MotifChess.Db.GameSearch
import MotifChess.Db.OpeningTreeIndex.RoundTrip

/-! The sums that the program keeps in floating point are rational numbers here, and the averages of
a row are their exact quotients. -/

set_option autoImplicit false
set_option relaxedAutoImplicit false

namespace MotifChess.Db

open OpeningTreeIndex PositionPostings

section Rows

/-- `opening_stat_agg_row` with exact averages. -/
structure ExactStatRow where
  contEncodedMove : UInt16
  contHash : UInt64
  rootPly : UInt16
  frequency : UInt32
  transpositionFrequency : UInt32
  whiteWins : UInt32
  draws : UInt32
  blackWins : UInt32
  avgWhiteElo : Option ℚ
  avgBlackElo : Option ℚ
  ecoSampleMin : UInt32
  ecoSampleMax : UInt32
  eloWeightedScore : Option ℚ
  deriving DecidableEq

def exactAverage (sum : ℤ) (count : UInt32) : Option ℚ :=
  if count = 0 then none else some ((sum : ℚ) / (count.toNat : ℚ))

variable (decodeF64 : ℕ → ℚ)

/-- The row that a record of a tree becomes, where `decodeF64` reads the bits of its sums. -/
def OpeningTreeIndex.Continuation.exactRow (c : Continuation) : ExactStatRow where
  contEncodedMove := UInt16.ofNat c.encodedMove
  contHash := UInt64.ofNat c.childHash
  rootPly := UInt16.ofNat c.rootPly
  frequency := UInt32.ofNat c.frequency
  transpositionFrequency := UInt32.ofNat c.transpositionFrequency
  whiteWins := UInt32.ofNat c.whiteWins
  draws := UInt32.ofNat c.draws
  blackWins := UInt32.ofNat c.blackWins
  avgWhiteElo := exactAverage c.whiteEloSum (UInt32.ofNat c.whiteEloCount)
  avgBlackElo := exactAverage c.blackEloSum (UInt32.ofNat c.blackEloCount)
  ecoSampleMin := UInt32.ofNat c.ecoSampleMin
  ecoSampleMax := UInt32.ofNat c.ecoSampleMax
  eloWeightedScore :=
    if 0 < decodeF64 c.eloWeightSum then
      some (decodeF64 c.weightedContribSum / decodeF64 c.eloWeightSum)
    else none

/-- A lookup in the tree opens its file only for a position that it has. -/
def OpeningTreeIndex.Index.exactRows (tree : Index) (file : Option (List UInt8)) (hash : UInt64) :
    Result (List ExactStatRow) :=
  match file with
  | some file =>
    (tree.queryRecords file hash.toNat).map fun cs => cs.map (Continuation.exactRow decodeF64)
  | none => if (tree.findNode hash.toNat).isSome then .error .ioFailure else .ok []

end Rows

section Aggregation

/-- `filtered_edge_aggregate` with exact sums. -/
structure ExactEdgeAggregate where
  rootPly : UInt16 := 0
  frequency : UInt32 := 0
  whiteWins : UInt32 := 0
  draws : UInt32 := 0
  blackWins : UInt32 := 0
  whiteEloSum : ℤ := 0
  whiteEloCount : UInt32 := 0
  blackEloSum : ℤ := 0
  blackEloCount : UInt32 := 0
  weightedContribSum : ℚ := 0
  eloWeightSum : ℚ := 0
  ecoSampleMin : UInt32 := 0
  ecoSampleMax : UInt32 := 0

namespace ExactEdgeAggregate

def noteResult (result : ℤ) (a : ExactEdgeAggregate) : ExactEdgeAggregate :=
  if result > 0 then { a with whiteWins := a.whiteWins + 1 }
  else if result < 0 then { a with blackWins := a.blackWins + 1 }
  else { a with draws := a.draws + 1 }

def noteElo (o : PositionMatch) (a : ExactEdgeAggregate) : ExactEdgeAggregate :=
  let a := match o.whiteElo with
    | none => a
    | some elo => { a with
      whiteEloSum := a.whiteEloSum + elo.toInt, whiteEloCount := a.whiteEloCount + 1 }
  let a := match o.blackElo with
    | none => a
    | some elo => { a with
      blackEloSum := a.blackEloSum + elo.toInt, blackEloCount := a.blackEloCount + 1 }
  match o.whiteElo, o.blackElo with
  | some white, some black =>
    let averageElo : ℚ := ((white.toInt : ℚ) + (black.toInt : ℚ)) / 2
    { a with
      weightedContribSum := a.weightedContribSum + (o.result : ℚ) * averageElo
      eloWeightSum := a.eloWeightSum + averageElo }
  | _, _ => a

def add (gameKey : UInt32) (contribution : DirectContribution) (a : ExactEdgeAggregate) :
    ExactEdgeAggregate :=
  let a := if a.frequency = 0 then
      { a with rootPly := contribution.rootPly, ecoSampleMin := gameKey, ecoSampleMax := gameKey }
    else a
  let a := { a with
    rootPly := min a.rootPly contribution.rootPly
    ecoSampleMin := min a.ecoSampleMin gameKey
    ecoSampleMax := max a.ecoSampleMax gameKey }
  let a := (a.noteResult contribution.found.result).noteElo contribution.found
  { a with frequency := a.frequency + 1 }

def row (edge : UInt16 × UInt64) (childGameCount : ℕ) (a : ExactEdgeAggregate) : ExactStatRow where
  contEncodedMove := edge.1
  contHash := edge.2
  rootPly := a.rootPly
  frequency := a.frequency
  transpositionFrequency := UInt32.ofNat childGameCount
  whiteWins := a.whiteWins
  draws := a.draws
  blackWins := a.blackWins
  avgWhiteElo := exactAverage a.whiteEloSum a.whiteEloCount
  avgBlackElo := exactAverage a.blackEloSum a.blackEloCount
  ecoSampleMin := a.ecoSampleMin
  ecoSampleMax := a.ecoSampleMax
  eloWeightedScore :=
    if a.eloWeightSum = 0 then none else some (a.weightedContribSum / a.eloWeightSum)

end ExactEdgeAggregate

abbrev ExactAggregates := Std.TreeMap (UInt16 × UInt64) ExactEdgeAggregate compareEdges

def aggregateExactly (contributions : DirectContributions) : ExactAggregates :=
  contributions.toList.foldl (fun aggregates entry =>
    aggregates.alter entry.1.2 fun a => some ((a.getD {}).add entry.1.1 entry.2)) ∅

variable (rules : Chess.Rules)

/-- The positions that the moves lead through from a board, which is among them. -/
def visitedFrom (board : rules.Board) : List UInt16 → List UInt64
  | [] => [rules.hash board]
  | encodedMove :: moves =>
    rules.hash board :: visitedFrom (rules.applyEncodedMove board encodedMove) moves

/-- The distinct games that the postings give to each child. -/
def globalChildCounts (reader : Reader) (file : List UInt8) (childHashes : List UInt64) :
    Result (Std.TreeMap UInt64 ℕ) :=
  childHashes.foldlM (fun counts childHash => do
    let summary ← reader.summary file childHash.toNat
    return counts.insert childHash (summary.elim 0 PositionPostingsSummary.distinctGameCount)) ∅

/-- How many of the games visit each child. -/
def localChildCounts (contexts : List (UInt32 × List UInt16)) (childHashes : List UInt64) :
    Std.TreeMap UInt64 ℕ :=
  contexts.foldl (fun counts context =>
    let visited := visitedFrom rules rules.start context.2
    childHashes.foldl (fun counts childHash =>
      if childHash ∈ visited then counts.alter childHash fun count => some (count.getD 0 + 1)
      else counts) counts) ∅

/-- `postings_filtered_opening_stats`. -/
def Tables.postingsOpeningStats (t : Tables) (reader : Reader) (file : List UInt8)
    (rootHash : UInt64) (allowedGameIds : List UInt32) (globalChildFrequency : Bool) :
    Result (List ExactStatRow) := do
  let allowedGameIds := allowedGameIds.mergeSort
  let occurrences ← reader.occurrences file rootHash.toNat 0 0
  let contexts ← t.getGameContexts allowedGameIds
  let contexts := contexts.map fun context => (context.1, context.2.moves)
  let contributions ← occurrences.foldlM (addContribution rules allowedGameIds contexts) ∅
  let aggregates := aggregateExactly contributions
  let childHashes := (Std.TreeSet.ofList (contributions.keys.map fun key => key.2.2)).toList
  let childGameCounts ← if globalChildFrequency then globalChildCounts reader file childHashes
    else .ok (localChildCounts rules contexts childHashes)
  return aggregates.toList.map fun entry =>
    entry.2.row entry.1 (childGameCounts.getD entry.1.2 0)

end Aggregation

namespace View

variable {rules : Chess.Rules} {buildTree : List ReplayGame → Reader → List UInt8 → Result (List UInt8)}
  (v : View (.ofRules rules Index buildTree (openIndex rules) Index.sourceGameCount))

/-- The statistics of the games that reach a position. -/
def openingStatsFromPostings (reader : Reader) (file : List UInt8) (hash : UInt64) :
    Result (List ExactStatRow) := do
  let gameIds ← reader.distinctGameIds file hash.toNat
  v.tables.postingsOpeningStats rules reader file hash gameIds true

/-- `database_manager::query_unfiltered_opening_stats`. -/
def queryUnfilteredOpeningStats (decodeF64 : ℕ → ℚ) (hash : UInt64) : Result (List ExactStatRow) :=
  match v.postings with
  | some (reader, some file) =>
    match v.tree with
    | none => v.openingStatsFromPostings reader file hash
    | some (tree, treeFile) =>
      if tree.isComplete hash.toNat then tree.exactRows decodeF64 treeFile hash
      else
        match reader.summary file hash.toNat with
        | .ok (some summary) =>
          if summary.maxPly > tree.maxRootPly then v.openingStatsFromPostings reader file hash
          else tree.exactRows decodeF64 treeFile hash
        | _ => .ok []
  | _ => .error .ioFailure

/-- `database_manager::query_filtered_opening_stats`. -/
def queryFilteredOpeningStats (hash : UInt64) (gameIds : List UInt32) : Result (List ExactStatRow) :=
  match v.postings with
  | some (reader, some file) =>
    v.tables.postingsOpeningStats rules reader file hash gameIds false
  | _ => .error .ioFailure

end View

end MotifChess.Db
