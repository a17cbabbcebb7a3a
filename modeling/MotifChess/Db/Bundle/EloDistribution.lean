/- GID: MotifChess/Db/Bundle/EloDistribution
   generality: implementation
   digest: The distribution of the games of a position over moves and rating buckets. -/

import MotifChess.Db.Bundle.PositionMatches
import MotifChess.Order.Tally

set_option autoImplicit false
set_option relaxedAutoImplicit false

namespace MotifChess.Db

open MotifChess.Order PositionPostings MotifChess.Search.OpeningTree

section Buckets

structure EloBucketCounts where
  whiteWins : ℕ := 0
  draws : ℕ := 0
  blackWins : ℕ := 0
  gameCount : ℕ := 0
  deriving DecidableEq

/-- One row: a move, the least rating of a bucket, and the games that are counted there. -/
structure EloDistributionRow where
  encodedMove : UInt16
  eloBucketFloor : ℤ
  whiteWins : ℕ
  draws : ℕ
  blackWins : ℕ
  gameCount : ℕ
  deriving DecidableEq

/-- What a match says when its game is allowed and rated and goes on from the position. -/
structure EloSample where
  gameId : UInt32
  encodedMove : UInt16
  averageElo : ℤ
  result : ℤ

def EloSample.of (contexts : List (UInt32 × GameContext)) (allowedGameIds : List UInt32)
    (found : PositionMatch) : Option EloSample := do
  guard (admits allowedGameIds found.gameId)
  let whiteElo ← found.whiteElo
  let blackElo ← found.blackElo
  let context ← contexts.lookup found.gameId
  let encodedMove ← context.moves[found.ply.toNat]?
  return ⟨found.gameId, encodedMove, (whiteElo.toInt + blackElo.toInt).tdiv 2, found.result⟩

def EloSample.bucket (bucketWidth : ℤ) (sample : EloSample) : UInt16 × ℤ :=
  (sample.encodedMove, sample.averageElo.tdiv bucketWidth * bucketWidth)

/-- A game is counted once for each move that it plays from the position. -/
def EloSample.seenKey (sample : EloSample) : UInt32 × UInt16 := (sample.gameId, sample.encodedMove)

def EloBucketCounts.add (sample : EloSample) (counts : Option EloBucketCounts) : EloBucketCounts :=
  let counts := counts.getD {}
  let counts := { counts with gameCount := counts.gameCount + 1 }
  if 0 < sample.result then { counts with whiteWins := counts.whiteWins + 1 }
  else if sample.result < 0 then { counts with blackWins := counts.blackWins + 1 }
  else { counts with draws := counts.draws + 1 }

def compareBuckets : UInt16 × ℤ → UInt16 × ℤ → Ordering :=
  compareLex (compareOn Prod.fst) (compareOn Prod.snd)

instance : Std.TransCmp compareBuckets :=
  inferInstanceAs (Std.TransCmp (compareLex (compareOn Prod.fst) (compareOn Prod.snd)))

instance : Std.LawfulEqCmp compareBuckets where
  eq_of_compare {a b} h := by
    obtain ⟨hmove, hfloor⟩ := compareLex_eq_eq.mp h
    exact Prod.ext (Std.LawfulEqCmp.eq_of_compare hmove) (Std.LawfulEqCmp.eq_of_compare hfloor)

abbrev EloBuckets := Std.TreeMap (UInt16 × ℤ) EloBucketCounts compareBuckets

/-- The buckets, with the games and moves that were counted in them. -/
structure EloCounting where
  seen : List (UInt32 × UInt16) := []
  buckets : EloBuckets := ∅

def EloCounting.add (bucketWidth : ℤ) (counting : EloCounting) (sample : EloSample) : EloCounting :=
  if sample.seenKey ∈ counting.seen then counting
  else
    ⟨counting.seen ++ [sample.seenKey],
      counting.buckets.alter (sample.bucket bucketWidth) fun counts =>
        some (EloBucketCounts.add sample counts)⟩

/-- The lowest and the highest bucket of a move, with one more bucket. -/
def widenRange (bucket : UInt16 × ℤ) (range : Option (ℤ × ℤ)) : ℤ × ℤ :=
  let range := range.getD (bucket.2, bucket.2)
  (min range.1 bucket.2, max range.2 bucket.2)

def bucketRanges (buckets : EloBuckets) : Std.TreeMap UInt16 (ℤ × ℤ) compare :=
  tally compare Prod.fst widenRange buckets.keys

def bucketRow (buckets : EloBuckets) (encodedMove : UInt16) (bucket : ℤ) : EloDistributionRow :=
  let counts := buckets[(encodedMove, bucket)]?.getD {}
  ⟨encodedMove, bucket, counts.whiteWins, counts.draws, counts.blackWins, counts.gameCount⟩

/-- The rows of each move, from its lowest bucket to its highest; nothing when some loop has not
come to its end after `fuel` rows. -/
def bucketRows (fuel : ℕ) (bucketWidth : ℤ) (buckets : EloBuckets) :
    Option (List EloDistributionRow) := do
  let rows ← (bucketRanges buckets).toList.mapM fun entry =>
    (progression bucketWidth entry.2.2 fuel entry.2.1).map fun floors =>
      floors.map (bucketRow buckets entry.1)
  return rows.flatten

end Buckets

namespace Bundle

variable {rules : Chess.Rules} {Tree : Type}
  {buildTree : List ReplayGame → Reader → List UInt8 → Result (List UInt8)}
  {openTree : List UInt8 → Result Tree} {sourceGameCount : Tree → ℕ}
  (b : Bundle (.ofRules rules Tree buildTree openTree sourceGameCount))

/-- `postings_elo_distribution`. -/
def postingsEloDistribution (fuel : ℕ) (reader : Reader) (file : List UInt8) (hash : UInt64)
    (allowedGameIds : List UInt32) (bucketWidth : ℤ) :
    Result (Option (List EloDistributionRow)) := do
  let found ← reader.occurrences file hash.toNat 0 0
  let gameIds := ((found.map PositionMatch.gameId).filter (admits allowedGameIds)).dedup
  let contexts ← b.tables.getGameContexts gameIds
  let counting := (found.filterMap (EloSample.of contexts allowedGameIds)).foldl
    (EloCounting.add bucketWidth) {}
  return bucketRows fuel bucketWidth counting.buckets

/-- `database_manager::query_elo_distribution`; a result without rows of any kind stands for a query
that is still running. -/
def queryEloDistribution (fuel : ℕ) (hash : UInt64) (filter : SearchFilter) (bucketWidth : ℤ) :
    Result (Option (List EloDistributionRow)) :=
  if b.manager.isNone then .error .ioFailure
  else if bucketWidth ≤ 0 then .error .invalidArgument
  else b.askPostings fun reader file =>
    if !filter.hasMetadataFilter then b.postingsEloDistribution fuel reader file hash [] bucketWidth
    else do
      let ids ← reader.distinctGameIds file hash.toNat
      if ids.isEmpty then return some []
      let filtered ← b.tables.findGameIdsWithFilter ids { filter with position := none }
      if filtered.isEmpty then return some []
      b.postingsEloDistribution fuel reader file hash filtered bucketWidth

end Bundle

end MotifChess.Db
