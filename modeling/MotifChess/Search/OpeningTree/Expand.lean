/- GID: MotifChess/Search/OpeningTree/Expand
   generality: implementation
   digest: Expanding a node from the opening statistics, and a tree opened to its first ply. -/

import MotifChess.Search.OpeningStats.Query
import MotifChess.Search.OpeningTree.GamePaths

set_option autoImplicit false
set_option relaxedAutoImplicit false

namespace MotifChess.Search.OpeningTree

open MotifChess.Db MotifChess.Db.PositionPostings MotifChess.Db.OpeningTreeIndex MotifChess.Order

section Expanding

/-- A continuation of the opening statistics as one of a node. Its frequency is that of the statistics,
which counts the games that come to the next position by any moves. -/
def expandContinuation (cont : OpeningStats.Continuation) : NodeContinuation :=
  ({ san := cont.san
     resultHash := cont.resultHash
     frequency := cont.frequency.toNat
     whiteWins := cont.whiteWins.toNat
     draws := cont.draws.toNat
     blackWins := cont.blackWins.toNat
     averageWhiteElo := cont.averageWhiteElo
     averageBlackElo := cont.averageBlackElo
     eco := cont.eco
     openingName := cont.openingName
     eloWeightedScore := cont.eloWeightedScore }, some (.mk cont.resultHash [] false))

/-- `expand`, which leaves an expanded node as it is. -/
def expand (rules : Chess.Rules) (database : OpeningStats.Database) (n : Node) (filter : SearchFilter) :
    Result Node :=
  if n.isExpanded then .ok n
  else do
    let stats ← OpeningStats.query rules database n.zobristHash filter
    return .mk n.zobristHash (n.continuations ++ stats.continuations.map expandContinuation) true

/-- What a continuation says: its text, the position it leads to, and its counts. -/
structure ContinuationCounts where
  san : String
  resultHash : UInt64
  frequency : ℕ
  whiteWins : ℕ
  draws : ℕ
  blackWins : ℕ
  deriving DecidableEq

def ContinuationStats.counts (c : ContinuationStats) : ContinuationCounts :=
  ⟨c.san, c.resultHash, c.frequency, c.whiteWins, c.draws, c.blackWins⟩

def Node.counts (n : Node) : List ContinuationCounts := n.continuations.map fun c => c.1.counts

/-- A tree that is opened without prefetching and then expanded at its root has there the continuations
of the tree that is opened to the first ply. -/
def ExpandsAlike (rules : Chess.Rules) (order : List (List TreePositionRow) → List (List TreePositionRow))
    (database : Database) (stats : OpeningStats.Database) (rootHash : UInt64) (filter : SearchFilter) :
    Prop :=
  ∃ closed expanded opened, openTree rules order database rootHash 0 filter = .ok closed ∧
    expand rules stats closed.root filter = .ok expanded ∧
    openTree rules order database rootHash 1 filter = .ok opened ∧
    expanded.counts.Perm opened.root.counts

end Expanding

end MotifChess.Search.OpeningTree
