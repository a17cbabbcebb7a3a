/- GID: MotifChess/Search/OpeningTree/Slice
   generality: implementation
   digest: The slice of an opening tree: its rows, and their aggregation by node and move. -/

import MotifChess.Chess.Rules
import MotifChess.Db.SearchFilter
import MotifChess.Db.Types
import MotifChess.Order.SortBy
import Mathlib.Algebra.Order.Ring.Rat

set_option autoImplicit false
set_option relaxedAutoImplicit false

namespace MotifChess.Search.OpeningTree

open MotifChess.Db

structure GameContext where
  eco : Option String
  openingName : Option String
  moves : List UInt16

/-- What the opening tree reads from a database: the occurrences of a position, the games that
reach it, the games among them that a filter keeps, and the games' moves. -/
structure Database where
  occurrences : UInt64 → Result (List PositionMatch)
  positionGameIds : UInt64 → Result (List UInt32)
  findGameIdsWithFilter : List UInt32 → SearchFilter → Result (List UInt32)
  getGameContexts : List UInt32 → Result (List (UInt32 × GameContext))

/-- One ply of one game below an occurrence of the root. -/
structure TreePositionRow where
  gameId : UInt32
  rootPly : UInt16
  depth : ℕ
  encodedMove : UInt16
  childHash : UInt64
  result : ℤ
  whiteElo : Option Int16
  blackElo : Option Int16
  deriving DecidableEq

section Rows

variable (rules : Chess.Rules)

/-- The rows of an occurrence: its next moves, each applied to the board before it. -/
def occurrenceRows (m : PositionMatch) (board : rules.Board) (depth : ℕ) :
    List UInt16 → List TreePositionRow
  | [] => []
  | move :: moves =>
    let board := rules.applyEncodedMove board move
    ⟨m.gameId, m.ply, depth, move, rules.hash board, m.result, m.whiteElo, m.blackElo⟩ ::
      occurrenceRows m board (depth + 1) moves

/-- Whether a list of allowed games admits a game; an empty list admits all. -/
def admits (gameIds : List UInt32) (gameId : UInt32) : Bool := gameIds.isEmpty || gameIds.contains gameId

/-- `query_tree_slice`, one list of rows for each occurrence. -/
def queryTreeSlice (database : Database) (rootHash : UInt64) (maxDepth : ℕ) (gameIds : List UInt32) :
    Result (List (List TreePositionRow)) := do
  let occurrences ← database.occurrences rootHash
  let occurrences := occurrences.filter fun m => admits gameIds m.gameId
  let contexts ← database.getGameContexts (occurrences.map PositionMatch.gameId).dedup
  let rows ← occurrences.mapM fun m =>
    match contexts.lookup m.gameId with
    | none => .ok []
    | some context =>
      match rules.replay context.moves m.ply with
      | none => .error .ioFailure
      | some board =>
        .ok (occurrenceRows rules m board 1 ((context.moves.drop m.ply.toNat).take maxDepth))
  return rows.filter fun rows => !rows.isEmpty

end Rows

/-- What the games of one continuation add up to. -/
structure ContinuationAggregate where
  encodedMove : UInt16
  resultHash : UInt64 := 0
  frequency : ℕ := 0
  whiteWins : ℕ := 0
  draws : ℕ := 0
  blackWins : ℕ := 0
  whiteEloSum : ℤ := 0
  whiteEloCount : ℕ := 0
  blackEloSum : ℤ := 0
  blackEloCount : ℕ := 0
  weightedContribSum : ℚ := 0
  eloWeightSum : ℚ := 0
  eco : Option String := none
  openingName : Option String := none
  sampleGameId : UInt32 := 0

namespace ContinuationAggregate

def noteResult (result : ℤ) (a : ContinuationAggregate) : ContinuationAggregate :=
  if 0 < result then { a with whiteWins := a.whiteWins + 1 }
  else if result < 0 then { a with blackWins := a.blackWins + 1 }
  else { a with draws := a.draws + 1 }

def noteElo (result : ℤ) (whiteElo blackElo : Option Int16) (a : ContinuationAggregate) :
    ContinuationAggregate :=
  let a := whiteElo.elim a fun elo =>
    { a with whiteEloSum := a.whiteEloSum + elo.toInt, whiteEloCount := a.whiteEloCount + 1 }
  let a := blackElo.elim a fun elo =>
    { a with blackEloSum := a.blackEloSum + elo.toInt, blackEloCount := a.blackEloCount + 1 }
  match whiteElo, blackElo with
  | some white, some black =>
    let average : ℚ := ((white.toInt : ℚ) + black.toInt) / 2
    { a with
      weightedContribSum := a.weightedContribSum + result * average
      eloWeightSum := a.eloWeightSum + average }
  | _, _ => a

/-- Add one row; the first one gives the resulting position and the sample game. -/
def note (row : TreePositionRow) (a : ContinuationAggregate) : ContinuationAggregate :=
  let a := if a.frequency = 0 then
    { a with resultHash := row.childHash, sampleGameId := row.gameId } else a
  ({ a with frequency := a.frequency + 1 }.noteResult row.result).noteElo row.result row.whiteElo
    row.blackElo

end ContinuationAggregate

/-- A node of the slice: a position at a depth below the root. -/
structure NodeKey where
  depth : ℕ
  parentHash : UInt64
  deriving DecidableEq

/-- The continuations of a node by ascending move, and the occurrence that came first. -/
structure NodeAggregate where
  continuations : List ContinuationAggregate := []
  sampleGameId : UInt32
  sampleRootPly : UInt16

/-- Add a row to the continuation of its move. -/
def noteContinuation (row : TreePositionRow) :
    List ContinuationAggregate → List ContinuationAggregate
  | [] => [({ encodedMove := row.encodedMove } : ContinuationAggregate).note row]
  | a :: rest =>
    if row.encodedMove = a.encodedMove then a.note row :: rest
    else if row.encodedMove < a.encodedMove then
      ({ encodedMove := row.encodedMove } : ContinuationAggregate).note row :: a :: rest
    else a :: noteContinuation row rest

def NodeAggregate.note (row : TreePositionRow) (node : NodeAggregate) : NodeAggregate :=
  { node with continuations := noteContinuation row node.continuations }

abbrev NodeAggregates := List (NodeKey × NodeAggregate)

def noteNode (key : NodeKey) (row : TreePositionRow) : NodeAggregates → NodeAggregates
  | [] => [(key, NodeAggregate.note row ⟨[], row.gameId, row.rootPly⟩)]
  | (other, node) :: rest =>
    if other = key then (other, node.note row) :: rest else (other, node) :: noteNode key row rest

/-- The rows of one occurrence, each at the node that the row before it led to. -/
def noteOccurrence (parentHash : UInt64) (nodes : NodeAggregates) : List TreePositionRow → NodeAggregates
  | [] => nodes
  | row :: rows => noteOccurrence row.childHash (noteNode ⟨row.depth, parentHash⟩ row nodes) rows

def aggregate (rootHash : UInt64) (occurrences : List (List TreePositionRow)) : NodeAggregates :=
  occurrences.foldl (noteOccurrence rootHash) []

end MotifChess.Search.OpeningTree
