/- GID: MotifChess/Db/OpeningTreeIndex/Builder
   generality: implementation
   digest: Building an opening tree index from replayed games, with spilled runs and merged counts. -/

import MotifChess.Db.OpeningTreeIndex.ChildCounts
import MotifChess.Db.OpeningTreeIndex.Reader
import MotifChess.Db.ReplayGame
import Mathlib.Algebra.Order.Field.Rat

/-! The merged roots and edges are lists of records here; floating point sums are rational numbers,
which `encodeF64` turns into the bits of a record. -/

set_option autoImplicit false
set_option relaxedAutoImplicit false

namespace MotifChess.Db.OpeningTreeIndex

open Codec LittleEndian
open MotifChess.Order.Aggregation

section Edges

structure EdgeKey where
  rootHash : ℕ
  encodedMove : ℕ
  childHash : ℕ
  deriving DecidableEq

namespace EdgeKey

/-- `edge_less` compares the root hash, then the move, then the child hash. -/
def tie (k : EdgeKey) : ℕ ×ₗ ℕ ×ₗ ℕ := toLex (k.rootHash, toLex (k.encodedMove, k.childHash))

private theorem tie_injective : Function.Injective tie := by
  rintro ⟨rootHash, encodedMove, childHash⟩ ⟨rootHash', encodedMove', childHash'⟩ h
  obtain ⟨hroot, hrest⟩ := Prod.mk.inj (toLex.injective h)
  obtain ⟨hmove, hchild⟩ := Prod.mk.inj (toLex.injective hrest)
  rw [EdgeKey.mk.injEq]
  exact ⟨hroot, hmove, hchild⟩

instance : LinearOrder EdgeKey := LinearOrder.lift' tie tie_injective

end EdgeKey

/-- What is known of an edge before its child's count is. -/
@[ext] structure EdgeAgg where
  rootPly : ℕ
  frequency : UInt32
  whiteWins : UInt32
  draws : UInt32
  blackWins : UInt32
  whiteEloSum : ℤ
  whiteEloCount : UInt32
  blackEloSum : ℤ
  blackEloCount : UInt32
  weightedContribSum : ℚ
  eloWeightSum : ℚ
  ecoSampleMin : ℕ
  ecoSampleMax : ℕ

namespace EdgeAgg

def empty : EdgeAgg where
  rootPly := uint16Max
  frequency := 0
  whiteWins := 0
  draws := 0
  blackWins := 0
  whiteEloSum := 0
  whiteEloCount := 0
  blackEloSum := 0
  blackEloCount := 0
  weightedContribSum := 0
  eloWeightSum := 0
  ecoSampleMin := uint32Max
  ecoSampleMax := 0

def noteResult (agg : EdgeAgg) (result : ℤ) : EdgeAgg :=
  if result > 0 then { agg with whiteWins := agg.whiteWins + 1 }
  else if result < 0 then { agg with blackWins := agg.blackWins + 1 }
  else { agg with draws := agg.draws + 1 }

def noteElo (agg : EdgeAgg) (result : ℤ) (whiteElo blackElo : Option Int32) : EdgeAgg :=
  let agg := match whiteElo with
    | none => agg
    | some elo => { agg with
        whiteEloSum := agg.whiteEloSum + elo.toInt
        whiteEloCount := agg.whiteEloCount + 1 }
  let agg := match blackElo with
    | none => agg
    | some elo => { agg with
        blackEloSum := agg.blackEloSum + elo.toInt
        blackEloCount := agg.blackEloCount + 1 }
  match whiteElo, blackElo with
  | some white, some black =>
    let avgElo : ℚ := ((white.toInt : ℚ) + (black.toInt : ℚ)) / 2
    { agg with
      weightedContribSum := agg.weightedContribSum + (result : ℚ) * avgElo
      eloWeightSum := agg.eloWeightSum + avgElo }
  | _, _ => agg

end EdgeAgg

def mergeEdgeAgg (target source : EdgeAgg) : EdgeAgg where
  rootPly := min target.rootPly source.rootPly
  frequency := target.frequency + source.frequency
  whiteWins := target.whiteWins + source.whiteWins
  draws := target.draws + source.draws
  blackWins := target.blackWins + source.blackWins
  whiteEloSum := target.whiteEloSum + source.whiteEloSum
  whiteEloCount := target.whiteEloCount + source.whiteEloCount
  blackEloSum := target.blackEloSum + source.blackEloSum
  blackEloCount := target.blackEloCount + source.blackEloCount
  weightedContribSum := target.weightedContribSum + source.weightedContribSum
  eloWeightSum := target.eloWeightSum + source.eloWeightSum
  ecoSampleMin := min target.ecoSampleMin source.ecoSampleMin
  ecoSampleMax := max target.ecoSampleMax source.ecoSampleMax

instance : Std.Commutative mergeEdgeAgg where
  comm a b := by
    simp only [mergeEdgeAgg, EdgeAgg.mk.injEq]
    refine ⟨Nat.min_comm _ _, ?_, ?_, ?_, ?_, ?_, ?_, ?_, ?_, ?_, ?_, Nat.min_comm _ _,
      Nat.max_comm _ _⟩
    all_goals first | exact UInt32.add_comm _ _ | exact add_comm _ _

instance : Std.Associative mergeEdgeAgg where
  assoc a b c := by
    simp only [mergeEdgeAgg, EdgeAgg.mk.injEq]
    refine ⟨Nat.min_assoc _ _ _, ?_, ?_, ?_, ?_, ?_, ?_, ?_, ?_, ?_, ?_, Nat.min_assoc _ _ _,
      Nat.max_assoc _ _ _⟩
    all_goals first | exact UInt32.add_assoc _ _ _ | exact add_assoc _ _ _

def mapResult (pgnResult : String) : ℤ := PositionPostings.resultCode pgnResult

/-- The record that a game adds for one of its edges. -/
def edgeRecord (game : ReplayGame) (key : EdgeKey) (rootPly : ℕ) : EdgeKey × EdgeAgg :=
  let resultCode := mapResult game.result
  let agg := { EdgeAgg.empty with rootPly := rootPly, frequency := 1 }
  let agg := (agg.noteResult resultCode).noteElo resultCode game.whiteElo game.blackElo
  let id := (UInt32.ofNat game.id).toNat
  (key, { agg with ecoSampleMin := id, ecoSampleMax := id })

end Edges

section Spills

/-- `build_spills`: the roots and the edges that are waiting, and the runs they were spilled to. -/
structure BuildSpills where
  roots : Spiller ℕ ℕ
  edges : Spiller EdgeKey EdgeAgg

namespace BuildSpills

def new (threshold : ℕ) : BuildSpills := ⟨Spiller.new threshold, Spiller.new threshold⟩

def addRoot (s : BuildSpills) (hash : ℕ) : Result BuildSpills := do
  let roots ← orIoFailure (s.roots.add (· + ·) countFits (hash, 1))
  return { s with roots }

/-- Nothing is checked when edges are spilled. -/
def anyEdge (_ : EdgeAgg) : Bool := true

def addEdge (s : BuildSpills) (record : EdgeKey × EdgeAgg) : Result BuildSpills := do
  let edges ← orIoFailure (s.edges.add mergeEdgeAgg anyEdge record)
  return { s with edges }

def mergeRoots (s : BuildSpills) : Result (List (ℕ × ℕ)) := do
  let roots ← orIoFailure (s.roots.spill (· + ·) countFits)
  let merged := mergeRuns (· + ·) roots.runs
  if merged.all fun p => countFits p.2 then return merged else .error .ioFailure

def mergeEdges (s : BuildSpills) : Result (List (EdgeKey × EdgeAgg)) := do
  let edges ← orIoFailure (s.edges.spill mergeEdgeAgg anyEdge)
  return mergeRuns mergeEdgeAgg edges.runs

end BuildSpills

end Spills

section Replay

variable (rules : Chess.Rules)

/-- The one position whose edges are kept at every ply. -/
def fullCoverageRootHash : ℕ := (rules.hash rules.start).toNat

/-- `replay_scratch`: what one game has gone through so far. -/
structure ReplayScratch where
  visited : List ℕ
  edges : List (EdgeKey × ℕ)
  roots : List ℕ

/-- The edge with its ply, unless it is there; then the lower ply stays. -/
def tryEmplace (edges : List (EdgeKey × ℕ)) (key : EdgeKey) (ply : ℕ) : List (EdgeKey × ℕ) :=
  if key ∈ edges.map Prod.fst then
    edges.map fun e => if e.1 = key ∧ ply < e.2 then (key, ply) else e
  else edges ++ [(key, ply)]

/-- Count a hash once for a game, unless the counts come from elsewhere. -/
def visitOnce (visits : Option HashVisitCounter) (visited : List ℕ) (hash : ℕ) :
    Result (Option HashVisitCounter × List ℕ) :=
  match visits with
  | none => .ok (none, visited)
  | some counter =>
    if hash ∈ visited then .ok (some counter, visited)
    else do
      let counter ← counter.visit hash
      return (some counter, visited.insert hash)

/-- The loop over the moves of a game. -/
def replayMoves (maxRootPly : ℕ) : rules.Board → ℕ → ℕ → List UInt16 → Option HashVisitCounter →
    ReplayScratch → Result (Option HashVisitCounter × ReplayScratch)
  | _, _, _, [], visits, scratch => .ok (visits, scratch)
  | board, prevHash, rootPly, encodedMove :: moves, visits, scratch =>
    if rootPly > uint16Max then .error .ioFailure
    else do
      let board := rules.applyEncodedMove board encodedMove
      let childHash := (rules.hash board).toNat
      let (visits, visited) ← visitOnce visits scratch.visited childHash
      let edges :=
        if rootPly ≤ maxRootPly ∨ prevHash = fullCoverageRootHash rules then
          tryEmplace scratch.edges ⟨prevHash, encodedMove.toNat, childHash⟩ rootPly
        else scratch.edges
      let roots :=
        if rootPly + 1 ≤ maxRootPly then scratch.roots.insert childHash else scratch.roots
      replayMoves maxRootPly board childHash (rootPly + 1) moves visits ⟨visited, edges, roots⟩

/-- How hash tables are iterated: in some order of their elements. -/
structure IterationOrder where
  roots : List ℕ → List ℕ
  edges : List (EdgeKey × ℕ) → List (EdgeKey × ℕ)
  roots_perm : ∀ l, (roots l).Perm l
  edges_perm : ∀ l, (edges l).Perm l

def accumulateGame (order : IterationOrder) (maxRootPly : ℕ) (game : ReplayGame)
    (visits : Option HashVisitCounter) (spills : BuildSpills) :
    Result (Option HashVisitCounter × BuildSpills) := do
  let prevHash := fullCoverageRootHash rules
  let (visits, visited) ← visitOnce visits [] prevHash
  let (visits, scratch) ← replayMoves rules maxRootPly rules.start prevHash 0 game.moves visits
    ⟨visited, [], [prevHash]⟩
  let spills ← (order.roots scratch.roots).foldlM BuildSpills.addRoot spills
  let spills ← (order.edges scratch.edges).foldlM
    (fun spills e => spills.addEdge (edgeRecord game e.1 e.2)) spills
  return (visits, spills)

end Replay

section WriteIndex

variable (rules : Chess.Rules) (encodeF64 : ℚ → ℕ)

def writeVarint (value : ℕ) : List UInt8 := writeUleb128 value

/-- A sum as the unsigned 64-bit integer that is written for it. -/
def sumBits (sum : ℤ) : ℕ := (sum % 2 ^ 64).toNat

def writeContinuation (key : EdgeKey) (agg : EdgeAgg) (transpositionFrequency : ℕ) : List UInt8 :=
  leBytes 2 key.encodedMove ++ leBytes 8 key.childHash ++ writeVarint agg.rootPly ++
    writeVarint agg.frequency.toNat ++ writeVarint agg.whiteWins.toNat ++
    writeVarint agg.draws.toNat ++ writeVarint agg.blackWins.toNat ++
    writeVarint (sumBits agg.whiteEloSum) ++ writeVarint agg.whiteEloCount.toNat ++
    writeVarint (sumBits agg.blackEloSum) ++ writeVarint agg.blackEloCount.toNat ++
    leBytes 8 (encodeF64 agg.weightedContribSum) ++ leBytes 8 (encodeF64 agg.eloWeightSum) ++
    writeVarint agg.ecoSampleMin ++ writeVarint agg.ecoSampleMax ++
    writeVarint transpositionFrequency

/-- A child that fewer games reach than take the edge to it is refused. -/
def writeContinuations (frequencyOf : ℕ → Result ℕ) :
    List (EdgeKey × EdgeAgg) → Result (List UInt8)
  | [] => .ok []
  | (key, agg) :: rest => do
    let frequency ← frequencyOf key.childHash
    if frequency < agg.frequency.toNat then .error .ioFailure
    else do
      let bytes ← writeContinuations frequencyOf rest
      return writeContinuation encodeF64 key agg frequency ++ bytes

/-- Every root takes the edges at the front that start from it. -/
def writeNodes (frequencyOf : ℕ → Result ℕ) :
    List (ℕ × ℕ) → List (EdgeKey × EdgeAgg) → Result (List UInt8)
  | [], _ => .ok []
  | (rootHash, gameCount) :: roots, edges => do
    let continuations := edges.takeWhile fun e => e.1.rootHash = rootHash
    let isComplete := if rootHash = fullCoverageRootHash rules then 1 else 0
    let records ← writeContinuations encodeF64 frequencyOf continuations
    let nodes ← writeNodes frequencyOf roots (edges.dropWhile fun e => e.1.rootHash = rootHash)
    return leBytes 8 rootHash ++ writeVarint gameCount ++ writeVarint continuations.length ++
      writeVarint isComplete ++ records ++ nodes

structure BuildOptions where
  maxRootPly : UInt16 := 20
  spillThreshold : ℕ := 2 ^ 20
  childFrequencyMemoryLimitBytes : ℕ := 2 ^ 30

def headerBytes (maxRootPly : UInt16) (sourceGameCount rootCount : ℕ) : List UInt8 :=
  magic ++ leBytes 4 formatVersion ++ leBytes 2 maxRootPly.toNat ++ leBytes 8 sourceGameCount ++
    leBytes 8 rootCount

def writeIndexFile (opts : BuildOptions) (sourceGameCount : ℕ) (roots : List (ℕ × ℕ))
    (edges : List (EdgeKey × EdgeAgg)) (childCounts : List UInt8) : Result (List UInt8) := do
  let (childCount, _) ← orIoFailure (readLe 8 childCounts)
  let frequencies ← loadReferencedChildFrequencies (edges.map fun e => e.1.childHash) childCounts
    childCount opts.childFrequencyMemoryLimitBytes
  let nodes ← writeNodes rules encodeF64
    (lookupChildFrequency frequencies childCounts childCount) roots edges
  return headerBytes opts.maxRootPly sourceGameCount roots.length ++ nodes

end WriteIndex

section Builder

variable (rules : Chess.Rules) (encodeF64 : ℚ → ℕ) (order : IterationOrder)

/-- `opening_tree_index_builder`. -/
structure Builder where
  options : BuildOptions
  visits : HashVisitCounter
  childCounts : Option ChildCountStream
  spills : BuildSpills
  sourceGameCount : ℕ
  failure : Option ErrorCode
  finalized : Bool

namespace Builder

def new (options : BuildOptions) (childCounts : Option ChildCountStream) : Builder where
  options := options
  visits := Spiller.new options.spillThreshold
  childCounts := childCounts
  spills := BuildSpills.new options.spillThreshold
  sourceGameCount := 0
  failure := none
  finalized := false

def accumulate (b : Builder) (game : ReplayGame) : Builder × Result Unit :=
  match b.failure with
  | some e => (b, .error e)
  | none =>
    if b.finalized ∨ b.options.spillThreshold = 0 then (b, .error .invalidArgument)
    else
      let visits := if b.childCounts.isSome then none else some b.visits
      match accumulateGame rules order b.options.maxRootPly.toNat game visits b.spills with
      | .error e => ({ b with failure := some e }, .error e)
      | .ok (visits, spills) =>
        ({ b with
            visits := visits.getD b.visits
            spills := spills
            sourceGameCount := b.sourceGameCount + 1 }, .ok ())

def childCountsFile (b : Builder) : Result (List UInt8) :=
  match b.childCounts with
  | some stream => materializeChildCounts stream
  | none => b.visits.finalize

def finalize (b : Builder) : Builder × Result (List UInt8) :=
  if b.finalized then (b, .error .invalidArgument)
  else match b.failure with
    | some e => (b, .error e)
    | none =>
      ({ b with finalized := true }, do
        let roots ← b.spills.mergeRoots
        let edges ← b.spills.mergeEdges
        let counts ← b.childCountsFile
        writeIndexFile rules encodeF64 b.options b.sourceGameCount roots edges counts)

/-- Hand the games over one by one, up to the first that fails. -/
def accumulateAll (b : Builder) : List ReplayGame → Builder × Result Unit
  | [] => (b, .ok ())
  | game :: games =>
    match b.accumulate rules order game with
    | (b, .error e) => (b, .error e)
    | (b, .ok ()) => b.accumulateAll games

end Builder

/-- `opening_tree_index::build`: the file that is written, or the first error. -/
def build (opts : BuildOptions) (childCounts : Option ChildCountStream) (games : List ReplayGame) :
    Result (List UInt8) :=
  match (Builder.new opts childCounts).accumulateAll rules order games with
  | (_, .error e) => .error e
  | (b, .ok ()) => (b.finalize rules encodeF64).2

/-- The stream that hands over the distinct games of every hash of a postings file. -/
def postingsChildCounts (reader : PositionPostings.Reader) (file : List UInt8) :
    ChildCountStream where
  forEach visitor init := reader.forEachSummary file
    (fun s hash summary => visitor s hash (UInt32.ofNat summary.distinctGameCount)) init

end Builder

end MotifChess.Db.OpeningTreeIndex
