/- GID: MotifChess/Db/OpeningTreeIndex/Reader
   generality: implementation
   digest: Opening an opening tree index with full validation, and the queries on it. -/

import MotifChess.Chess.Rules
import MotifChess.Codec.LittleEndian
import MotifChess.Db.ByteStream
import MotifChess.Db.Types
import MotifChess.Order.Bisection

set_option autoImplicit false
set_option relaxedAutoImplicit false

namespace MotifChess.Db.OpeningTreeIndex

open Codec LittleEndian

/-- The letters `MOTIFOT1`. -/
def magic : List UInt8 := [77, 79, 84, 73, 70, 79, 84, 49]

def formatVersion : ℕ := 5

def fixedHeaderSize : ℕ := 30

/-- A hash of eight bytes and three integers of at least one byte each. -/
def minimumNodeSize : ℕ := 11

/-- `opening_stat_agg_row`. -/
structure OpeningStatAggRow where
  contEncodedMove : UInt16
  contHash : UInt64
  rootPly : UInt16
  frequency : UInt32
  transpositionFrequency : UInt32
  whiteWins : UInt32
  draws : UInt32
  blackWins : UInt32
  avgWhiteElo : Option Float
  avgBlackElo : Option Float
  ecoSampleMin : UInt32
  ecoSampleMax : UInt32
  eloWeightedScore : Option Float

section Varint

/-- Seven bits a byte from `shift` on; of a tenth byte only the lowest bit may be set. -/
def readVarintLoop : ℕ → ℕ → List UInt8 → Option (ℕ × List UInt8)
  | _, _, [] => none
  | shift, value, byte :: rest =>
    let payload := byte.toNat &&& 0x7f
    if shift > 63 ∨ (shift = 63 ∧ payload > 1) then none
    else
      let value := value ||| (payload <<< shift) % 2 ^ 64
      if byte.toNat &&& 0x80 = 0 then some (value, rest)
      else readVarintLoop (shift + 7) value rest

def readVarint (input : List UInt8) : Option (ℕ × List UInt8) := readVarintLoop 0 0 input

end Varint

section Continuation

/-- The fields of a continuation record, the floating point ones by their bits. -/
structure Continuation where
  encodedMove : ℕ
  childHash : ℕ
  rootPly : ℕ
  frequency : ℕ
  whiteWins : ℕ
  draws : ℕ
  blackWins : ℕ
  whiteEloSum : ℕ
  whiteEloCount : ℕ
  blackEloSum : ℕ
  blackEloCount : ℕ
  weightedContribSum : ℕ
  eloWeightSum : ℕ
  ecoSampleMin : ℕ
  ecoSampleMax : ℕ
  transpositionFrequency : ℕ
  deriving DecidableEq

def readFields (input : List UInt8) : Option (Continuation × List UInt8) := do
  let (encodedMove, input) ← readLe 2 input
  let (childHash, input) ← readLe 8 input
  let (rootPly, input) ← readVarint input
  let (frequency, input) ← readVarint input
  let (whiteWins, input) ← readVarint input
  let (draws, input) ← readVarint input
  let (blackWins, input) ← readVarint input
  let (whiteEloSum, input) ← readVarint input
  let (whiteEloCount, input) ← readVarint input
  let (blackEloSum, input) ← readVarint input
  let (blackEloCount, input) ← readVarint input
  let (weightedContribSum, input) ← readLe 8 input
  let (eloWeightSum, input) ← readLe 8 input
  let (ecoSampleMin, input) ← readVarint input
  let (ecoSampleMax, input) ← readVarint input
  let (transpositionFrequency, input) ← readVarint input
  return (⟨encodedMove, childHash, rootPly, frequency, whiteWins, draws, blackWins, whiteEloSum,
    whiteEloCount, blackEloSum, blackEloCount, weightedContribSum, eloWeightSum, ecoSampleMin,
    ecoSampleMax, transpositionFrequency⟩, input)

/-- The largest value of a signed 64-bit integer. -/
def int64Max : ℕ := 2 ^ 63 - 1

/-- What makes `read_continuation` reject a record. -/
def Continuation.Rejected (maxRootPly rootGameCount : ℕ) (c : Continuation) : Prop :=
  c.rootPly > maxRootPly ∨ c.frequency = 0 ∨ c.frequency > rootGameCount ∨
    c.frequency > uint32Max ∨ c.whiteWins > c.frequency ∨ c.draws > c.frequency ∨
    c.blackWins > c.frequency ∨ (c.whiteWins + c.draws + c.blackWins) % 2 ^ 64 ≠ c.frequency ∨
    c.whiteEloSum > int64Max ∨ c.blackEloSum > int64Max ∨ c.whiteEloCount > c.frequency ∨
    c.blackEloCount > c.frequency ∨ c.ecoSampleMin = 0 ∨ c.ecoSampleMin > c.ecoSampleMax ∨
    c.ecoSampleMax > uint32Max ∨ c.transpositionFrequency < c.frequency ∨
    c.transpositionFrequency > uint32Max

instance (maxRootPly rootGameCount : ℕ) (c : Continuation) :
    Decidable (c.Rejected maxRootPly rootGameCount) :=
  inferInstanceAs (Decidable (_ ∨ _))

def averageElo (sum count : ℕ) : Option Float :=
  if count = 0 then none else some (Float.ofNat sum / Float.ofNat count)

/-- The row that a record becomes. -/
def Continuation.row (c : Continuation) : OpeningStatAggRow where
  contEncodedMove := UInt16.ofNat c.encodedMove
  contHash := UInt64.ofNat c.childHash
  rootPly := UInt16.ofNat c.rootPly
  frequency := UInt32.ofNat c.frequency
  transpositionFrequency := UInt32.ofNat c.transpositionFrequency
  whiteWins := UInt32.ofNat c.whiteWins
  draws := UInt32.ofNat c.draws
  blackWins := UInt32.ofNat c.blackWins
  avgWhiteElo := averageElo c.whiteEloSum c.whiteEloCount
  avgBlackElo := averageElo c.blackEloSum c.blackEloCount
  ecoSampleMin := UInt32.ofNat c.ecoSampleMin
  ecoSampleMax := UInt32.ofNat c.ecoSampleMax
  eloWeightedScore :=
    let contributions := Float.ofBits (UInt64.ofNat c.weightedContribSum)
    let weights := Float.ofBits (UInt64.ofNat c.eloWeightSum)
    if weights > 0 then some (contributions / weights) else none

def readContinuation (maxRootPly rootGameCount : ℕ) (input : List UInt8) :
    Result (Continuation × List UInt8) :=
  match readFields input with
  | none => .error .ioFailure
  | some (c, rest) =>
    if c.Rejected maxRootPly rootGameCount then .error .ioFailure else .ok (c, rest)

def readContinuations (maxRootPly rootGameCount : ℕ) :
    ℕ → List UInt8 → Result (List Continuation × List UInt8)
  | 0, input => .ok ([], input)
  | count + 1, input => do
    let (c, input) ← readContinuation maxRootPly rootGameCount input
    let (cs, input) ← readContinuations maxRootPly rootGameCount count input
    return (c :: cs, input)

end Continuation

/-- What an open index keeps of a node. -/
structure Node where
  hash : ℕ
  gameCount : ℕ
  dataOffset : ℕ
  continuationCount : ℕ
  complete : Bool
  deriving DecidableEq

structure Index where
  nodes : List Node
  sourceGameCount : ℕ
  maxRootPly : ℕ
  deriving DecidableEq

section Open

structure Header where
  maxRootPly : ℕ
  sourceGameCount : ℕ
  nodeCount : ℕ
  deriving DecidableEq

/-- The header announces no more nodes than the rest of the file has room for. -/
def readHeader (file : List UInt8) : Option (Header × List UInt8) := do
  guard (fixedHeaderSize ≤ file.length ∧ file.take 8 = magic)
  let (version, input) ← readLe 4 (file.drop 8)
  guard (version = formatVersion)
  let (maxRootPly, input) ← readLe 2 input
  let (sourceGameCount, input) ← readLe 8 input
  let (nodeCount, input) ← readLe 8 input
  guard (nodeCount ≤ (file.length - fixedHeaderSize) / minimumNodeSize)
  return (⟨maxRootPly, sourceGameCount, nodeCount⟩, input)

/-- The hash, game count, continuation count and completeness of a node. -/
def readNodeHeader (previousHash : Option ℕ) (input : List UInt8) :
    Option ((ℕ × ℕ × ℕ × Bool) × List UInt8) := do
  let (hash, input) ← readLe 8 input
  let (gameCount, input) ← readVarint input
  let (continuationCount, input) ← readVarint input
  let (complete, input) ← readVarint input
  guard (gameCount ≠ 0 ∧ gameCount ≤ uint32Max ∧ continuationCount ≤ uint32Max ∧ complete ≤ 1 ∧
    ∀ previous ∈ previousHash, previous < hash)
  return ((hash, gameCount, continuationCount, decide (complete = 1)), input)

/-- The highest root ply that the edges of a node may have. -/
def maxPlyForValidation (maxRootPly : ℕ) (complete : Bool) : ℕ :=
  if complete then uint16Max else maxRootPly

variable (rules : Chess.Rules)

/-- The nodes of a file of `fileSize` bytes, each offset found by reading all records before. -/
def readNodes (fileSize : ℕ) (header : Header) :
    ℕ → Option ℕ → ℕ → List UInt8 → Result (List Node × List UInt8)
  | 0, _, _, input => .ok ([], input)
  | count + 1, previousHash, completeCount, input =>
    match readNodeHeader previousHash input with
    | none => .error .ioFailure
    | some ((hash, gameCount, continuationCount, complete), input) =>
      if complete ∧ (hash ≠ (rules.hash rules.start).toNat ∨
          gameCount ≠ header.sourceGameCount ∨ completeCount ≠ 0) then .error .ioFailure
      else do
        let dataOffset := fileSize - input.length
        let (_, input) ← readContinuations (maxPlyForValidation header.maxRootPly complete)
          gameCount continuationCount input
        let (nodes, input) ← readNodes fileSize header count (some hash)
          (completeCount + complete.toNat) input
        return (⟨hash, gameCount, dataOffset, continuationCount, complete⟩ :: nodes, input)

/-- `opening_tree_index::open`. -/
def openIndex (file : List UInt8) : Result Index :=
  match readHeader file with
  | none => .error .ioFailure
  | some (header, input) => do
    let (nodes, rest) ← readNodes rules file.length header header.nodeCount none 0 input
    if rest ≠ [] then .error .ioFailure
    else return ⟨nodes, header.sourceGameCount, header.maxRootPly⟩

end Open

section Queries

def Index.findNode (index : Index) (hash : ℕ) : Option Node :=
  Order.Bisection.findKey Node.hash index.nodes hash

def Index.queryOpeningStats (index : Index) (file : List UInt8) (hash : ℕ) :
    Result (List OpeningStatAggRow) :=
  match index.findNode hash with
  | none => .ok []
  | some node => do
    let (cs, _) ← readContinuations (maxPlyForValidation index.maxRootPly node.complete)
      node.gameCount node.continuationCount (file.drop node.dataOffset)
    return cs.map Continuation.row

def Index.gameCount (index : Index) (hash : ℕ) : ℕ := (index.findNode hash).elim 0 Node.gameCount

def Index.isComplete (index : Index) (hash : ℕ) : Bool := (index.findNode hash).any Node.complete

end Queries

end MotifChess.Db.OpeningTreeIndex
