/- GID: MotifChess/Db/PositionPostings/Build
   generality: implementation
   digest: Building a postings artifact: append, sorted spills, and the streaming merge. -/

import MotifChess.Db.PositionPostings.Reader
import MotifChess.Order.RunMerge
import MotifChess.Order.SortBy

/-! Files are byte lists and a stream is what remains to be read of one, with its two flags.  The
64-bit counters of the merge count records and bytes that were written to a file, so that they are
plain natural numbers here. -/

set_option autoImplicit false
set_option relaxedAutoImplicit false

namespace MotifChess.Db.PositionPostings

open Codec LittleEndian

structure Record where
  hash : ℕ
  gameKey : ℕ
  ply : ℕ
  deriving DecidableEq

namespace Record

def key (r : Record) : ℕ ×ₗ ℕ ×ₗ ℕ := toLex (r.hash, toLex (r.gameKey, r.ply))

theorem key_injective : Function.Injective key := by
  rintro ⟨hash, gameKey, ply⟩ ⟨hash', gameKey', ply'⟩ h
  obtain ⟨hhash, hrest⟩ := Prod.mk.inj (toLex.injective h)
  obtain ⟨hgame, hply⟩ := Prod.mk.inj (toLex.injective hrest)
  rw [Record.mk.injEq]
  exact ⟨hhash, hgame, hply⟩

instance : LinearOrder Record := LinearOrder.lift' key key_injective

theorem hash_le {a b : Record} (h : a < b) : a.hash ≤ b.hash := by
  have hkey : a.key < b.key := h
  rw [key, key, Prod.Lex.toLex_lt_toLex] at hkey
  rcases hkey with hlt | ⟨heq, _⟩
  · exact hlt.le
  · exact heq.le

def ofRow (row : PositionRow) : Record :=
  ⟨row.zobristHash.toNat, row.gameId.toNat, row.ply.toNat⟩

def bytes (r : Record) : List UInt8 := leBytes 8 r.hash ++ leBytes 4 r.gameKey ++ leBytes 2 r.ply

end Record

structure GameMetadata where
  result : ℤ
  whiteElo : Option Int16
  blackElo : Option Int16
  deriving DecidableEq

def GameMetadata.ofRow (row : PositionRow) : GameMetadata :=
  ⟨row.result, row.whiteElo, row.blackElo⟩

/-- The state of a build: the record buffer, the metadata of every game, and the spilled runs. -/
structure Builder where
  spillThreshold : ℕ
  records : List Record
  gameMetadata : List (ℕ × GameMetadata)
  spillFiles : List (List UInt8)
  indexedGameCount : ℕ

namespace Builder

def new (spillThreshold : ℕ) : Builder := ⟨spillThreshold, [], [], [], 0⟩

def sortRecords (records : List Record) : List Record :=
  Order.sortBy id records

/-- A spill file: the number of records, then the sorted records. -/
def spillBytes (records : List Record) : List UInt8 :=
  leBytes 8 records.length ++ records.flatMap Record.bytes

def spillCurrentBuffer (b : Builder) : Builder :=
  if b.records.isEmpty then b
  else { b with
    spillFiles := b.spillFiles ++ [spillBytes (sortRecords b.records)]
    records := [] }

def appendRow (b : Builder) (row : PositionRow) : Result Builder :=
  let metadata := b.gameMetadata.lookup row.gameId.toNat
  if row.gameId = 0 then .error .invalidArgument
  else if row.result < -1 ∨ row.result > 1 then .error .invalidArgument
  else if ∃ m ∈ metadata, m ≠ GameMetadata.ofRow row then .error .invalidArgument
  else
    let b := { b with
      gameMetadata :=
        if metadata.isSome then b.gameMetadata
        else b.gameMetadata ++ [(row.gameId.toNat, GameMetadata.ofRow row)]
      records := b.records ++ [Record.ofRow row] }
    .ok (if b.records.length ≥ b.spillThreshold then b.spillCurrentBuffer else b)

def append (b : Builder) (rows : List PositionRow) : Result Builder :=
  if b.spillThreshold = 0 then .error .invalidArgument
  else do
    let b ← rows.foldlM appendRow b
    return { b with indexedGameCount := b.gameMetadata.length }

end Builder

section Cursor

/-- A reader of one spill file; `buffer` holds the bytes read ahead of `current`. -/
structure Cursor where
  input : List UInt8
  eofbit : Bool
  failbit : Bool
  remaining : ℕ
  current : Record
  buffer : List UInt8

def spillRecordSize : ℕ := 14

def spillReadBufferRecords : ℕ := 4096

def openCursor (file : List UInt8) : Result Cursor :=
  match readLe 8 file with
  | some (remaining, input) => .ok ⟨input, false, false, remaining, ⟨0, 0, 0⟩, []⟩
  | none => .error .ioFailure

/-- Refill an empty buffer.  A short read sets both flags of the stream. -/
def Cursor.fill (c : Cursor) : Cursor :=
  if c.buffer.isEmpty then
    let bytesToRead := min c.remaining spillReadBufferRecords * spillRecordSize
    if c.input.length < bytesToRead then
      { c with input := [], eofbit := true, failbit := true, remaining := 0 }
    else { c with input := c.input.drop bytesToRead, buffer := c.input.take bytesToRead }
  else c

def decodeRecord (encoded : List UInt8) : Option (Record × List UInt8) := do
  let (hash, rest) ← readLe 8 encoded
  let (gameKey, rest) ← readLe 4 rest
  let (ply, rest) ← readLe 2 rest
  return (⟨hash, gameKey, ply⟩, rest)

/-- Step to the next record, and tell whether there is one. -/
def Cursor.advance (gameMetadata : List (ℕ × GameMetadata)) (c : Cursor) : Bool × Cursor :=
  if c.remaining = 0 then (false, c)
  else
    let c := c.fill
    if c.failbit then (false, c)
    else match decodeRecord c.buffer with
      | none => (false, c)
      | some (record, buffer) =>
        if record.gameKey = 0 ∨ (gameMetadata.lookup record.gameKey).isNone then
          (false, { c with failbit := true, remaining := 0, current := record, buffer := buffer })
        else (true, { c with remaining := c.remaining - 1, current := record, buffer := buffer })

/-- The cursor after one advance; a stream that failed before its end stops the merge. -/
def stepCursor (gameMetadata : List (ℕ × GameMetadata)) (c : Cursor) : Result (Option Cursor) :=
  match c.advance gameMetadata with
  | (true, c) => .ok (some c)
  | (false, c) => if c.failbit && !c.eofbit then .error .ioFailure else .ok none

end Cursor

section Merge

/-- The accumulators of the merge: the posting stream, the directory spool, the active position. -/
structure MergeState where
  output : List UInt8
  dirspool : List UInt8
  pending : List DirectoryBlockEntry
  sparse : List SparseEntry
  activeHash : Option ℕ
  activeHashOffset : ℕ
  activeOccurrenceCount : ℕ
  activeDistinctGameCount : ℕ
  activeMinPly : ℕ
  activeMaxPly : ℕ
  activeGame : Option ℕ
  previousFlushed : Option ℕ
  activePlies : List ℕ
  distinctHashCount : ℕ
  totalOccurrences : ℕ
  previous : Option Record

namespace MergeState

def init : MergeState :=
  ⟨List.replicate fixedHeaderSize 0, [], [], [], none, 0, 0, 0, 0, 0, none, none, [], 0, 0, none⟩

def flushDirectoryBlock (s : MergeState) : MergeState :=
  match s.pending with
  | [] => s
  | first :: _ =>
    let block := directoryBlockBytes s.pending
    { s with
      dirspool := s.dirspool ++ block
      sparse := s.sparse ++ [⟨first.hash, s.dirspool.length, block.length, s.pending.length⟩]
      pending := [] }

def flushGameGroup (s : MergeState) : MergeState :=
  match s.activeGame with
  | none => s
  | some id =>
    { s with
      output := s.output ++ gameGroupBytes s.previousFlushed (id, s.activePlies)
      previousFlushed := some id
      activeGame := none
      activePlies := [] }

def flushHash (s : MergeState) : MergeState :=
  match s.activeHash with
  | none => s
  | some hash =>
    let s := s.flushGameGroup
    let s := { s with
      pending := s.pending ++ [⟨hash, s.activeHashOffset, s.output.length - s.activeHashOffset,
        s.activeOccurrenceCount, s.activeDistinctGameCount, s.activeMinPly, s.activeMaxPly⟩]
      distinctHashCount := s.distinctHashCount + 1
      activeHash := none
      previousFlushed := none }
    if s.pending.length = maxDirectoryBlockEntries then s.flushDirectoryBlock else s

def enterHash (s : MergeState) (current : Record) : MergeState :=
  if s.activeHash = some current.hash then s
  else
    let s := s.flushHash
    { s with
      activeHash := some current.hash
      activeHashOffset := s.output.length
      activeOccurrenceCount := 0
      activeDistinctGameCount := 0
      activeMinPly := current.ply
      activeMaxPly := current.ply }

def enterGame (s : MergeState) (current : Record) : MergeState :=
  if s.activeGame = some current.gameKey then s
  else
    let s := s.flushGameGroup
    { s with
      activeGame := some current.gameKey
      activeDistinctGameCount := s.activeDistinctGameCount + 1 }

def addPly (s : MergeState) (current : Record) : MergeState :=
  { s with
    activePlies := s.activePlies ++ [current.ply]
    activeMinPly := min s.activeMinPly current.ply
    activeMaxPly := max s.activeMaxPly current.ply
    activeOccurrenceCount := s.activeOccurrenceCount + 1
    totalOccurrences := s.totalOccurrences + 1
    previous := some current }

/-- One record of the merge; a record equal to the one before it is dropped. -/
def visit (s : MergeState) (current : Record) : MergeState :=
  if s.previous = some current then s
  else ((s.enterHash current).enterGame current).addPly current

end MergeState

def metadataFlags (m : GameMetadata) : ℕ :=
  (if m.whiteElo.isSome then 1 else 0) + (if m.blackElo.isSome then 2 else 0)

def metadataRecordBytes (item : ℕ × GameMetadata) : List UInt8 :=
  leBytes 4 item.1 ++ leBytes 1 (encodeResult item.2.result) ++ leBytes 1 (metadataFlags item.2) ++
    leBytes 2 (item.2.whiteElo.getD 0).toUInt16.toNat ++
    leBytes 2 (item.2.blackElo.getD 0).toUInt16.toNat

def sortMetadata (gameMetadata : List (ℕ × GameMetadata)) : List (ℕ × GameMetadata) :=
  Order.sortBy Prod.fst gameMetadata

/-- A sparse record; the offset of its block in the spool is moved behind the metadata. -/
def sparseRecordBytes (directoryOffset : ℕ) (sparse : SparseEntry) : List UInt8 :=
  leBytes 8 sparse.firstHash ++ leBytes 8 (directoryOffset + sparse.blockOffset) ++
    leBytes 4 sparse.blockByteLength ++ leBytes 2 sparse.entryCount

def headerBytes (h : Header) : List UInt8 :=
  magic ++ leBytes 4 formatVersion ++ leBytes 4 fixedHeaderSize ++ leBytes 8 h.indexedGameCount ++
    leBytes 8 h.occurrenceCount ++ leBytes 8 h.distinctHashCount ++ leBytes 8 h.metadataOffset ++
    leBytes 8 h.metadataCount ++ leBytes 8 h.directoryOffset ++
    leBytes 8 h.directoryByteLength ++ leBytes 8 h.sparseOffset ++ leBytes 8 h.sparseCount

/-- The staged file: postings, metadata, directory spool, sparse directory, and then the header
patched over its placeholder. -/
def assembleArtifact (b : Builder) (s : MergeState) : List UInt8 :=
  let sortedMetadata := sortMetadata b.gameMetadata
  let metadataOffset := s.output.length
  let metadataBytes := sortedMetadata.flatMap metadataRecordBytes
  let directoryOffset := metadataOffset + metadataBytes.length
  let directoryByteLength := s.dirspool.length
  let sparseOffset := directoryOffset + directoryByteLength
  headerBytes ⟨b.indexedGameCount, s.totalOccurrences, s.distinctHashCount, metadataOffset,
      sortedMetadata.length, directoryOffset, directoryByteLength, sparseOffset,
      s.sparse.length⟩ ++
    s.output.drop fixedHeaderSize ++ metadataBytes ++ s.dirspool ++
    s.sparse.flatMap (sparseRecordBytes directoryOffset)

/-- Merge the runs into the staged artifact, which is not validated yet. -/
def stageArtifact (b : Builder) : Result (List UInt8) := do
  let cursors ← b.spillFiles.mapM openCursor
  let heap ← cursors.mapM (stepCursor b.gameMetadata)
  let fuel := (b.spillFiles.map List.length).sum + 1
  let s ← Order.RunMerge.mergeLoop Cursor.current (stepCursor b.gameMetadata)
    (fun s record => .ok (MergeState.visit s record)) fuel heap.reduceOption MergeState.init
  return assembleArtifact b s.flushHash.flushDirectoryBlock

def mergeRuns (b : Builder) : Result (List UInt8) := do
  let staged ← stageArtifact b
  let _ ← openArtifact staged
  return staged

/-- Spill what is left in the buffer, merge, and return the published file. -/
def Builder.finalize (b : Builder) : Result (List UInt8) :=
  if b.spillThreshold = 0 then .error .invalidArgument else mergeRuns b.spillCurrentBuffer

end Merge

end MotifChess.Db.PositionPostings
